import FatJar.Files.Path
import FatJar.Keyed
import FatJar.Text.Utf8

namespace FatJar

abbrev Place := List String

inductive Node where
  | file (content : Bytes)
  | directory
deriving DecidableEq

inductive PathFault where
  | missing
  | notDirectory
  | nameTooLong
  | zeroByte
  | refused
deriving DecidableEq, Repr

structure FileTree where
  workingPlace : Place
  nodes : List (Place × Node)

namespace FileTree

def empty : FileTree :=
  ⟨["work"], [(["work"], .directory)]⟩

def lookup (t : FileTree) (p : Place) : Option Node :=
  if p = [] then some .directory else (t.nodes.find? (·.1 = p)).map Prod.snd

def set (t : FileTree) (p : Place) (n : Node) : FileTree :=
  { t with nodes := putPair p n t.nodes }

def isDirectory (t : FileTree) (p : Place) : Bool :=
  match t.lookup p with
  | some .directory => true
  | _ => false

def remove (t : FileTree) (p : Place) : FileTree :=
  { t with nodes := t.nodes.filter fun n => !p.isPrefixOf n.1 }

def unlink (t : FileTree) (p : Place) : FileTree :=
  { t with nodes := t.nodes.filter (·.1 ≠ p) }

/-- Moves a node from one place to another, where it takes the place of what is there. -/
def rename (t : FileTree) (p q : Place) : FileTree :=
  match t.lookup p with
  | none => t
  | some n => (t.unlink p).set q n

def start (t : FileTree) (path : String) : Place :=
  if Path.isAbsolute path then [] else t.workingPlace

def maxName : Nat := 255

def maxPath : Nat := 4095

def pathFault? (path : String) : Option PathFault :=
  if path.toList.contains '\x00' then some .zeroByte
  else if path.isEmpty then some .missing
  else if maxPath < path.utf8ByteSize then some .nameTooLong
  else none

def beside (p : Place) (part : String) : Except PathFault Place :=
  if Path.isIdle part then .ok p
  else if part = ".." then .ok p.dropLast
  else if maxName < part.utf8ByteSize then .error .nameTooLong
  else .ok (p ++ [part])

/-- The place that a part of a path leads to from a place, which has to be a directory. -/
def enter (t : FileTree) (p : Place) (part : String) : Except PathFault Place :=
  match t.lookup p with
  | none => .error .missing
  | some (.file _) => .error .notDirectory
  | some .directory => beside p part

def along (t : FileTree) (p : Place) (parts : List String) : Except PathFault Place :=
  parts.foldlM t.enter p

def locate (t : FileTree) (path : String) : Except PathFault Place :=
  match pathFault? path with
  | some fault => .error fault
  | none => t.along (t.start path) (Path.parts path)

def find (t : FileTree) (path : String) : Except PathFault Node := do
  match t.lookup (← t.locate path) with
  | none => throw .missing
  | some n => return n

def contains (t : FileTree) (path : String) : Bool :=
  match t.find path with
  | .ok _ => true
  | .error _ => false

/-- Goes on as `enter` does, and makes a directory where there is nothing, unless that is
refused. -/
def makeStep (refused : Place → Bool) (t : FileTree) (p : Place) (part : String) :
    Except PathFault (FileTree × Place) :=
  match t.enter p part with
  | .error fault => .error fault
  | .ok q =>
    match t.lookup q with
    | some _ => .ok (t, q)
    | none => if refused q then .error .refused else .ok (t.set q .directory, q)

def makeAlong (refused : Place → Bool) (t : FileTree) (p : Place) :
    List String → FileTree × Option PathFault
  | [] => (t, if t.isDirectory p then none else some .notDirectory)
  | part :: parts =>
    match t.makeStep refused p part with
    | .error fault => (t, some fault)
    | .ok (t, p) => t.makeAlong refused p parts

def makeDirectory (t : FileTree) (path : String) (refused : Place → Bool := fun _ => false) :
    FileTree × Option PathFault :=
  match pathFault? path with
  | some fault => (t, some fault)
  | none => t.makeAlong refused (t.start path) (Path.parts path)

/-- The place where a file can be put under a path: the path has to end in a name, and the name must
not be that of a directory. -/
def filePlace? (t : FileTree) (path : String) : Option Place :=
  match (Path.parts path).getLast?, t.locate path with
  | some name, .ok p => if Path.isIdle name || t.isDirectory p then none else some p
  | _, _ => none

def putFile (t : FileTree) (path : String) (content : Bytes) : FileTree :=
  let t := (t.makeDirectory (Path.directoryOf path)).1
  match t.filePlace? path with
  | some p => t.set p (.file content)
  | none => t

def removePath (t : FileTree) (path : String) : FileTree :=
  match t.locate path with
  | .ok p => t.remove p
  | .error _ => t

/-- The paths of all that lies in the working directory, with a slash after directories. -/
def listing (t : FileTree) : List String :=
  let below : Place × Node → Option String := fun (p, n) =>
    match t.workingPlace.isPrefixOf? p, n with
    | none, _ | some [], _ => none
    | some names, .directory => some ("/".intercalate names ++ "/")
    | some names, .file _ => some ("/".intercalate names)
  (t.nodes.filterMap below).mergeSort fun a b => utf8 a ≤ utf8 b

end FileTree

end FatJar
