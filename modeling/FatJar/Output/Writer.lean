import FatJar.Error
import FatJar.Files.Tree
import FatJar.Manifest.Printer
import FatJar.Output.Layout

namespace FatJar.Output

open Zip (Content Item)

structure Summary where
  files : Nat := 0
  directories : Nat := 0
  bytes : Nat := 0
deriving DecidableEq, Repr

def Summary.add (s : Summary) (i : Item) : Summary :=
  match i.content with
  | .directory => { s with directories := s.directories + 1 }
  | .file payload => { s with files := s.files + 1, bytes := s.bytes + payload.length }

def summarize (items : List Item) : Summary :=
  items.foldl Summary.add {}

def maxItemName : Nat := 65535

/-- The steps of writing that may fail whatever is written, as on a full disk. -/
inductive Step where
  /-- Making the directory at a place, which the output is to lie in. -/
  | directory (place : Place)
  | draft
  | manifest
  | item (index : Nat)
  | finish
  | replace
deriving DecidableEq, Repr

/-- What writing does not decide itself: whether the run is cancelled before the item with a number,
which steps fail, and how the draft is marked. -/
structure Circumstances where
  cancelled : Nat → Bool := fun _ => false
  failing : Step → Bool := fun _ => false
  mark : String := "000000"

def draftPath (path mark : String) : String :=
  Path.join (Path.directoryOf path) (".shadejar-" ++ mark ++ ".tmp")

/-- A draft that is being written. What has been written is sure to be in the file only when the
draft is finished. -/
structure Draft where
  tree : FileTree
  place : Place
  written : List Item := []

namespace Draft

def make? (t : FileTree) (path : String) (w : Circumstances) : Option Draft :=
  if w.failing .draft then none
  else
    match t.filePlace? (draftPath path w.mark) with
    | none => none
    | some place =>
      if (t.lookup place).isSome then none else some { tree := t.set place (.file []), place }

def discard (d : Draft) : FileTree :=
  d.tree.unlink d.place

def put (d : Draft) (i : Item) : Draft :=
  { d with written := i :: d.written }

/-- Writes items, the first of which has the number `index`, as far as that can be done: the run may
be cancelled before an item, its name may be too long, and writing it may fail. -/
def putItems (path : String) (w : Circumstances) : (index : Nat) → List Item → Draft →
    Draft × Option AssemblyError
  | _, [], d => (d, none)
  | index, i :: items, d =>
    if w.cancelled index then (d, some .cancelled)
    else if maxItemName < i.name.utf8ByteSize || w.failing (.item index) then (d, some (.write path))
    else putItems path w (index + 1) items (d.put i)

def fill (path : String) (w : Circumstances) (manifest : Item) (items : List Item) (d : Draft) :
    Draft × Option AssemblyError :=
  if w.failing .manifest then (d, some (.write path)) else putItems path w 0 items (d.put manifest)

def items (d : Draft) : List Item :=
  d.written.reverse

def finish? (d : Draft) (w : Circumstances) : Option Draft :=
  if w.failing .finish then none
  else some { d with tree := d.tree.set d.place (.file (Zip.encode d.items)) }

def replace? (d : Draft) (path : String) (w : Circumstances) : Option FileTree :=
  if w.failing .replace then none else (d.tree.filePlace? path).map (d.tree.rename d.place)

end Draft

def manifestItem (manifest : Attributes) : Item :=
  ⟨manifestPath, .file (Manifest.render manifest)⟩

def items (manifest : Attributes) (c : Contents) : List Item :=
  manifestItem manifest :: layout c

def writeThere (t : FileTree) (path : String) (manifest : Attributes) (c : Contents)
    (w : Circumstances) : FileTree × Except AssemblyError Summary :=
  match Draft.make? t path w with
  | none => (t, .error (.write path))
  | some d =>
    match d.fill path w (manifestItem manifest) (layout c) with
    | (d, some e) => (d.discard, .error e)
    | (d, none) =>
      match d.finish? w with
      | none => (d.discard, .error (.write path))
      | some d =>
        match d.replace? path w with
        | none => (d.discard, .error (.write path))
        | some t => (t, .ok (summarize d.items))

def write (t : FileTree) (path : String) (manifest : Attributes) (c : Contents)
    (w : Circumstances) : FileTree × Except AssemblyError Summary :=
  match t.makeDirectory (Path.directoryOf path) (w.failing ∘ .directory) with
  | (t, some _) => (t, .error (.write path))
  | (t, none) => writeThere t path manifest c w

end FatJar.Output
