import FatJar.Zip.Index
import FatJar.Zip.Inflate

namespace FatJar.Zip

inductive Method where
  | stored
  | deflated
  | foreign
deriving DecidableEq, Repr

def Method.ofNumber? : Nat → Option Method
  | 0 => some .stored
  | 8 => some .deflated
  | 9 | 12 | 14 | 93 | 95 | 98 => some .foreign
  | _ => none

/-- The data of an entry as it is in the file, which may end before it. Encrypted entries and other
methods cannot be opened, and neither can an entry without its local record. -/
def Record.data? (r : Record) (file : Bytes) : Option (Method × Bytes) := do
  if r.isEncrypted then none
  let (fields, rest) ←
    readRecord? localSignature [2, 2, 2, 2, 2, 4, 4, 4, 2, 2] (file.drop r.start)
  match fields with
  | [_, _, _, _, _, _, _, _, nameLength, extraLength] =>
    return (← Method.ofNumber? r.method, (rest.drop (nameLength + extraLength)).take r.compressedSize)
  | _ => none

def Record.payload? (r : Record) (method : Method) (data : Bytes) : Option Bytes := do
  let payload ← match method with
    | .stored => some data
    | .deflated => inflate? data
    | .foreign => none
  if (crc32 payload).toNat = r.checkSum then some payload else none

def isSeparator (c : Char) : Bool :=
  c == '/' || c == '\\'

def Record.isDirectory (r : Record) : Bool :=
  r.name.toList.getLast?.any isSeparator

def afterName? : List Char → Option (List Char)
  | [] => none
  | c :: path => if isSeparator c then none else some (path.dropWhile (!isSeparator ·))

def afterDrive? : List Char → Option (List Char)
  | c :: ':' :: path => if c.isAlpha then some path else none
  | _ => none

/-- What follows the name of a host and, if there is more, that of a share on it. -/
def afterShare? (path : List Char) : Option (List Char) :=
  (afterName? path).map fun path => (path.drop 1).dropWhile (!isSeparator ·)

def afterVerbatim? (path : List Char) : Option (List Char) :=
  let unified := match path with
    | 'U' :: 'N' :: 'C' :: c :: path => if isSeparator c then afterShare? path else none
    | _ => none
  unified <|> afterDrive? path <|> afterName? path

/-- What follows the volume that a path begins with: a drive, or a name behind two separators. -/
def afterVolume? : List Char → Option (List Char)
  | a :: b :: path =>
    if isSeparator a && isSeparator b then
      let special := match path with
        | '?' :: c :: path => if isSeparator c then afterVerbatim? path else none
        | '.' :: c :: path => if isSeparator c then afterName? path else none
        | _ => none
      special <|> afterShare? path
    else afterDrive? (a :: b :: path)
  | _ => none

/-- The names that a path leads through behind its volume, with either slash between them. -/
def relativeNames (path : List Char) : List (List Char) :=
  (((afterVolume? path).getD path).splitOnP isSeparator).filter fun name =>
    !name.isEmpty && name != ['.']

/-- The depth that names lead to from `depth`; `none` if they lead out on the way. -/
def depthAfter? : (depth : Nat) → List (List Char) → Option Nat
  | depth, [] => some depth
  | depth, name :: names =>
    if name = ['.', '.'] then
      match depth with
      | 0 => none
      | depth + 1 => depthAfter? depth names
    else depthAfter? (depth + 1) names

def isEnclosed (path : String) : Bool :=
  !path.toList.contains '\x00' && (depthAfter? 0 (relativeNames path.toList)).isSome

end FatJar.Zip
