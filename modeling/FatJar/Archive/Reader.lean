import FatJar.Error
import FatJar.Files.Tree
import FatJar.Zip.Entry

namespace FatJar

structure Archive where
  path : String
  file : Bytes
  records : List Zip.Record

namespace Archive

def readEntry (file : Bytes) (index : Nat) (r : Zip.Record) : Except Defect Entry :=
  match r.data? file with
  | none => .error (.unopenable index)
  | some (method, data) =>
    if !Zip.isEnclosed r.name then .error (.escaping r.name)
    else if r.isDirectory then .ok ⟨r.name, [], true⟩
    else
      match r.payload? method data with
      | none => .error (.unreadable r.name)
      | some payload => .ok ⟨r.name, payload, false⟩

def ofPath (t : FileTree) (path : String) : Except AssemblyError Archive :=
  match t.find path with
  | .error .missing => .error (.notFound path)
  | .error fault => .error (.corrupt path (.unreachable fault))
  | .ok .directory => .error (.corrupt path .unreadableIndex)
  | .ok (.file content) =>
    match Zip.index? content with
    | none => .error (.corrupt path .unreadableIndex)
    | some records => .ok ⟨path, content, records⟩

def entryAt? (a : Archive) (index : Nat) : Option (Except Defect Entry) :=
  (a.records[index]?).map (readEntry a.file index)

end Archive

structure ArchiveReader where
  archive : Archive
  next : Nat := 0
  failed : Bool := false

namespace ArchiveReader

/-- The next entry, or what is wrong with it; nothing at the end and after a failure. -/
def read (r : ArchiveReader) : Option (Except AssemblyError Entry) × ArchiveReader :=
  if r.failed then (none, r)
  else
    match r.archive.entryAt? r.next with
    | none => (none, r)
    | some (.ok e) => (some (.ok e), { r with next := r.next + 1 })
    | some (.error defect) =>
      (some (.error (.corrupt r.archive.path defect)),
        { r with next := r.next + 1, failed := true })

end ArchiveReader

namespace Archive

/-- The entries of the records from `index` on, up to the first that cannot be read; `entries` has
those before, the last one first. -/
def entriesFrom (file : Bytes) : (index : Nat) → List Zip.Record → List Entry →
    List Entry × Option Defect
  | _, [], entries => (entries.reverse, none)
  | index, r :: rs, entries =>
    match readEntry file index r with
    | .ok e => entriesFrom file (index + 1) rs (e :: entries)
    | .error defect => (entries.reverse, some defect)

def entries (a : Archive) : List Entry × Option Defect :=
  entriesFrom a.file 0 a.records []

end Archive

end FatJar
