import FatJar.Entry.Kind
import FatJar.Text.Utf8

namespace FatJar

structure Coordinates where
  name : String
  version : Option String := none
deriving DecidableEq, Repr, Inhabited

def Coordinates.display (c : Coordinates) : String :=
  match c.version with
  | none => c.name
  | some v => c.name ++ ":" ++ v

/-- Where an entry stands among all entries of a run: the rank of its archive, then its place in
that archive. -/
structure Position where
  rank : Nat
  seq : Nat
deriving DecidableEq, Repr, Inhabited

def Position.before (a b : Position) : Bool :=
  a.rank < b.rank || (a.rank == b.rank && a.seq < b.seq)

structure Entry where
  path : String
  payload : Bytes
  isDir : Bool := false
deriving DecidableEq, Repr

def Entry.size (e : Entry) : Nat :=
  e.payload.length

/-- A directory whatever its path says, or what its path says. -/
def Entry.kind (e : Entry) : EntryKind :=
  if e.isDir then .directory else .ofPath e.path

structure ScannedEntry where
  position : Position
  archive : Coordinates
  entry : Entry
deriving DecidableEq, Repr

structure Member where
  path : String
  kind : EntryKind
  payload : Bytes
  origin : Coordinates
deriving DecidableEq, Repr

def Member.key (m : Member) : Bytes :=
  utf8 m.path

end FatJar
