import FatJar.Entry.Contents
import FatJar.Entry.Registrations
import FatJar.Manifest.Attributes
import FatJar.Merge.Fingerprint
import FatJar.Merge.Policy

namespace FatJar.Merge

structure Contribution where
  position : Position
  origin : Coordinates
  payload : Bytes
deriving DecidableEq

variable {α : Type}

/-- Puts `v` at `p` in a list in the order of positions, in place of what is there. -/
def putAt (p : Position) (v : α) : List (Position × α) → List (Position × α)
  | [] => [(p, v)]
  | x :: xs =>
    if p.before x.1 then (p, v) :: x :: xs
    else if p = x.1 then (p, v) :: xs
    else x :: putAt p v xs

inductive Joining where
  | lines
  | registrations
deriving DecidableEq, Repr

inductive Slot where
  | excluded
  | keep (kind : EntryKind) (last : Bool) (winner : Contribution) (hash : UInt64)
  | joined (kind : EntryKind) (joining : Joining) (parts : List (Position × Contribution))

structure Stats where
  entriesSeen : Nat := 0
  duplicates : Nat := 0
  conflictingDuplicates : Nat := 0
  excluded : Nat := 0
  signaturesDropped : Nat := 0
  directoriesDropped : Nat := 0
  servicesMerged : Nat := 0
  emptyOmitted : Nat := 0
deriving DecidableEq, Repr

namespace Slot

/-- The slot for the first entry at a path. Service files are always merged, unless excluded. -/
def start (fingerprint : Fingerprint) (kind : EntryKind) (action : Option Action)
    (first : Contribution) : Slot :=
  let joined (j : Joining) : Slot := .joined kind j [(first.position, first)]
  let keep (last : Bool) : Slot := .keep kind last first (fingerprint first.payload)
  match action with
  | some .exclude => .excluded
  | some .mergeRegistrations => joined .registrations
  | some .concatenateLines =>
    if kind = .serviceFile then joined .registrations else joined .lines
  | some .keepLast =>
    if kind = .serviceFile then joined .registrations else keep true
  | some .keepFirst | none =>
    if kind = .serviceFile then joined .registrations else keep false

def givesWay (last : Bool) (winner next : Contribution) : Bool :=
  if last then winner.position.before next.position else next.position.before winner.position

/-- Takes in a further contribution. One to a kept slot is in conflict if its payload has another
fingerprint than the one kept so far. -/
def add (fingerprint : Fingerprint) (next : Contribution) (stats : Stats) : Slot → Slot × Stats
  | .excluded => (.excluded, { stats with excluded := stats.excluded + 1 })
  | .keep kind last winner hash =>
    let nextHash := fingerprint next.payload
    (if givesWay last winner next then .keep kind last next nextHash
      else .keep kind last winner hash,
      if nextHash = hash then stats
      else { stats with conflictingDuplicates := stats.conflictingDuplicates + 1 })
  | .joined kind joining parts => (.joined kind joining (putAt next.position next parts), stats)

end Slot

def concatenateLines (payloads : List Bytes) : Bytes :=
  payloads.flatMap fun p => if p.isEmpty || p.getLast? = some 0x0A then p else p ++ [0x0A]

/-- The payload that joined contributions have. A lone contribution to lines has nothing to be
joined with. -/
def Joining.payload : Joining → List Bytes → Bytes
  | .lines, [p] => p
  | .lines, ps => concatenateLines ps
  | .registrations, ps => Registrations.merge ps

structure Resolver where
  fingerprint : Fingerprint := .xxh3
  slots : List (String × Slot) := []
  manifests : List (Position × Bytes) := []
  stats : Stats := {}

structure Resolution where
  contents : Contents
  manifests : List Bytes
  stats : Stats

namespace Resolver

def place (r : Resolver) (table : PolicyTable) (kind : EntryKind) (path : String)
    (c : Contribution) : Resolver × Except Ambiguity Unit :=
  match r.slots.lookup path with
  | some slot =>
    let (slot, stats) :=
      slot.add r.fingerprint c { r.stats with duplicates := r.stats.duplicates + 1 }
    ({ r with slots := putPair path slot r.slots, stats }, .ok ())
  | none =>
    match table.lookup path with
    | .error a => (r, .error a)
    | .ok action =>
      let slot := Slot.start r.fingerprint kind action c
      let stats :=
        match slot with
        | .excluded => { r.stats with excluded := r.stats.excluded + 1 }
        | _ => r.stats
      ({ r with slots := putPair path slot r.slots, stats }, .ok ())

/-- Takes in one entry. It is an error when two policies apply equally well to its path. -/
def ingest (table : PolicyTable) (r : Resolver) (e : ScannedEntry) :
    Resolver × Except Ambiguity Unit :=
  let r := { r with stats := { r.stats with entriesSeen := r.stats.entriesSeen + 1 } }
  match e.entry.kind with
  | .directory =>
    ({ r with stats := { r.stats with directoriesDropped := r.stats.directoriesDropped + 1 } },
      .ok ())
  | .signature =>
    ({ r with stats := { r.stats with signaturesDropped := r.stats.signaturesDropped + 1 } },
      .ok ())
  | .manifest => ({ r with manifests := putAt e.position e.entry.payload r.manifests }, .ok ())
  | kind => r.place table kind e.entry.path ⟨e.position, e.archive, e.entry.payload⟩

/-- Takes in entries one after the other, whatever comes of each. -/
def ingestAll (table : PolicyTable) (r : Resolver) :
    List ScannedEntry → Resolver × List (Except Ambiguity Unit)
  | [] => (r, [])
  | e :: es =>
    let (r, result) := ingest table r e
    let (r, results) := ingestAll table r es
    (r, result :: results)

/-- What a slot comes to: nothing, or a member and whether service files were merged for it. -/
def settle (path : String) : Slot → Option (Member × Bool)
  | .excluded => none
  | .keep kind _ winner _ => some (⟨path, kind, winner.payload, winner.origin⟩, false)
  | .joined kind joining parts =>
    match parts with
    | [] => none
    | first :: _ =>
      some (⟨path, kind, joining.payload (parts.map (·.2.payload)), first.2.origin⟩,
        joining == .registrations && 1 < parts.length)

/-- Adds a settled member. An empty one is left out, for it would be of no use. -/
def addSettled (res : Resolution) (m : Member) (merged : Bool) : Resolution :=
  let stats :=
    if merged then { res.stats with servicesMerged := res.stats.servicesMerged + 1 } else res.stats
  if m.payload.isEmpty then
    { res with stats := { stats with emptyOmitted := stats.emptyOmitted + 1 } }
  else
    match res.contents.insert? m with
    | none => { res with stats }
    | some contents => { res with contents, stats }

def finalize (r : Resolver) : Resolution :=
  (r.slots.filterMap fun p => settle p.1 p.2).foldl (fun res p => addSettled res p.1 p.2)
    ⟨.empty, r.manifests.map (·.2), r.stats⟩

end Resolver

end FatJar.Merge
