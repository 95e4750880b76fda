import FatJar.Proofs.Merge.Positions
import FatJar.Text.Lines

namespace FatJar

namespace ScannedEntry

def isMergeable (e : ScannedEntry) : Bool :=
  !e.entry.isDir &&
    [EntryKind.serviceFile, .classFile, .resource].contains (.ofPath e.entry.path)

def isManifest (e : ScannedEntry) : Bool :=
  !e.entry.isDir && EntryKind.ofPath e.entry.path == .manifest

theorem isMergeable_iff (e : ScannedEntry) :
    e.isMergeable = true ↔ e.entry.kind ∈ [EntryKind.serviceFile, .classFile, .resource] := by
  unfold isMergeable Entry.kind
  cases e.entry.isDir <;> simp

theorem isManifest_iff (e : ScannedEntry) : e.isManifest = true ↔ e.entry.kind = .manifest := by
  unfold isManifest Entry.kind
  cases e.entry.isDir <;> simp

theorem kind_of_isMergeable {e : ScannedEntry} (h : e.isMergeable = true) :
    e.entry.kind = .ofPath e.entry.path := by
  unfold isMergeable at h
  unfold Entry.kind
  cases hd : e.entry.isDir <;> simp_all

end ScannedEntry

namespace Merge.Batch

def byPosition (es : List ScannedEntry) : List ScannedEntry :=
  es.mergeSort fun a b => !b.position.before a.position

/-- The entries that are in question for a path. -/
def group (es : List ScannedEntry) (path : String) : List ScannedEntry :=
  byPosition (es.filter fun e => e.isMergeable && e.entry.path == path)

inductive Treatment where
  | drop
  | keep (last : Bool)
  | join (joining : Joining)

def treatment (kind : EntryKind) (action : Option Action) : Treatment :=
  if action = some .exclude then .drop
  else if kind = .serviceFile ∨ action = some .mergeRegistrations then .join .registrations
  else if action = some .concatenateLines then .join .lines
  else .keep (decide (action = some .keepLast))

def winner? (last : Bool) (g : List ScannedEntry) : Option ScannedEntry :=
  if last then g.getLast? else g.head?

def endedLine (payload : Bytes) : Bytes :=
  if payload.getLast? = some 0x0A then payload else payload ++ [0x0A]

def joinLines : List Bytes → Bytes
  | [payload] => payload
  | payloads => (payloads.filter (· ≠ [])).flatMap endedLine

/-- The names on the lines of a payload, less blanks and what follows a `#`. -/
def names (payload : Bytes) : List (List Char) :=
  ((physicalLines (Utf8.decodeLossy payload)).map fun line => trim (upTo '#' line)).filter (· ≠ [])

def addNew (seen : List (List Char)) (name : List Char) : List (List Char) :=
  if name ∈ seen then seen else seen ++ [name]

def joinNames (payloads : List Bytes) : Bytes :=
  ((payloads.flatMap names).foldl addNew []).flatMap fun name => Utf8.encode name ++ [0x0A]

def settled (g : List ScannedEntry) : Treatment → Option (Bytes × Coordinates)
  | .drop => none
  | .keep last => (winner? last g).map fun e => (e.entry.payload, e.archive)
  | .join .lines => g.head?.map fun e => (joinLines (g.map (·.entry.payload)), e.archive)
  | .join .registrations => g.head?.map fun e => (joinNames (g.map (·.entry.payload)), e.archive)

/-- The member at a path, unless two policies apply equally well to it, its entries are excluded or
nothing is in it. -/
def member? (table : PolicyTable) (es : List ScannedEntry) (path : String) : Option Member :=
  match table.lookup path with
  | .error _ => none
  | .ok action =>
    ((settled (group es path) (treatment (.ofPath path) action)).filter (·.1 ≠ [])).map fun s =>
      ⟨path, .ofPath path, s.1, s.2⟩

/-- The paths that entries are in question for, in the order of their bytes. -/
def paths (es : List ScannedEntry) : List String :=
  (((es.filter (·.isMergeable)).map (·.entry.path)).dedup).mergeSort fun a b => utf8 a ≤ utf8 b

def members (table : PolicyTable) (es : List ScannedEntry) : List Member :=
  (paths es).filterMap (member? table es)

def manifests (es : List ScannedEntry) : List Bytes :=
  (byPosition (es.filter (·.isManifest))).map (·.entry.payload)

/-- What comes of taking in an entry, whatever came before it. -/
def verdict (table : PolicyTable) (e : ScannedEntry) : Except Ambiguity Unit :=
  if e.isMergeable then (table.lookup e.entry.path).map fun _ => () else .ok ()

theorem byPosition_perm (es : List ScannedEntry) : (byPosition es).Perm es :=
  List.mergeSort_perm es _

theorem mem_group {es : List ScannedEntry} {path : String} {e : ScannedEntry} :
    e ∈ group es path ↔ e ∈ es ∧ e.isMergeable = true ∧ e.entry.path = path := by
  rw [group, (byPosition_perm _).mem_iff, List.mem_filter]
  simp

section Arrangement

variable {es fs : List ScannedEntry} {β : Type} (f : ScannedEntry → β)

def placed (es : List ScannedEntry) : List (Position × β) :=
  es.map fun e => (e.position, f e)

theorem arranged_byPosition (h : (es.map (·.position)).Nodup) : Arranged (placed f (byPosition es)) := by
  have hle : (byPosition es).Pairwise fun a b => (!b.position.before a.position) = true := by
    apply List.pairwise_mergeSort
    · intro a b c hab hbc
      simp only [Bool.not_eq_true', ← Bool.not_eq_true, Position.before_iff] at hab hbc ⊢
      omega
    · intro a b
      simp only [Bool.or_eq_true, Bool.not_eq_true', ← Bool.not_eq_true, Position.before_iff]
      omega
  have hne : (byPosition es).Pairwise fun a b => a.position ≠ b.position := by
    have hn := ((byPosition_perm es).map (·.position)).nodup_iff.mpr h
    exact List.pairwise_map.mp hn
  refine List.pairwise_map.mpr (hle.imp₂ ?_ hne)
  intro a b hab hne
  exact (Position.before_or_before hne).resolve_right (by simpa using hab)

theorem byPosition_congr (h : (es.map (·.position)).Nodup) (hp : es.Perm fs) :
    byPosition es = byPosition fs := by
  have hf : (fs.map (·.position)).Nodup := (hp.map _).nodup_iff.mp h
  have hperm : (byPosition es).Perm (byPosition fs) :=
    ((byPosition_perm es).trans hp).trans (byPosition_perm fs).symm
  have he := (arranged_byPosition id h).eq_of_perm (arranged_byPosition id hf) (hperm.map _)
  have hs := congrArg (List.map Prod.snd) he
  simpa [placed, List.map_map, Function.comp_def] using hs

theorem position_ne_of_nodup {e a : ScannedEntry} (h : ((es ++ [e]).map (·.position)).Nodup)
    (ha : a ∈ es) : e.position ≠ a.position := by
  rw [List.map_append] at h
  intro he
  exact (List.nodup_append.mp h).2.2 _ (List.mem_map_of_mem ha) _ (by simp) he.symm

theorem placed_byPosition_append {e : ScannedEntry} (h : ((es ++ [e]).map (·.position)).Nodup) :
    placed f (byPosition (es ++ [e])) = putAt e.position (f e) (placed f (byPosition es)) := by
  have hes : (es.map (·.position)).Nodup := by
    rw [List.map_append] at h
    exact (List.nodup_append.mp h).1
  have hfresh : ∀ x ∈ placed f (byPosition es), e.position ≠ x.1 := by
    intro x hx
    obtain ⟨a, ha, rfl⟩ := List.mem_map.mp hx
    exact position_ne_of_nodup h ((byPosition_perm es).mem_iff.mp ha)
  have hp : (byPosition (es ++ [e])).Perm (e :: byPosition es) :=
    (byPosition_perm _).trans
      ((List.perm_append_singleton e es).trans ((byPosition_perm es).symm.cons e))
  exact (arranged_byPosition f h).eq_of_perm (arranged_byPosition f hes).putAt
    ((hp.map _).trans (putAt_perm hfresh).symm)

end Arrangement

end Merge.Batch

end FatJar
