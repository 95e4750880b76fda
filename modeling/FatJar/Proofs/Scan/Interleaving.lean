import FatJar.Proofs.Lists
import FatJar.Scan
import Mathlib.Algebra.BigOperators.Group.List.Basic
import Mathlib.Algebra.GroupWithZero.Nat
import Mathlib.Data.List.Nodup

namespace FatJar.Scan

variable {x : Event} {es : List Event} {streams : List (List Event)} {picks : List Nat} {i : Nat}

theorem pick_eq_some_iff {rest : List (List Event)} :
    pick i streams = some (x, rest) ↔
      ∃ es, streams[i]? = some (x :: es) ∧ rest = streams.set i es := by
  unfold pick
  split
  · next y ys hi => simp [hi, eq_comm, and_comm]
  · next hno =>
    simp only [reduceCtorEq, false_iff, not_exists, not_and]
    exact fun es hi => absurd hi (hno x es)

theorem interleave_cons (h : streams[i]? = some (x :: es)) :
    interleave (i :: picks) streams = x :: interleave picks (streams.set i es) := by
  rw [interleave, pick_eq_some_iff.mpr ⟨es, h, rfl⟩]

theorem interleave_perm (picks : List Nat) (streams : List (List Event)) :
    (interleave picks streams).Perm streams.flatten := by
  induction picks generalizing streams with
  | nil => exact List.Perm.refl _
  | cons i picks ih =>
    cases hp : pick i streams with
    | none => simpa only [interleave, hp] using ih streams
    | some p =>
      obtain ⟨x, rest⟩ := p
      obtain ⟨es, hi, rfl⟩ := pick_eq_some_iff.mp hp
      obtain ⟨before, after, hstreams, hset⟩ := exists_append_of_getElem? hi
      rw [interleave_cons hi]
      refine ((ih _).cons x).trans ?_
      rw [hset, hstreams, List.flatten_append, List.flatten_append, List.flatten_cons,
        List.flatten_cons, List.cons_append]
      exact List.perm_middle.symm

theorem sublist_interleave {s : List Event} (hs : s ∈ streams) (picks : List Nat) :
    s.Sublist (interleave picks streams) := by
  induction picks generalizing streams s with
  | nil => exact List.sublist_flatten_of_mem hs
  | cons i picks ih =>
    cases hp : pick i streams with
    | none => simpa only [interleave, hp] using ih hs
    | some p =>
      obtain ⟨x, rest⟩ := p
      obtain ⟨es, hi, rfl⟩ := pick_eq_some_iff.mp hp
      obtain ⟨before, after, rfl, hset⟩ := exists_append_of_getElem? hi
      rw [interleave_cons hi, hset]
      obtain hs | hs := List.mem_append.mp hs
      · exact (ih (List.mem_append_left _ hs)).cons x
      obtain rfl | hs := List.mem_cons.mp hs
      · exact (ih (by simp)).cons_cons x
      · exact (ih (by simp [hs])).cons x

def Event.entry? : Event → Option ScannedEntry
  | entry e => some e
  | finished .. | failed _ => none

def Event.totals? : Event → Option (Nat × Nat)
  | finished entries bytes => some (entries, bytes)
  | entry _ | failed _ => none

def entriesOf (es : List Event) : List ScannedEntry :=
  es.filterMap Event.entry?

def totalsOf (es : List Event) : List (Nat × Nat) :=
  es.filterMap Event.totals?

variable {t : FileTree} {a : InputArchive} {archives : List InputArchive}

def entriesIn (t : FileTree) (a : InputArchive) : List Entry :=
  match Archive.ofPath t a.path with
  | .error _ => []
  | .ok archive => archive.entries.1

theorem events_of_error {e : AssemblyError} (h : Archive.ofPath t a.path = .error e) :
    events t a = [.failed e] := by
  rw [events, h]

theorem events_of_ok {archive : Archive} {es : List Entry} (h : Archive.ofPath t a.path = .ok archive)
    (hentries : archive.entries = (es, none)) :
    events t a = (scanned a es).map .entry ++ [.finished es.length (totalSize es)] := by
  simp only [events, h, hentries]

theorem events_of_defect {archive : Archive} {es : List Entry} {defect : Defect}
    (h : Archive.ofPath t a.path = .ok archive) (hentries : archive.entries = (es, some defect)) :
    events t a = (scanned a es).map .entry ++ [.failed (.corrupt a.path defect)] := by
  simp only [events, h, hentries]

theorem entriesIn_of_ok {archive : Archive} (h : Archive.ofPath t a.path = .ok archive) :
    entriesIn t a = archive.entries.1 := by
  rw [entriesIn, h]

theorem entriesOf_map_entry (es : List ScannedEntry) : entriesOf (es.map .entry) = es := by
  rw [entriesOf, List.filterMap_map]
  exact List.filterMap_some

theorem totalsOf_map_entry (es : List ScannedEntry) : totalsOf (es.map .entry) = [] := by
  refine List.filterMap_eq_nil_iff.mpr fun x hx => ?_
  obtain ⟨e, -, rfl⟩ := List.mem_map.mp hx
  rfl

theorem entriesOf_append (es fs : List Event) : entriesOf (es ++ fs) = entriesOf es ++ entriesOf fs :=
  List.filterMap_append

theorem totalsOf_append (es fs : List Event) : totalsOf (es ++ fs) = totalsOf es ++ totalsOf fs :=
  List.filterMap_append

theorem entriesOf_events (t : FileTree) (a : InputArchive) :
    entriesOf (events t a) = scanned a (entriesIn t a) := by
  cases harchive : Archive.ofPath t a.path with
  | error e =>
    rw [events_of_error harchive, entriesIn, harchive]
    rfl
  | ok archive =>
    rw [entriesIn_of_ok harchive]
    rcases hentries : archive.entries with ⟨es, none | defect⟩
    · rw [events_of_ok harchive hentries, entriesOf_append, entriesOf_map_entry]
      exact List.append_nil _
    · rw [events_of_defect harchive hentries, entriesOf_append, entriesOf_map_entry]
      exact List.append_nil _

theorem events_of_no_failure (h : ∀ e, .failed e ∉ events t a) :
    (∃ archive, Archive.ofPath t a.path = .ok archive ∧ archive.entries = (entriesIn t a, none)) ∧
      totalsOf (events t a) = [((entriesIn t a).length, totalSize (entriesIn t a))] := by
  cases harchive : Archive.ofPath t a.path with
  | error e =>
    rw [events_of_error harchive] at h
    exact absurd List.mem_cons_self (h e)
  | ok archive =>
    rw [entriesIn_of_ok harchive]
    rcases hentries : archive.entries with ⟨es, none | defect⟩
    · refine ⟨⟨archive, rfl, hentries⟩, ?_⟩
      rw [events_of_ok harchive hentries, totalsOf_append, totalsOf_map_entry]
      rfl
    · rw [events_of_defect harchive hentries] at h
      exact absurd (List.mem_append_right _ List.mem_cons_self) (h _)

theorem position_mem_scanned {a : InputArchive} {es : List Entry} {e : ScannedEntry}
    (h : e ∈ scanned a es) : e.position.rank = a.rank := by
  obtain ⟨x, -, rfl⟩ := List.mem_map.mp h
  rfl

theorem nodup_positions_scanned (a : InputArchive) (es : List Entry) :
    ((scanned a es).map (·.position)).Nodup := by
  have hpositions : (scanned a es).map (·.position) =
      (List.range es.length).map fun seq => ⟨a.rank, seq⟩ := by
    rw [scanned, List.map_map, List.range_eq_range', ← List.zipIdx_map_snd 0 es, List.map_map]
    rfl
  rw [hpositions]
  refine List.nodup_range.map fun seq seq' h => ?_
  exact congrArg Position.seq h

theorem nodup_positions (hranks : (archives.map (·.rank)).Nodup) (es : InputArchive → List Entry) :
    ((archives.flatMap fun a => scanned a (es a)).map (·.position)).Nodup := by
  rw [List.map_flatMap, List.nodup_flatMap]
  refine ⟨fun a _ => nodup_positions_scanned a (es a), ?_⟩
  refine (List.pairwise_map.mp hranks).imp fun {a b} hne p hp hp' => ?_
  obtain ⟨e, he, rfl⟩ := List.mem_map.mp hp
  obtain ⟨e', he', hsame⟩ := List.mem_map.mp hp'
  apply hne
  rw [← position_mem_scanned he, ← position_mem_scanned he', hsame]

end FatJar.Scan
