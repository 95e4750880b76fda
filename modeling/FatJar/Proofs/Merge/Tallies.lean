import FatJar.Proofs.Merge.Resolution

namespace FatJar.Merge

open Batch

def Stats.withoutConflicts (s : Stats) : Stats :=
  { s with conflictingDuplicates := 0 }

def isExclusion : Except Ambiguity (Option Action) → Bool
  | .ok (some .exclude) => true
  | _ => false

/-- What a resolver has counted so far, where the first entry of a slot counts as the duplicates do. -/
def Resolver.counted (r : Resolver) : Stats :=
  { r.stats.withoutConflicts with
    duplicates := r.stats.withoutConflicts.duplicates + r.slots.length }

/-- The counts of entries: all, those that belong to a slot, those that a policy leaves out, and those
that are dropped for their kind. -/
def tally (table : PolicyTable) (es : List ScannedEntry) : Stats where
  entriesSeen := es.length
  duplicates := es.countP fun e => e.isMergeable && (table.lookup e.entry.path).isOk
  excluded := es.countP fun e => e.isMergeable && isExclusion (table.lookup e.entry.path)
  signaturesDropped := es.countP (·.entry.kind == .signature)
  directoriesDropped := es.countP (·.entry.kind == .directory)

variable {f : Fingerprint} {table : PolicyTable} {es fs : List ScannedEntry} {e : ScannedEntry} {path : String}
  {kind : EntryKind} {action : Option Action} {slot slot' : Slot} {g : List ScannedEntry} {t : Treatment}
  {r s : Resolver}

theorem tally_perm (h : es.Perm fs) : tally table es = tally table fs := by
  unfold tally
  rw [h.length_eq, h.countP_eq, h.countP_eq, h.countP_eq, h.countP_eq]

theorem tally_concat (table : PolicyTable) (es : List ScannedEntry) (e : ScannedEntry) :
    tally table (es ++ [e]) =
      { tally table es with
        entriesSeen := (tally table es).entriesSeen + 1
        duplicates := (tally table es).duplicates +
          (e.isMergeable && (table.lookup e.entry.path).isOk).toNat
        excluded := (tally table es).excluded +
          (e.isMergeable && isExclusion (table.lookup e.entry.path)).toNat
        signaturesDropped := (tally table es).signaturesDropped + (e.entry.kind == .signature).toNat
        directoriesDropped := (tally table es).directoriesDropped + (e.entry.kind == .directory).toNat } := by
  have hone : ∀ p : ScannedEntry → Bool, (es ++ [e]).countP p = es.countP p + (p e).toNat := by
    intro p
    rw [List.countP_append, List.countP_singleton]
    cases p e <;> rfl
  simp only [tally, hone, List.length_append, List.length_singleton]

section Slots

theorem treatment_eq_drop_iff : treatment kind action = .drop ↔ action = some .exclude := by
  unfold treatment
  split
  · next h => simp [h]
  · next h => split <;> [skip; split] <;> simp [h]

def Slot.isExcluded : Slot → Bool
  | excluded => true
  | keep .. | joined .. => false

theorem Slot.Holds.eq_excluded_iff (h : Slot.Holds f kind g t slot) : slot = .excluded ↔ t = .drop := by
  cases h <;> simp

theorem Slot.Holds.unique (h : Slot.Holds f kind g t slot) (h' : Slot.Holds f kind g t slot') :
    slot = slot' := by
  cases h with
  | excluded =>
    cases h'
    rfl
  | keep hw =>
    cases h' with
    | keep hw' => rw [Option.some.inj (hw.symm.trans hw')]
  | joined j =>
    cases h'
    rfl

theorem Slot.Holds.isExclusion_eq (h : Slot.Holds f kind g (treatment kind action) slot) :
    isExclusion (.ok action) = slot.isExcluded := by
  have hslot : slot.isExcluded = true ↔ slot = .excluded := by cases slot <;> simp [Slot.isExcluded]
  have haction : isExclusion (.ok action) = true ↔ action = some .exclude := by
    unfold isExclusion
    split
    · next heq => simpa using heq
    · next hne =>
      simp only [Bool.false_eq_true, false_iff]
      rintro rfl
      exact hne rfl
  rw [Bool.eq_iff_iff, haction, hslot, h.eq_excluded_iff, treatment_eq_drop_iff]

theorem withoutConflicts_add (slot : Slot) (next : Contribution) (stats : Stats) :
    (slot.add f next stats).2.withoutConflicts =
      { stats.withoutConflicts with excluded := stats.excluded + slot.isExcluded.toNat } := by
  cases slot with
  | excluded | joined => rfl
  | keep kind last winner hash =>
    unfold Slot.add
    dsimp only
    split <;> rfl

end Slots

namespace Resolver

theorem Follows.counted_place (h : Follows f table es r) (path : String) (e : ScannedEntry) :
    (r.place table (.ofPath path) path (contribution e)).1.counted =
      { r.counted with
        duplicates := r.counted.duplicates + (table.lookup path).isOk.toNat
        excluded := r.counted.excluded + (isExclusion (table.lookup path)).toNat } := by
  have hok : ∀ action : Option Action, (Except.ok action : Except Ambiguity _).isOk = true := fun _ => rfl
  unfold Resolver.place
  cases hslot : r.slots.lookup path with
  | some slot =>
    obtain ⟨action, hl, -, hholds⟩ := h.held _ _ hslot
    dsimp only
    rw [hl, hholds.isExclusion_eq, hok, counted, withoutConflicts_add, length_putPair, hslot]
    simp only [counted, Stats.withoutConflicts, Option.isSome_some, if_true, Bool.toNat_true,
      Nat.add_right_comm]
  | none =>
    cases hl : table.lookup path with
    | error a => rfl
    | ok action =>
      have hexclusion := (@Slot.holds_start r.fingerprint (.ofPath path) action e).isExclusion_eq
      dsimp only
      rw [hexclusion, hok, counted, length_putPair, hslot]
      cases Slot.start r.fingerprint (.ofPath path) action (contribution e) <;>
        simp [counted, Stats.withoutConflicts, Slot.isExcluded, Nat.add_assoc]

theorem Follows.counted_ingest (h : Follows f table es r) (hcounted : r.counted = tally table es) :
    (Resolver.ingest table r e).1.counted = tally table (es ++ [e]) := by
  have hseen := h.of_stats { r.stats with entriesSeen := r.stats.entriesSeen + 1 }
  have hmer := e.isMergeable_iff
  rw [tally_concat, ← hcounted]
  unfold Resolver.ingest
  cases hk : e.entry.kind with
  | directory | signature | manifest =>
    have hm : e.isMergeable = false := by simpa [hk] using hmer
    rw [hm]
    rfl
  | classFile | serviceFile | resource =>
    have hm : e.isMergeable = true := by simpa [hk] using hmer
    have hplace := hseen.counted_place e.entry.path e
    rw [← ScannedEntry.kind_of_isMergeable hm, hk] at hplace
    rw [hm]
    exact hplace

theorem Follows.counted_ingestAll (h : Follows f table es r) (hcounted : r.counted = tally table es)
    (hn : ((es ++ fs).map (·.position)).Nodup) :
    (Resolver.ingestAll table r fs).1.counted = tally table (es ++ fs) := by
  induction fs generalizing es r with
  | nil => rwa [List.append_nil]
  | cons e fs ih =>
    rw [List.append_cons] at hn ⊢
    have hfirst : ((es ++ [e]).map (·.position)).Nodup :=
      hn.sublist ((List.sublist_append_left _ _).map _)
    exact ih (h.ingest hfirst).1 (h.counted_ingest hcounted) hn

theorem Follows.lookup_eq (hr : Follows f table es r) (hs : Follows f table fs s)
    (hn : (es.map (·.position)).Nodup) (hp : es.Perm fs) (path : String) :
    r.slots.lookup path = s.slots.lookup path := by
  have hgroup : group es path = group fs path := group_congr hn hp
  cases hr' : r.slots.lookup path with
  | some slot =>
    obtain ⟨action, hl, hne, hholds⟩ := hr.held _ _ hr'
    cases hs' : s.slots.lookup path with
    | some slot' =>
      obtain ⟨action', hl', -, hholds'⟩ := hs.held _ _ hs'
      obtain rfl := Except.ok.inj (hl.symm.trans hl')
      rw [← hgroup] at hholds'
      rw [hholds.unique hholds']
    | none => exact absurd (hgroup.trans (hs.missing _ hs' action hl)) hne
  | none =>
    cases hs' : s.slots.lookup path with
    | some slot' =>
      obtain ⟨action', hl', hne', -⟩ := hs.held _ _ hs'
      exact absurd (hgroup.symm.trans (hr.missing _ hr' action' hl')) hne'
    | none => rfl

theorem Follows.slots_perm (hr : Follows f table es r) (hs : Follows f table fs s)
    (hn : (es.map (·.position)).Nodup) (hp : es.Perm fs) : r.slots.Perm s.slots := by
  refine (List.perm_ext_iff_of_nodup hr.keys.of_map hs.keys.of_map).mpr fun ⟨path, slot⟩ => ?_
  rw [← lookup_eq_some_iff_mem hr.keys, ← lookup_eq_some_iff_mem hs.keys, hr.lookup_eq hs hn hp]

theorem stats_addSettled (res : Resolution) (m : Member) (merged : Bool) :
    (addSettled res m merged).stats =
      { res.stats with
        servicesMerged := res.stats.servicesMerged + merged.toNat
        emptyOmitted := res.stats.emptyOmitted + m.payload.isEmpty.toNat } := by
  unfold addSettled
  cases merged <;> cases m.payload.isEmpty
  case true.true | false.true => rfl
  case true.false | false.false =>
    dsimp only
    split
    · contradiction
    · split <;> rfl

theorem stats_foldl_addSettled (ms : List (Member × Bool)) (res : Resolution) :
    (ms.foldl (fun res p => addSettled res p.1 p.2) res).stats =
      { res.stats with
        servicesMerged := res.stats.servicesMerged + ms.countP (·.2)
        emptyOmitted := res.stats.emptyOmitted + ms.countP (·.1.payload.isEmpty) } := by
  induction ms generalizing res with
  | nil => rfl
  | cons p ms ih =>
    have hone : ∀ b : Bool, b.toNat = if b then 1 else 0 := by decide
    rw [List.foldl_cons, ih, stats_addSettled, List.countP_cons, List.countP_cons, hone, hone]
    simp only [Nat.add_assoc, Nat.add_comm]

def settledSlots (r : Resolver) : List (Member × Bool) :=
  r.slots.filterMap fun p => settle p.1 p.2

theorem withoutConflicts_finalize (r : Resolver) :
    r.finalize.stats.withoutConflicts =
      { r.stats.withoutConflicts with
        servicesMerged := r.stats.withoutConflicts.servicesMerged + r.settledSlots.countP (·.2)
        emptyOmitted := r.stats.withoutConflicts.emptyOmitted +
          r.settledSlots.countP (·.1.payload.isEmpty) } := by
  rw [finalize, stats_foldl_addSettled]
  rfl

theorem withoutConflicts_of_counted (h : r.counted = s.counted) (hlength : r.slots.length = s.slots.length) :
    r.stats.withoutConflicts = s.stats.withoutConflicts := by
  simp only [counted, Stats.withoutConflicts, Stats.mk.injEq, hlength, Nat.add_right_cancel_iff] at h ⊢
  exact h

theorem Follows.finalize_alike (hr : Follows f table es r) (hs : Follows f table fs s)
    (hr' : r.counted = tally table es) (hs' : s.counted = tally table fs)
    (hn : (es.map (·.position)).Nodup) (hp : es.Perm fs) :
    r.finalize.contents = s.finalize.contents ∧ r.finalize.manifests = s.finalize.manifests ∧
      r.finalize.stats.withoutConflicts = s.finalize.stats.withoutConflicts := by
  have hslots := hr.slots_perm hs hn hp
  refine ⟨?_, ?_, ?_⟩
  · refine Contents.eq_of_mem_iff fun x => ?_
    rw [Resolver.mem_finalize hr.keys, Resolver.mem_finalize hs.keys, hr.lookup_eq hs hn hp]
  · rw [finalize, finalize, manifests_foldl_addSettled, manifests_foldl_addSettled, hr.manifests,
      hs.manifests, byPosition_congr (hn.sublist (List.filter_sublist.map _)) (hp.filter _)]
  · have hsettled : r.settledSlots.Perm s.settledSlots := hslots.filterMap _
    have hstats : r.stats.withoutConflicts = s.stats.withoutConflicts :=
      withoutConflicts_of_counted (by rw [hr', hs', tally_perm hp]) hslots.length_eq
    rw [withoutConflicts_finalize, withoutConflicts_finalize, hsettled.countP_eq, hsettled.countP_eq,
      hstats]

/-- In whatever order entries at positions of their own arrive, a resolver comes to the same and counts
the same, but for the duplicates that differ. -/
theorem finalize_ingestAll_alike (hn : (es.map (·.position)).Nodup) (hp : es.Perm fs) :
    (ingestAll table { fingerprint := f } es).1.finalize.contents =
        (ingestAll table { fingerprint := f } fs).1.finalize.contents ∧
      (ingestAll table { fingerprint := f } es).1.finalize.manifests =
        (ingestAll table { fingerprint := f } fs).1.finalize.manifests ∧
      (ingestAll table { fingerprint := f } es).1.finalize.stats.withoutConflicts =
        (ingestAll table { fingerprint := f } fs).1.finalize.stats.withoutConflicts := by
  have hnil : Follows f table [] { fingerprint := f } := follows_nil
  have hn' : (fs.map (·.position)).Nodup := (hp.map _).nodup_iff.mp hn
  exact (hnil.ingestAll hn).1.finalize_alike (hnil.ingestAll hn').1
    (hnil.counted_ingestAll rfl hn) (hnil.counted_ingestAll rfl hn') hn hp

end Resolver

end FatJar.Merge
