import FatJar.Proofs.Merge.Tallies

namespace FatJar.Merge

open Batch

/-- Whether an entry may become part of the output and no two policies apply equally well to its path. -/
def isAccepted (table : PolicyTable) (e : ScannedEntry) : Bool :=
  e.isMergeable && (table.lookup e.entry.path).isOk

def acceptedPaths (table : PolicyTable) (es : List ScannedEntry) : List String :=
  ((es.filter (isAccepted table)).map (·.entry.path)).dedup

def mergesRegistrations (table : PolicyTable) (path : String) : Bool :=
  match table.lookup path with
  | .error _ => false
  | .ok action =>
    action != some .exclude &&
      (EntryKind.ofPath path == .serviceFile || action == some .mergeRegistrations)

def contributions (es : List ScannedEntry) (path : String) : Nat :=
  es.countP fun e => e.isMergeable && e.entry.path == path

/-- The counts of a resolution account for all entries and all paths. -/
structure Balanced (table : PolicyTable) (es : List ScannedEntry)
    (results : List (Except Ambiguity Unit)) (res : Resolution) : Prop where
  seen : res.stats.entriesSeen = es.length
  entries : es.length = res.stats.directoriesDropped + res.stats.signaturesDropped +
    res.manifests.length + results.countP (!·.isOk) + res.stats.duplicates +
    (acceptedPaths table es).length
  paths : (acceptedPaths table es).length = res.contents.members.length + res.stats.emptyOmitted +
    (acceptedPaths table es).countP fun path => isExclusion (table.lookup path)
  excluded : res.stats.excluded =
    es.countP fun e => e.isMergeable && isExclusion (table.lookup e.entry.path)
  services : res.stats.servicesMerged =
    (acceptedPaths table es).countP fun path => mergesRegistrations table path && 2 ≤ contributions es path
  conflicts : res.stats.conflictingDuplicates ≤ res.stats.duplicates

variable {f : Fingerprint} {table : PolicyTable} {es fs : List ScannedEntry} {e : ScannedEntry} {path : String}
  {action : Option Action} {slot : Slot} {r : Resolver} {kind : EntryKind}

section Entries

theorem mem_acceptedPaths : path ∈ acceptedPaths table es ↔
    (∃ action, table.lookup path = .ok action) ∧ group es path ≠ [] := by
  have hgroup : group es path ≠ [] ↔ ∃ e ∈ es, e.isMergeable = true ∧ e.entry.path = path := by
    simp only [← mem_group]
    exact ⟨List.exists_mem_of_ne_nil _, fun ⟨e, he⟩ => List.ne_nil_of_mem he⟩
  have hok : ∀ x : Except Ambiguity (Option Action), x.isOk = true ↔ ∃ action, x = .ok action := by
    intro x
    cases x <;> simp [Except.isOk, Except.toBool]
  rw [acceptedPaths, List.mem_dedup, List.mem_map, hgroup]
  simp only [List.mem_filter, isAccepted, Bool.and_eq_true, hok]
  constructor
  · rintro ⟨e, ⟨he, hmergeable, haction⟩, rfl⟩
    exact ⟨haction, e, he, hmergeable, rfl⟩
  · rintro ⟨haction, e, he, hmergeable, rfl⟩
    exact ⟨e, ⟨he, hmergeable, haction⟩, rfl⟩

theorem length_group (es : List ScannedEntry) (path : String) :
    (group es path).length = contributions es path := by
  rw [group, (byPosition_perm _).length_eq, contributions, List.countP_eq_length_filter]

theorem countP_verdict (es : List ScannedEntry) :
    (es.map (verdict table)).countP (!·.isOk) =
      es.countP fun e => e.isMergeable && !(table.lookup e.entry.path).isOk := by
  rw [List.countP_map]
  refine List.countP_congr fun e _ => ?_
  cases hm : e.isMergeable <;> cases hl : table.lookup e.entry.path <;>
    simp [verdict, hm, hl, Except.isOk, Except.toBool, Except.map]

theorem length_eq_sorts (table : PolicyTable) (es : List ScannedEntry) :
    es.length = es.countP (·.entry.kind == .directory) + es.countP (·.entry.kind == .signature) +
      es.countP (·.isManifest) + es.countP (fun e => e.isMergeable && !(table.lookup e.entry.path).isOk) +
      es.countP (isAccepted table) := by
  induction es with
  | nil => rfl
  | cons e es ih =>
    have hone : (e.entry.kind == .directory).toNat + (e.entry.kind == .signature).toNat +
        e.isManifest.toNat + (e.isMergeable && !(table.lookup e.entry.path).isOk).toNat +
        (isAccepted table e).toNat = 1 := by
      have hman := e.isManifest_iff
      have hmer := e.isMergeable_iff
      cases hk : e.entry.kind <;> cases hl : (table.lookup e.entry.path).isOk <;>
        simp_all [isAccepted]
    have hcons : ∀ p : ScannedEntry → Bool, (e :: es).countP p = es.countP p + (p e).toNat := by
      intro p
      rw [List.countP_cons]
      cases p e <;> rfl
    simp only [hcons, List.length_cons]
    omega

end Entries

section Slots

theorem treatment_eq_registrations_iff : treatment kind action = .join .registrations ↔
    action ≠ some .exclude ∧ (kind = .serviceFile ∨ action = some .mergeRegistrations) := by
  unfold treatment
  split
  · next h => simp [h]
  · next h => split <;> [skip; split] <;> simp_all

theorem mergesRegistrations_iff (hl : table.lookup path = .ok action) :
    mergesRegistrations table path = true ↔ treatment (.ofPath path) action = .join .registrations := by
  rw [mergesRegistrations, hl, treatment_eq_registrations_iff]
  simp

theorem mergesRegistrations_of_isExclusion (h : isExclusion (table.lookup path) = true) :
    mergesRegistrations table path = false := by
  cases hl : table.lookup path with
  | error a => rw [mergesRegistrations, hl]
  | ok action =>
    rw [hl] at h
    have hexclude : action = some .exclude := by
      unfold isExclusion at h
      split at h <;> simp_all
    rw [mergesRegistrations, hl, hexclude]
    rfl

/-- A slot settles as nothing when it is excluded, and as something merged when it has the registrations
of several entries. -/
theorem Slot.Holds.merged_settle (h : Slot.Holds f (.ofPath path) (group es path)
    (treatment (.ofPath path) action) slot) (hl : table.lookup path = .ok action)
    (hne : group es path ≠ []) :
    (Resolver.settle path slot).map Prod.snd =
      if isExclusion (table.lookup path) then none
      else some (mergesRegistrations table path && 2 ≤ contributions es path) := by
  have hmerges := mergesRegistrations_iff hl
  rw [hl, h.isExclusion_eq, ← length_group]
  generalize group es path = g at h hne
  generalize treatment (.ofPath path) action = t at h hmerges
  cases h with
  | excluded => rfl
  | keep hw =>
    have hno : mergesRegistrations table path = false := by simpa using hmerges
    rw [hno]
    rfl
  | joined j =>
    obtain ⟨e, g, rfl⟩ := List.exists_cons_of_ne_nil hne
    cases j with
    | lines =>
      have hno : mergesRegistrations table path = false := by simpa using hmerges
      rw [hno]
      rfl
    | registrations =>
      rw [hmerges.mpr rfl]
      simp [Resolver.settle, Slot.isExcluded, placed, Nat.succ_le_iff]

end Slots

namespace Resolver

variable {res : Resolution} {s : Stats}

theorem Follows.keys_perm (h : Follows f table es r) :
    (r.slots.map Prod.fst).Perm (acceptedPaths table es) := by
  have hnodup : (acceptedPaths table es).Nodup := List.nodup_dedup _
  refine (List.perm_ext_iff_of_nodup h.keys hnodup).mpr fun path => ?_
  rw [mem_acceptedPaths]
  constructor
  · intro hmem
    obtain ⟨⟨path, slot⟩, hslot, rfl⟩ := List.mem_map.mp hmem
    obtain ⟨action, hl, hne, -⟩ := h.held _ _ ((lookup_eq_some_iff_mem h.keys).mpr hslot)
    exact ⟨⟨action, hl⟩, hne⟩
  · rintro ⟨⟨action, hl⟩, hne⟩
    cases hslot : r.slots.lookup path with
    | none => exact absurd (h.missing _ hslot action hl) hne
    | some slot => exact List.mem_map_of_mem ((lookup_eq_some_iff_mem h.keys).mp hslot)

theorem Follows.countP_slots (h : Follows f table es r) (p : String → Bool) {q : String × Slot → Bool}
    (hq : ∀ x ∈ r.slots, q x = p x.1) : r.slots.countP q = (acceptedPaths table es).countP p := by
  rw [← h.keys_perm.countP_eq, List.countP_map]
  refine List.countP_congr fun x hx => ?_
  rw [hq x hx, Function.comp_apply]

theorem Follows.merged_settle (h : Follows f table es r) {x : String × Slot} (hx : x ∈ r.slots) :
    (settle x.1 x.2).map Prod.snd =
      if isExclusion (table.lookup x.1) then none
      else some (mergesRegistrations table x.1 && 2 ≤ contributions es x.1) := by
  obtain ⟨action, hl, hne, hholds⟩ := h.held _ _ ((lookup_eq_some_iff_mem h.keys).mpr hx)
  exact hholds.merged_settle hl hne

theorem Follows.length_settledSlots (h : Follows f table es r) :
    r.settledSlots.length =
      (acceptedPaths table es).countP fun path => !isExclusion (table.lookup path) := by
  rw [settledSlots, List.length_filterMap_eq_countP]
  refine h.countP_slots (fun path => !isExclusion (table.lookup path)) fun x hx => ?_
  have hsome := congrArg Option.isSome (h.merged_settle hx)
  rw [Option.isSome_map] at hsome
  rw [hsome]
  split <;> simp_all

theorem Follows.countP_merged (h : Follows f table es r) :
    r.settledSlots.countP (·.2) = (acceptedPaths table es).countP fun path =>
      mergesRegistrations table path && 2 ≤ contributions es path := by
  rw [settledSlots, List.countP_filterMap]
  refine h.countP_slots (fun path => mergesRegistrations table path && 2 ≤ contributions es path)
    fun x hx => ?_
  rw [h.merged_settle hx]
  split
  · next hexclusion => rw [mergesRegistrations_of_isExclusion hexclusion, Bool.false_and, Option.getD_none]
  · rw [Option.getD_some]

theorem members_finalize_perm (hn : (r.slots.map Prod.fst).Nodup) :
    r.finalize.contents.members.Perm ((r.settledSlots.map Prod.fst).filter (·.payload ≠ [])) := by
  have hpaths : (r.settledSlots.map (·.1.path)).Nodup := hn.sublist (paths_settle_sublist _)
  have hsettled : (r.settledSlots.map Prod.fst).Nodup := by
    refine List.Nodup.of_map Member.path ?_
    rwa [List.map_map]
  refine (List.perm_ext_iff_of_nodup (Contents.inOrder _).nodup (hsettled.filter _)).mpr fun m => ?_
  rw [finalize, ← settledSlots, mem_foldl_addSettled hpaths (by simp)]
  simp

theorem length_members_finalize (hn : (r.slots.map Prod.fst).Nodup) :
    r.finalize.contents.members.length + r.settledSlots.countP (·.1.payload.isEmpty) =
      r.settledSlots.length := by
  have hfull : r.finalize.contents.members.length = r.settledSlots.countP (!·.1.payload.isEmpty) := by
    rw [(members_finalize_perm hn).length_eq, ← List.countP_eq_length_filter, List.countP_map]
    refine List.countP_congr fun p _ => ?_
    simp
  have hall := List.length_eq_countP_add_countP (·.1.payload.isEmpty) (l := r.settledSlots)
  simp only [Bool.not_eq_true, Bool.decide_eq_false] at hall
  omega

theorem conflicts_add (f : Fingerprint) (slot : Slot) (next : Contribution) (stats : Stats) :
    (slot.add f next stats).2.duplicates = stats.duplicates ∧
      (slot.add f next stats).2.conflictingDuplicates ≤ stats.conflictingDuplicates + 1 := by
  cases slot with
  | excluded | joined => exact ⟨rfl, Nat.le_succ _⟩
  | keep kind last winner hash =>
    by_cases hsame : f next.payload = hash
    · simp [Slot.add, hsame]
    · simp [Slot.add, hsame]

theorem conflicts_place (h : r.stats.conflictingDuplicates ≤ r.stats.duplicates) (table : PolicyTable)
    (kind : EntryKind) (path : String) (c : Contribution) :
    (r.place table kind path c).1.stats.conflictingDuplicates ≤
      (r.place table kind path c).1.stats.duplicates := by
  unfold place
  cases hslot : r.slots.lookup path with
  | some slot =>
    obtain ⟨hduplicates, hconflicts⟩ :=
      conflicts_add r.fingerprint slot c { r.stats with duplicates := r.stats.duplicates + 1 }
    dsimp only at hduplicates hconflicts ⊢
    omega
  | none =>
    cases table.lookup path with
    | error a => exact h
    | ok action =>
      dsimp only
      cases Slot.start r.fingerprint kind action c with
      | excluded | keep | joined => exact h

theorem conflicts_ingest (h : r.stats.conflictingDuplicates ≤ r.stats.duplicates) (table : PolicyTable)
    (e : ScannedEntry) :
    (ingest table r e).1.stats.conflictingDuplicates ≤ (ingest table r e).1.stats.duplicates := by
  unfold ingest
  cases e.entry.kind with
  | directory | signature | manifest => exact h
  | classFile | serviceFile | resource => exact conflicts_place (by exact h) table _ _ _

theorem conflicts_ingestAll (h : r.stats.conflictingDuplicates ≤ r.stats.duplicates)
    (table : PolicyTable) (es : List ScannedEntry) :
    (ingestAll table r es).1.stats.conflictingDuplicates ≤ (ingestAll table r es).1.stats.duplicates := by
  induction es generalizing r with
  | nil => exact h
  | cons e es ih => exact ih (conflicts_ingest h table e)

theorem ingest_of_error {a : Ambiguity} (h : (ingest table r e).2 = .error a) :
    (ingest table r e).1 =
      { r with stats := { r.stats with entriesSeen := r.stats.entriesSeen + 1 } } := by
  have hplace : ∀ (s : Resolver) (kind : EntryKind) (c : Contribution),
      (s.place table kind e.entry.path c).2 = .error a → (s.place table kind e.entry.path c).1 = s := by
    intro s kind c hs
    unfold place at hs ⊢
    cases hslot : s.slots.lookup e.entry.path with
    | some slot =>
      rw [hslot] at hs
      cases hs
    | none =>
      cases hl : table.lookup e.entry.path with
      | error b => rfl
      | ok action =>
        rw [hslot, hl] at hs
        cases hs
  unfold ingest at h ⊢
  cases hk : e.entry.kind with
  | directory | signature | manifest =>
    rw [hk] at h
    cases h
  | classFile | serviceFile | resource =>
    rw [hk] at h
    exact hplace _ _ _ h

theorem Follows.length_manifests (h : Follows f table es r) :
    r.manifests.length = es.countP (·.isManifest) := by
  rw [h.manifests, placed, List.length_map, (byPosition_perm _).length_eq, List.countP_eq_length_filter]

theorem Follows.length_slots (h : Follows f table es r) :
    r.slots.length = (acceptedPaths table es).length := by
  rw [← List.length_map Prod.fst, h.keys_perm.length_eq]

/-- What a resolver has counted of the entries and what it then finds in its slots make up a balance. -/
theorem Follows.balanced (h : Follows f table es r) (hcounted : r.counted = tally table es)
    (hconflicts : r.stats.conflictingDuplicates ≤ r.stats.duplicates) :
    Balanced table es (es.map (verdict table)) r.finalize := by
  have hstats : r.finalize.stats =
      { r.stats with
        servicesMerged := r.stats.servicesMerged + r.settledSlots.countP (·.2)
        emptyOmitted := r.stats.emptyOmitted + r.settledSlots.countP (·.1.payload.isEmpty) } :=
    stats_foldl_addSettled _ _
  have hmanifests : r.finalize.manifests.length = es.countP (·.isManifest) := by
    rw [finalize, manifests_foldl_addSettled, List.length_map, h.length_manifests]
  simp only [counted, Stats.withoutConflicts, tally, Stats.mk.injEq] at hcounted
  obtain ⟨hseen, hduplicates, -, hexcluded, hsignatures, hdirectories, hservices, hempty⟩ := hcounted
  have haccepted : r.stats.duplicates + (acceptedPaths table es).length = es.countP (isAccepted table) := by
    rw [← h.length_slots]
    exact hduplicates
  constructor
  case seen => rw [hstats, hseen]
  case entries =>
    have hsorts := length_eq_sorts table es
    rw [hstats, hmanifests, countP_verdict, hdirectories, hsignatures]
    dsimp only
    omega
  case paths =>
    have hmembers := length_members_finalize h.keys
    have hall := List.length_eq_countP_add_countP (fun path => isExclusion (table.lookup path))
      (l := acceptedPaths table es)
    have hsettled := h.length_settledSlots
    simp only [Bool.not_eq_true, Bool.decide_eq_false] at hall
    rw [hstats, hempty]
    dsimp only
    omega
  case excluded => rw [hstats, hexcluded]
  case services => rw [hstats, hservices, Nat.zero_add, h.countP_merged]
  case conflicts => rwa [hstats]

end Resolver

/-- Entries at positions of their own, in whatever order they arrive, are all accounted for, and a failure
changes nothing but the number of entries. -/
theorem stats_balance (h : (es.map (·.position)).Nodup) :
    Balanced table es (Resolver.ingestAll table { fingerprint := f } es).2
        (Resolver.ingestAll table { fingerprint := f } es).1.finalize ∧
      ∀ (r : Resolver) (e : ScannedEntry) (a : Ambiguity), (r.ingest table e).2 = .error a →
        (r.ingest table e).1 =
          { r with stats := { r.stats with entriesSeen := r.stats.entriesSeen + 1 } } := by
  have hnil : Resolver.Follows f table [] { fingerprint := f } := Resolver.follows_nil
  obtain ⟨hfollows, hresults⟩ := hnil.ingestAll h
  have hcounted := hnil.counted_ingestAll rfl h
  have hconflicts : (Resolver.ingestAll table { fingerprint := f } es).1.stats.conflictingDuplicates ≤
      (Resolver.ingestAll table { fingerprint := f } es).1.stats.duplicates :=
    Resolver.conflicts_ingestAll (Nat.le_refl 0) table es
  refine ⟨?_, fun r e a => Resolver.ingest_of_error⟩
  rw [hresults]
  exact hfollows.balanced hcounted hconflicts

def policyAt (path : String) (action : Action) : Compiled :=
  ⟨⟨path, path.toList.map .literal⟩, action, 0, path.length⟩

def surveyPolicies : PolicyTable :=
  ⟨[policyAt "old.txt" .exclude, policyAt "own.txt" .keepFirst, policyAt "own.txt" .keepLast]⟩

def surveyEntry (rank seq : Nat) (path : String) (payload : Bytes) : ScannedEntry :=
  ⟨⟨rank, seq⟩, { name := "lib" }, { path, payload }⟩

def survey : List ScannedEntry :=
  [surveyEntry 1 0 "old.txt" [1], surveyEntry 1 1 "new.txt" [2], surveyEntry 1 2 "own.txt" [3],
    surveyEntry 1 3 "META-INF/services/p" [66, 10], surveyEntry 1 4 "META-INF/A.SF" [4],
    surveyEntry 0 0 "dir/" [], surveyEntry 0 1 "META-INF/MANIFEST.MF" [5], surveyEntry 0 2 "old.txt" [6],
    surveyEntry 0 3 "new.txt" [7], surveyEntry 0 4 "META-INF/services/p" [65, 10],
    surveyEntry 0 5 "none.txt" []]

theorem survey_balance :
    (survey.map (·.position)).Nodup ∧
      (Resolver.ingestAll surveyPolicies {} survey).1.finalize.stats =
        { entriesSeen := 11, duplicates := 3, conflictingDuplicates := 1, excluded := 2,
          signaturesDropped := 1, directoriesDropped := 1, servicesMerged := 1, emptyOmitted := 1 } ∧
      acceptedPaths surveyPolicies survey = ["old.txt", "new.txt", "META-INF/services/p", "none.txt"] ∧
      Balanced surveyPolicies survey (Resolver.ingestAll surveyPolicies {} survey).2
        (Resolver.ingestAll surveyPolicies {} survey).1.finalize := by
  have hdistinct : (survey.map (·.position)).Nodup := by decide
  exact ⟨hdistinct, by decide +kernel, by decide +kernel, (stats_balance hdistinct).1⟩

end FatJar.Merge
