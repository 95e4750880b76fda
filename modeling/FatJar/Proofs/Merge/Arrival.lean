import FatJar.Proofs.Entry.Contents
import FatJar.Proofs.Merge.Slot

namespace FatJar.Merge

open Batch

variable {f : Fingerprint} {table : PolicyTable} {es fs : List ScannedEntry} {e : ScannedEntry} {path : String}

theorem group_append_of_other (h : ¬ (e.isMergeable = true ∧ e.entry.path = path)) :
    group (es ++ [e]) path = group es path := by
  have hf : (e.isMergeable && e.entry.path == path) = false := by
    simpa using h
  simp [group, hf]

theorem group_append_of_mergeable (h : e.isMergeable = true) :
    group (es ++ [e]) e.entry.path =
      byPosition (es.filter (fun x => x.isMergeable && x.entry.path == e.entry.path) ++ [e]) := by
  simp [group, h]

theorem nodup_filter_append (p : ScannedEntry → Bool) (h : ((es ++ [e]).map (·.position)).Nodup) :
    ((es.filter p ++ [e]).map (·.position)).Nodup :=
  h.sublist ((List.filter_sublist.append_right [e]).map _)

theorem group_congr (h : (es.map (·.position)).Nodup) (hp : es.Perm fs) :
    group es path = group fs path :=
  byPosition_congr (h.sublist (List.filter_sublist.map _)) (hp.filter _)

/-- What a resolver has to be after the entries `es`, whatever the order in which they came. -/
structure Resolver.Follows (f : Fingerprint) (table : PolicyTable) (es : List ScannedEntry)
    (r : Resolver) : Prop where
  fingerprint : r.fingerprint = f
  keys : (r.slots.map Prod.fst).Nodup
  held : ∀ path slot, r.slots.lookup path = some slot →
    ∃ action, table.lookup path = .ok action ∧ group es path ≠ [] ∧
      Slot.Holds f (.ofPath path) (group es path) (treatment (.ofPath path) action) slot
  missing : ∀ path, r.slots.lookup path = none →
    ∀ action, table.lookup path = .ok action → group es path = []
  manifests : r.manifests = placed (·.entry.payload) (byPosition (es.filter (·.isManifest)))

namespace Resolver

variable {r s : Resolver}

theorem follows_nil : Follows f table [] { fingerprint := f } where
  fingerprint := rfl
  keys := List.nodup_nil
  held := by simp
  missing := by simp [group, byPosition]
  manifests := by simp [placed, byPosition]

theorem Follows.of_stats (h : Follows f table es r) (stats : Stats) :
    Follows f table es { r with stats } :=
  ⟨h.fingerprint, h.keys, h.held, h.missing, h.manifests⟩

theorem Follows.aside (h : Follows f table es r) (hm : e.isMergeable = false)
    (hprint : s.fingerprint = r.fingerprint) (hslots : s.slots = r.slots)
    (hman : s.manifests =
      placed (·.entry.payload) (byPosition ((es ++ [e]).filter (·.isManifest)))) :
    Follows f table (es ++ [e]) s := by
  have hg : ∀ path, group (es ++ [e]) path = group es path :=
    fun path => group_append_of_other (by simp [hm])
  refine ⟨hprint.trans h.fingerprint, hslots ▸ h.keys, fun path slot hl => ?_, fun path hl => ?_, hman⟩
  · rw [hg]
    exact h.held path slot (hslots ▸ hl)
  · rw [hg]
    exact h.missing path (hslots ▸ hl)

theorem Follows.skip (h : Follows f table es r) (hm : e.isMergeable = false)
    (hf : e.isManifest = false) (hprint : s.fingerprint = r.fingerprint)
    (hslots : s.slots = r.slots) (hman : s.manifests = r.manifests) :
    Follows f table (es ++ [e]) s := by
  refine h.aside hm hprint hslots ?_
  rw [hman, h.manifests, List.filter_append]
  simp [hf]

theorem Follows.manifest (h : Follows f table es r) (hn : ((es ++ [e]).map (·.position)).Nodup)
    (hm : e.isMergeable = false) (hf : e.isManifest = true)
    (hprint : s.fingerprint = r.fingerprint) (hslots : s.slots = r.slots)
    (hman : s.manifests = putAt e.position e.entry.payload r.manifests) :
    Follows f table (es ++ [e]) s := by
  refine h.aside hm hprint hslots ?_
  have hput := placed_byPosition_append (·.entry.payload) (nodup_filter_append (·.isManifest) hn)
  rw [hman, h.manifests, ← hput, List.filter_append]
  simp [hf]

theorem Follows.put (h : Follows f table es r) (hm : e.isMergeable = true)
    (hf : e.isManifest = false) {slot : Slot} {action : Option Action}
    (hl : table.lookup e.entry.path = .ok action)
    (hslot : Slot.Holds f (.ofPath e.entry.path) (group (es ++ [e]) e.entry.path)
      (treatment (.ofPath e.entry.path) action) slot)
    (hprint : s.fingerprint = r.fingerprint)
    (hslots : s.slots = putPair e.entry.path slot r.slots) (hman : s.manifests = r.manifests) :
    Follows f table (es ++ [e]) s := by
  have hne : group (es ++ [e]) e.entry.path ≠ [] := by
    apply List.ne_nil_of_mem
    exact mem_group.mpr ⟨by simp, hm, rfl⟩
  have hg : ∀ path, path ≠ e.entry.path → group (es ++ [e]) path = group es path :=
    fun path hp => group_append_of_other fun hc => hp hc.2.symm
  constructor
  · exact hprint.trans h.fingerprint
  · exact hslots ▸ nodup_putPair _ _ h.keys
  · intro path found hfound
    rw [hslots, lookup_putPair] at hfound
    split at hfound
    · next hp =>
      subst hp
      obtain rfl := Option.some.inj hfound
      exact ⟨action, hl, hne, hslot⟩
    · next hp =>
      rw [hg path hp]
      exact h.held path found hfound
  · intro path hnone
    rw [hslots, lookup_putPair] at hnone
    split at hnone
    · simp at hnone
    · next hp =>
      rw [hg path hp]
      exact h.missing path hnone
  · rw [hman, h.manifests, List.filter_append]
    simp [hf]

theorem Follows.place (h : Follows f table es r) (hn : ((es ++ [e]).map (·.position)).Nodup)
    (hm : e.isMergeable = true) (hf : e.isManifest = false) :
    Follows f table (es ++ [e])
        (r.place table (.ofPath e.entry.path) e.entry.path (contribution e)).1 ∧
      (r.place table (.ofPath e.entry.path) e.entry.path (contribution e)).2 =
        (table.lookup e.entry.path).map fun _ => () := by
  have hn' := nodup_filter_append (fun x => x.isMergeable && x.entry.path == e.entry.path) hn
  unfold Resolver.place
  cases hslot : r.slots.lookup e.entry.path with
  | some slot =>
    obtain ⟨action, hl, hne, hholds⟩ := h.held _ _ hslot
    refine ⟨h.put hm hf hl ?_ rfl rfl rfl, by rw [hl]; rfl⟩
    rw [group_append_of_mergeable hm, h.fingerprint]
    exact Slot.Holds.add hholds hn' _
  | none =>
    cases hl : table.lookup e.entry.path with
    | error a =>
      refine ⟨⟨h.fingerprint, h.keys, ?_, ?_, ?_⟩, rfl⟩
      · intro path slot hfound
        have hp : path ≠ e.entry.path := fun hp => by simp [hp, hslot] at hfound
        rw [group_append_of_other fun hc => hp hc.2.symm]
        exact h.held path slot hfound
      · intro path hnone action hok
        have hp : path ≠ e.entry.path := fun hp => by simp [hp, hl] at hok
        rw [group_append_of_other fun hc => hp hc.2.symm]
        exact h.missing path hnone action hok
      · rw [h.manifests, List.filter_append]
        simp [hf]
    | ok action =>
      refine ⟨h.put hm hf hl ?_ rfl rfl rfl, rfl⟩
      have hempty : es.filter (fun x => x.isMergeable && x.entry.path == e.entry.path) = [] := by
        have hp := (byPosition_perm
          (es.filter fun x => x.isMergeable && x.entry.path == e.entry.path)).symm
        rw [show byPosition _ = [] from h.missing _ hslot action hl] at hp
        exact hp.eq_nil
      have hsole : byPosition ([] ++ [e]) = [e] := List.mergeSort_singleton e
      rw [group_append_of_mergeable hm, hempty, hsole, h.fingerprint]
      exact Slot.holds_start _ _ _

theorem Follows.ingest (h : Follows f table es r) (hn : ((es ++ [e]).map (·.position)).Nodup) :
    Follows f table (es ++ [e]) (ingest table r e).1 ∧ (ingest table r e).2 = verdict table e := by
  have hc := h.of_stats { r.stats with entriesSeen := r.stats.entriesSeen + 1 }
  have hman := e.isManifest_iff
  have hmer := e.isMergeable_iff
  unfold Resolver.ingest verdict
  cases hk : e.entry.kind with
  | directory | signature =>
    have hm : e.isMergeable = false := by simpa [hk] using hmer
    have hf : e.isManifest = false := by simpa [hk] using hman
    rw [hm]
    exact ⟨h.skip hm hf rfl rfl rfl, rfl⟩
  | manifest =>
    have hm : e.isMergeable = false := by simpa [hk] using hmer
    have hf : e.isManifest = true := by simpa [hk] using hman
    rw [hm]
    exact ⟨h.manifest hn hm hf rfl rfl rfl, rfl⟩
  | classFile | serviceFile | resource =>
    have hm : e.isMergeable = true := by simpa [hk] using hmer
    have hf : e.isManifest = false := by simpa [hk] using hman
    have hplace := hc.place hn hm hf
    rw [← ScannedEntry.kind_of_isMergeable hm, hk] at hplace
    rw [hm]
    exact hplace

theorem Follows.ingestAll (h : Follows f table es r) (hn : ((es ++ fs).map (·.position)).Nodup) :
    Follows f table (es ++ fs) (ingestAll table r fs).1 ∧
      (ingestAll table r fs).2 = fs.map (verdict table) := by
  induction fs generalizing es r with
  | nil =>
    rw [List.append_nil]
    exact ⟨h, rfl⟩
  | cons e fs ih =>
    have hassoc : es ++ e :: fs = (es ++ [e]) ++ fs := by simp
    rw [hassoc] at hn ⊢
    have hfirst : ((es ++ [e]).map (·.position)).Nodup :=
      hn.sublist ((List.sublist_append_left _ _).map _)
    obtain ⟨hstep, hresult⟩ := h.ingest hfirst
    obtain ⟨hall, hresults⟩ := ih hstep hn
    exact ⟨hall, by simp only [Resolver.ingestAll, hresult, hresults, List.map_cons]⟩

end Resolver

end FatJar.Merge
