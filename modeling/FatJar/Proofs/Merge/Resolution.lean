import FatJar.Proofs.Lists
import FatJar.Proofs.Merge.Arrival
import Mathlib.Data.List.Dedup

namespace FatJar.Merge

open Batch

variable {table : PolicyTable} {es : List ScannedEntry} {m x : Member} {path : String}

namespace Resolver

theorem path_of_settle {slot : Slot} {merged : Bool} (h : settle path slot = some (m, merged)) :
    m.path = path := by
  cases slot with
  | excluded => simp [settle] at h
  | keep kind last winner =>
    simp only [settle, Option.some.injEq, Prod.mk.injEq] at h
    rw [← h.1]
  | joined kind joining parts =>
    obtain _ | ⟨p, ps⟩ := parts
    · simp [settle] at h
    · simp only [settle, Option.some.injEq, Prod.mk.injEq] at h
      rw [← h.1]

theorem mem_addSettled {res : Resolution} {merged : Bool}
    (hfree : ∀ y ∈ res.contents.members, y.path ≠ m.path) :
    x ∈ (addSettled res m merged).contents.members ↔
      x ∈ res.contents.members ∨ (x = m ∧ m.payload ≠ []) := by
  unfold addSettled
  by_cases hp : m.payload = []
  · simp [hp]
  · have hempty : ¬ m.payload.isEmpty = true := by simpa using hp
    rw [if_neg hempty]
    cases hi : res.contents.insert? m with
    | none =>
      obtain ⟨y, hy⟩ := Contents.insert?_eq_none_iff.mp hi
      obtain ⟨hmem, hpath⟩ := Contents.get?_eq_some_iff.mp hy
      exact absurd hpath (hfree y hmem)
    | some contents =>
      rw [Contents.mem_of_insert? hi, or_comm]
      simp [hp]

theorem manifests_addSettled (res : Resolution) (m : Member) (merged : Bool) :
    (addSettled res m merged).manifests = res.manifests := by
  unfold addSettled
  dsimp only
  split
  · rfl
  · split <;> rfl

theorem mem_foldl_addSettled {ms : List (Member × Bool)} {res : Resolution}
    (hn : (ms.map (·.1.path)).Nodup)
    (hfree : ∀ p ∈ ms, ∀ y ∈ res.contents.members, y.path ≠ p.1.path) :
    x ∈ (ms.foldl (fun res p => addSettled res p.1 p.2) res).contents.members ↔
      x ∈ res.contents.members ∨ (x ∈ ms.map Prod.fst ∧ x.payload ≠ []) := by
  induction ms generalizing res with
  | nil => simp
  | cons p ms ih =>
    obtain ⟨hp, hms⟩ := List.nodup_cons.mp hn
    have hmem : ∀ y, y ∈ (addSettled res p.1 p.2).contents.members ↔
        y ∈ res.contents.members ∨ (y = p.1 ∧ p.1.payload ≠ []) :=
      fun y => mem_addSettled (hfree p List.mem_cons_self)
    have hrest : ∀ q ∈ ms, ∀ y ∈ (addSettled res p.1 p.2).contents.members, y.path ≠ q.1.path := by
      intro q hq y hy
      obtain hy | ⟨rfl, _⟩ := (hmem y).mp hy
      · exact hfree q (List.mem_cons_of_mem _ hq) y hy
      · intro he
        exact hp (List.mem_map.mpr ⟨q, hq, he.symm⟩)
    rw [List.foldl_cons, ih hms hrest, hmem, List.map_cons, List.mem_cons]
    constructor
    · rintro ((h | ⟨rfl, h⟩) | h)
      · exact .inl h
      · exact .inr ⟨.inl rfl, h⟩
      · exact .inr ⟨.inr h.1, h.2⟩
    · rintro (h | ⟨rfl | h, hx⟩)
      · exact .inl (.inl h)
      · exact .inl (.inr ⟨rfl, hx⟩)
      · exact .inr ⟨h, hx⟩

theorem manifests_foldl_addSettled (ms : List (Member × Bool)) (res : Resolution) :
    (ms.foldl (fun res p => addSettled res p.1 p.2) res).manifests = res.manifests := by
  induction ms generalizing res with
  | nil => rfl
  | cons p ms ih => rw [List.foldl_cons, ih, manifests_addSettled]

variable {r : Resolver}

theorem paths_settle_sublist (slots : List (String × Slot)) :
    ((slots.filterMap fun p => settle p.1 p.2).map (·.1.path)).Sublist (slots.map Prod.fst) := by
  induction slots with
  | nil => exact List.Sublist.refl _
  | cons p slots ih =>
    rw [List.filterMap_cons]
    split
    · exact ih.cons _
    · next s hs =>
      rw [List.map_cons, List.map_cons, path_of_settle hs]
      exact ih.cons_cons _

theorem mem_finalize (hn : (r.slots.map Prod.fst).Nodup) :
    x ∈ r.finalize.contents.members ↔
      (∃ slot, r.slots.lookup x.path = some slot ∧
        (settle x.path slot).map Prod.fst = some x) ∧ x.payload ≠ [] := by
  unfold finalize
  rw [mem_foldl_addSettled (hn.sublist (paths_settle_sublist _)) (by simp)]
  simp only [Contents.members_empty, List.not_mem_nil, false_or, List.mem_map, List.mem_filterMap,
    Prod.exists, exists_and_right, exists_eq_right]
  refine and_congr_left fun _ => ?_
  constructor
  · rintro ⟨merged, path, slot, hmem, hsettle⟩
    obtain rfl := path_of_settle hsettle
    exact ⟨slot, (lookup_eq_some_iff_mem hn).mpr hmem, by simp [hsettle]⟩
  · rintro ⟨slot, hlookup, hsettle⟩
    obtain ⟨⟨y, merged⟩, hs, rfl⟩ := Option.map_eq_some_iff.mp hsettle
    exact ⟨merged, _, slot, (lookup_eq_some_iff_mem hn).mp hlookup, hs⟩

end Resolver

namespace Batch

theorem settled_nil (t : Treatment) : settled [] t = none := by
  cases t with
  | drop => rfl
  | keep last => cases last <;> rfl
  | join j => cases j <;> rfl

theorem path_of_member? (h : member? table es path = some m) : m.path = path := by
  unfold member? at h
  split at h
  · simp at h
  · obtain ⟨s, _, rfl⟩ := Option.map_eq_some_iff.mp h
    rfl

theorem mem_paths_of_member? (h : member? table es path = some m) : path ∈ paths es := by
  have hne : group es path ≠ [] := by
    intro hg
    unfold member? at h
    split at h
    · simp at h
    · simp [hg, settled_nil] at h
  obtain ⟨e, he⟩ := List.exists_mem_of_ne_nil _ hne
  obtain ⟨hes, hm, rfl⟩ := mem_group.mp he
  rw [paths, List.mem_mergeSort, List.mem_dedup]
  exact List.mem_map_of_mem (List.mem_filter.mpr ⟨hes, hm⟩)

theorem mem_members : m ∈ members table es ↔ member? table es m.path = some m := by
  rw [members, List.mem_filterMap]
  constructor
  · rintro ⟨path, _, h⟩
    exact path_of_member? h ▸ h
  · intro h
    exact ⟨m.path, mem_paths_of_member? h, h⟩

theorem paths_inOrder (es : List ScannedEntry) : (paths es).Pairwise fun a b => utf8 a < utf8 b := by
  have hle : (paths es).Pairwise fun a b => decide (utf8 a ≤ utf8 b) = true := by
    apply List.pairwise_mergeSort
    · intro a b c hab hbc
      rw [decide_eq_true_eq] at hab hbc ⊢
      exact Std.le_trans hab hbc
    · intro a b
      simpa using Std.le_total (a := utf8 a) (b := utf8 b)
  have hne : (paths es).Pairwise fun a b => a ≠ b :=
    (List.mergeSort_perm _ _).nodup_iff.mpr (List.nodup_dedup _)
  refine hle.imp₂ ?_ hne
  intro a b hab hne
  exact Std.lt_of_le_of_ne (of_decide_eq_true hab) fun he => hne (utf8_injective he)

theorem members_inOrder (table : PolicyTable) (es : List ScannedEntry) :
    InOrder (members table es) := by
  refine List.pairwise_filterMap.mpr ((paths_inOrder es).imp ?_)
  intro a b hab m hm n hn
  have hma := path_of_member? hm
  have hnb := path_of_member? hn
  rw [Member.key, Member.key, hma, hnb]
  exact hab

end Batch

theorem Resolver.Follows.mem_finalize {f : Fingerprint} {r : Resolver} (h : Follows f table es r) :
    x ∈ r.finalize.contents.members ↔ member? table es x.path = some x := by
  rw [Resolver.mem_finalize h.keys]
  unfold member?
  cases hslot : r.slots.lookup x.path with
  | some slot =>
    obtain ⟨action, hl, _, hholds⟩ := h.held _ _ hslot
    rw [hl]
    dsimp only
    rw [map_filter_eq_some_iff (q := fun m => m.payload ≠ []) (by simp), ← hholds.settle]
    simp
  | none =>
    cases hl : table.lookup x.path with
    | error a => simp
    | ok action => simp [h.missing _ hslot action hl, settled_nil]

variable {f : Fingerprint} {arrivals : List ScannedEntry}

/-- Entries at positions of their own, in whatever order they arrive, come to what all of them come to
at once. -/
theorem resolution_eq_batch (hdistinct : (es.map (·.position)).Nodup) (harrival : arrivals.Perm es) :
    (Resolver.ingestAll table { fingerprint := f } arrivals).2 = arrivals.map (verdict table) ∧
      (Resolver.ingestAll table { fingerprint := f } arrivals).1.finalize.contents.members = members table es ∧
      (Resolver.ingestAll table { fingerprint := f } arrivals).1.finalize.manifests = manifests es := by
  have hn : (arrivals.map (·.position)).Nodup := (harrival.map _).nodup_iff.mpr hdistinct
  have hnil : Resolver.Follows f table [] { fingerprint := f } := Resolver.follows_nil
  obtain ⟨hfollows, hverdicts⟩ := hnil.ingestAll hn
  refine ⟨hverdicts, ?_, ?_⟩
  · have hgroup : member? table arrivals = member? table es := by
      funext path
      unfold member?
      rw [group_congr hn harrival]
    refine InOrder.eq_of_mem_iff (Contents.inOrder _) (members_inOrder table es) fun x => ?_
    rw [hfollows.mem_finalize, mem_members, ← hgroup]
    rfl
  · have hsame := byPosition_congr (hn.sublist (List.filter_sublist.map _))
      (harrival.filter (·.isManifest))
    unfold Resolver.finalize
    rw [Resolver.manifests_foldl_addSettled, hfollows.manifests, manifests, ← hsame]
    simp [placed]

def keepsLastText : PolicyTable :=
  ⟨[⟨⟨"a.txt", "a.txt".toList.map .literal⟩, .keepLast, 0, 5⟩]⟩

def earlyText : ScannedEntry :=
  ⟨⟨0, 0⟩, { name := "early" }, { path := "a.txt", payload := [1] }⟩

def lateText : ScannedEntry :=
  ⟨⟨1, 0⟩, { name := "late" }, { path := "a.txt", payload := [2] }⟩

theorem late_text_kept :
    ([earlyText, lateText].map (·.position)).Nodup ∧ [lateText, earlyText].Perm [earlyText, lateText] ∧
      members keepsLastText [earlyText, lateText] =
        [⟨"a.txt", .resource, [2], { name := "late" }⟩] := by
  have hdistinct : ([earlyText, lateText].map (·.position)).Nodup := by decide
  have harrival : [lateText, earlyText].Perm [earlyText, lateText] := List.Perm.swap _ _ _
  refine ⟨hdistinct, harrival, ?_⟩
  have hmembers : (Resolver.ingestAll keepsLastText {} [lateText, earlyText]).1.finalize.contents.members =
      members keepsLastText [earlyText, lateText] :=
    (resolution_eq_batch hdistinct harrival).2.1
  rw [← hmembers]
  decide +kernel

end FatJar.Merge
