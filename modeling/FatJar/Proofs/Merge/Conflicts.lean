import FatJar.Proofs.Merge.Tallies

namespace FatJar.Merge

open Batch

/-- Whether the last or the first entry of a group is kept, if one of them is. -/
def Batch.Treatment.keeps? : Treatment → Option Bool
  | keep last => some last
  | drop | join _ => none

def Slot.hash? : Slot → Option UInt64
  | keep _ _ _ hash => some hash
  | excluded | joined .. => none

def keeps? (table : PolicyTable) (path : String) : Option Bool :=
  match table.lookup path with
  | .error _ => none
  | .ok action => (treatment (.ofPath path) action).keeps?

/-- The entry that is kept at a path when the entries `es` have arrived. -/
def kept? (table : PolicyTable) (es : List ScannedEntry) (path : String) : Option ScannedEntry :=
  (keeps? table path).bind fun last => winner? last (group es path)

/-- Whether an entry that arrives behind `es` has another fingerprint than what is kept at its path then. -/
def differs (f : Fingerprint) (table : PolicyTable) (es : List ScannedEntry) (e : ScannedEntry) : Bool :=
  e.isMergeable && (kept? table es e.entry.path).any fun w => f w.entry.payload != f e.entry.payload

/-- The number of entries that differ from what is kept at their path when they arrive behind `seen`. -/
def conflictsFrom (f : Fingerprint) (table : PolicyTable) (seen : List ScannedEntry) :
    List ScannedEntry → Nat
  | [] => 0
  | e :: es => (differs f table seen e).toNat + conflictsFrom f table (seen ++ [e]) es

/-- The count of a resolver that gets entries in a certain order. -/
def conflicts (f : Fingerprint) (table : PolicyTable) (arrivals : List ScannedEntry) : Nat :=
  (Resolver.ingestAll table { fingerprint := f } arrivals).1.finalize.stats.conflictingDuplicates

/-- Whether two entries are in question for one path and `a` is kept there rather than `b`. -/
def keptOver (table : PolicyTable) (a b : ScannedEntry) : Bool :=
  a.isMergeable && b.isMergeable && a.entry.path == b.entry.path &&
    (keeps? table a.entry.path).any fun last => Slot.givesWay last (contribution b) (contribution a)

/-- Where two entries at a path differ, no third over which both are kept is like one of them. -/
def CountsAlike (f : Fingerprint) (table : PolicyTable) (es : List ScannedEntry) : Prop :=
  ∀ a ∈ es, ∀ b ∈ es, ∀ c ∈ es, keptOver table a b = true → keptOver table b c = true →
    f a.entry.payload ≠ f b.entry.payload →
      f c.entry.payload ≠ f a.entry.payload ∧ f c.entry.payload ≠ f b.entry.payload

instance (f : Fingerprint) (table : PolicyTable) (es : List ScannedEntry) :
    Decidable (CountsAlike f table es) :=
  inferInstanceAs (Decidable (∀ _ ∈ es, ∀ _ ∈ es, ∀ _ ∈ es, _))

variable {f : Fingerprint} {table : PolicyTable} {es fs seen seen' : List ScannedEntry}
  {e w x y a b c : ScannedEntry} {path : String} {last : Bool} {r : Resolver}

theorem CountsAlike.perm (h : CountsAlike f table es) (hp : es.Perm fs) : CountsAlike f table fs :=
  fun a ha b hb c hc => h a (hp.mem_iff.mpr ha) b (hp.mem_iff.mpr hb) c (hp.mem_iff.mpr hc)

section Counting

theorem kept?_of_keeps? (h : keeps? table path = some last) :
    kept? table es path = winner? last (group es path) := by
  rw [kept?, h, Option.bind_some]

theorem kept?_of_group_nil (h : group es path = []) : kept? table es path = none := by
  have hnone : ∀ last, winner? last (group es path) = none := by
    rw [h]
    decide
  rw [kept?]
  simp [hnone]

theorem kept?_nil (table : PolicyTable) (path : String) : kept? table [] path = none :=
  kept?_of_group_nil (by simp [group, byPosition])

theorem Slot.Holds.hash?_eq {kind : EntryKind} {t : Treatment} {slot : Slot} {g : List ScannedEntry}
    (h : Slot.Holds f kind g t slot) :
    slot.hash? = (t.keeps?.bind (winner? · g)).map fun e => f e.entry.payload := by
  cases h with
  | excluded | joined => rfl
  | keep hw => simp [Slot.hash?, Treatment.keeps?, hw, contribution]

theorem conflicting_add (f : Fingerprint) (slot : Slot) (next : Contribution) (stats : Stats) :
    (slot.add f next stats).2.conflictingDuplicates =
      stats.conflictingDuplicates + (slot.hash?.any (· != f next.payload)).toNat := by
  cases slot with
  | excluded | joined => rfl
  | keep kind last winner hash =>
    by_cases hsame : hash = f next.payload
    · simp [Slot.add, Slot.hash?, hsame]
    · have hdiffers : (hash != f next.payload) = true := bne_iff_ne.mpr hsame
      simp [Slot.add, Slot.hash?, Ne.symm hsame, hdiffers]

namespace Resolver

theorem Follows.conflicting_place (h : Follows f table es r) (path : String) (e : ScannedEntry) :
    (r.place table (.ofPath path) path (contribution e)).1.stats.conflictingDuplicates =
      r.stats.conflictingDuplicates +
        ((kept? table es path).any fun w => f w.entry.payload != f e.entry.payload).toNat := by
  unfold Resolver.place
  cases hslot : r.slots.lookup path with
  | some slot =>
    obtain ⟨action, hl, -, hholds⟩ := h.held _ _ hslot
    dsimp only
    rw [conflicting_add, h.fingerprint, hholds.hash?_eq, Option.any_map, kept?, keeps?, hl]
    rfl
  | none =>
    cases hl : table.lookup path with
    | error a =>
      rw [kept?, keeps?, hl]
      rfl
    | ok action =>
      rw [kept?_of_group_nil (h.missing _ hslot action hl)]
      dsimp only
      cases Slot.start r.fingerprint (.ofPath path) action (contribution e) <;> rfl

theorem Follows.conflicting_ingest (h : Follows f table es r) (e : ScannedEntry) :
    (Resolver.ingest table r e).1.stats.conflictingDuplicates =
      r.stats.conflictingDuplicates + (differs f table es e).toNat := by
  have hseen := h.of_stats { r.stats with entriesSeen := r.stats.entriesSeen + 1 }
  have hmer := e.isMergeable_iff
  unfold Resolver.ingest differs
  cases hk : e.entry.kind with
  | directory | signature | manifest =>
    have hm : e.isMergeable = false := by simpa [hk] using hmer
    rw [hm]
    rfl
  | classFile | serviceFile | resource =>
    have hm : e.isMergeable = true := by simpa [hk] using hmer
    have hplace := hseen.conflicting_place e.entry.path e
    rw [← ScannedEntry.kind_of_isMergeable hm, hk] at hplace
    rw [hm, Bool.true_and]
    exact hplace

theorem Follows.conflicting_ingestAll (h : Follows f table es r) (hn : ((es ++ fs).map (·.position)).Nodup) :
    (Resolver.ingestAll table r fs).1.stats.conflictingDuplicates =
      r.stats.conflictingDuplicates + conflictsFrom f table es fs := by
  induction fs generalizing es r with
  | nil => rfl
  | cons e fs ih =>
    rw [List.append_cons] at hn
    have hfirst : ((es ++ [e]).map (·.position)).Nodup :=
      hn.sublist ((List.sublist_append_left _ _).map _)
    have hlater := ih (h.ingest hfirst).1 hn
    rw [h.conflicting_ingest, Nat.add_assoc] at hlater
    exact hlater

end Resolver

/-- A resolver counts the entries that differ from what is kept at their path when they arrive. -/
theorem conflicts_eq (h : (es.map (·.position)).Nodup) :
    conflicts f table es = conflictsFrom f table [] es := by
  have hnil : Resolver.Follows f table [] { fingerprint := f } := Resolver.follows_nil
  rw [conflicts, Resolver.finalize, Resolver.stats_foldl_addSettled]
  exact (hnil.conflicting_ingestAll h).trans (Nat.zero_add _)

end Counting

section Order

theorem differs_congr (hn : (seen.map (·.position)).Nodup) (hp : seen.Perm seen') (e : ScannedEntry) :
    differs f table seen e = differs f table seen' e := by
  rw [differs, differs, kept?, kept?, group_congr hn hp]

theorem conflictsFrom_congr (hn : ((seen ++ es).map (·.position)).Nodup) (hp : seen.Perm seen') :
    conflictsFrom f table seen es = conflictsFrom f table seen' es := by
  induction es generalizing seen seen' with
  | nil => rfl
  | cons e es ih =>
    have hseen : (seen.map (·.position)).Nodup := hn.sublist ((List.sublist_append_left _ _).map _)
    rw [List.append_cons] at hn
    rw [conflictsFrom, conflictsFrom, differs_congr hseen hp, ih hn (hp.append_right [e])]

theorem conflictsFrom_append (table : PolicyTable) (seen es fs : List ScannedEntry) :
    conflictsFrom f table seen (es ++ fs) =
      conflictsFrom f table seen es + conflictsFrom f table (seen ++ es) fs := by
  induction es generalizing seen with
  | nil => rw [conflictsFrom, List.nil_append, List.append_nil, Nat.zero_add]
  | cons e es ih => rw [List.cons_append, conflictsFrom, conflictsFrom, ih, ← List.append_cons, Nat.add_assoc]

theorem differs_append_of_other (h : ¬ (x.isMergeable = true ∧ x.entry.path = y.entry.path)) :
    differs f table (seen ++ [x]) y = differs f table seen y := by
  rw [differs, differs, kept?, kept?, group_append_of_other h]

theorem kept?_append (seen : List ScannedEntry) (hn : ((seen ++ [x]).map (·.position)).Nodup)
    (hm : x.isMergeable = true) (hl : keeps? table x.entry.path = some last) :
    kept? table (seen ++ [x]) x.entry.path =
      some (match kept? table seen x.entry.path with
        | none => x
        | some w => if Slot.givesWay last (contribution w) (contribution x) then x else w) := by
  rw [kept?_of_keeps? hl, kept?_of_keeps? hl, group_append_of_mergeable hm]
  have hfilter := nodup_filter_append (fun e => e.isMergeable && e.entry.path == x.entry.path) hn
  cases hw : winner? last (group seen x.entry.path) with
  | some w => exact winner?_append hfilter hw
  | none =>
    have hempty : seen.filter (fun e => e.isMergeable && e.entry.path == x.entry.path) = [] := by
      have hp := (byPosition_perm
        (seen.filter fun e => e.isMergeable && e.entry.path == x.entry.path)).symm
      rw [show byPosition _ = [] by cases last <;> simpa [winner?, group] using hw] at hp
      exact hp.eq_nil
    have hsole : byPosition ([] ++ [x]) = [x] := List.mergeSort_singleton x
    rw [hempty, hsole]
    cases last <;> rfl

theorem mem_of_kept? (h : kept? table seen path = some w) :
    w ∈ seen ∧ w.isMergeable = true ∧ w.entry.path = path := by
  obtain ⟨last, -, hw⟩ := Option.bind_eq_some_iff.mp h
  refine mem_group.mp ?_
  cases last with
  | true => exact List.mem_of_getLast? hw
  | false => exact List.mem_of_head? hw

theorem givesWay_or_givesWay (last : Bool) {p q : Contribution} (h : p.position ≠ q.position) :
    Slot.givesWay last p q = true ∨ Slot.givesWay last q p = true := by
  cases last with
  | true => exact Position.before_or_before h
  | false => exact (Position.before_or_before h).symm

theorem keptOver_iff : keptOver table a b = true ↔
    a.isMergeable = true ∧ b.isMergeable = true ∧ a.entry.path = b.entry.path ∧
      ∃ last, keeps? table a.entry.path = some last ∧
        Slot.givesWay last (contribution b) (contribution a) = true := by
  rw [keptOver, Bool.and_eq_true, Bool.and_eq_true, Bool.and_eq_true, Option.any_eq_true, beq_iff_eq,
    and_assoc, and_assoc]

theorem keptOver_of_givesWay (ha : a.isMergeable = true) (hb : b.isMergeable = true)
    (hpath : a.entry.path = b.entry.path) (hl : keeps? table a.entry.path = some last)
    (h : Slot.givesWay last (contribution b) (contribution a) = true) : keptOver table a b = true := by
  simp [keptOver, ha, hb, hpath, hpath ▸ hl, h]

theorem differs_swap_of_kept (hwx : w.position ≠ x.position) (hwy : w.position ≠ y.position)
    (hxy : x.position ≠ y.position)
    (h : ∀ a ∈ [w, x, y], ∀ b ∈ [w, x, y], ∀ c ∈ [w, x, y],
      Slot.givesWay last (contribution b) (contribution a) = true →
      Slot.givesWay last (contribution c) (contribution b) = true → f a.entry.payload ≠ f b.entry.payload →
      f c.entry.payload ≠ f a.entry.payload ∧ f c.entry.payload ≠ f b.entry.payload) :
    (f w.entry.payload != f x.entry.payload).toNat +
        (f (if Slot.givesWay last (contribution w) (contribution x) then x else w).entry.payload !=
          f y.entry.payload).toNat =
      (f w.entry.payload != f y.entry.payload).toNat +
        (f (if Slot.givesWay last (contribution w) (contribution y) then y else w).entry.payload !=
          f x.entry.payload).toNat := by
  have hw : w ∈ [w, x, y] := by simp
  have hx : x ∈ [w, x, y] := by simp
  have hy : y ∈ [w, x, y] := by simp
  have hxw := givesWay_or_givesWay last (p := contribution w) (q := contribution x) hwx
  have hyw := givesWay_or_givesWay last (p := contribution w) (q := contribution y) hwy
  have hyx := givesWay_or_givesWay last (p := contribution x) (q := contribution y) hxy
  -- The cases are the places of `w` among the three in the order in which they are kept.
  by_cases hgx : Slot.givesWay last (contribution w) (contribution x) = true
  · by_cases hgy : Slot.givesWay last (contribution w) (contribution y) = true
    · have hlast : f x.entry.payload ≠ f y.entry.payload →
          f w.entry.payload ≠ f x.entry.payload ∧ f w.entry.payload ≠ f y.entry.payload := by
        intro hne
        obtain hg | hg := hyx
        · exact (h y hy x hx w hw hg hgx hne.symm).symm
        · exact h x hx y hy w hw hg hgy hne
      rw [if_pos hgx, if_pos hgy]
      obtain heq | hne := eq_or_ne (f x.entry.payload) (f y.entry.payload)
      · rw [heq]
      · obtain ⟨hwx, hwy⟩ := hlast hne
        rw [bne_iff_ne.mpr hwx, bne_iff_ne.mpr hwy, bne_comm]
    · have hmiddle := h x hx w hw y hy hgx (hyw.resolve_left hgy)
      rw [if_pos hgx, if_neg hgy]
      obtain heq | hne := eq_or_ne (f x.entry.payload) (f w.entry.payload)
      · rw [heq, Nat.add_comm]
      · obtain ⟨hyx, hyw⟩ := hmiddle hne
        rw [bne_iff_ne.mpr hne.symm, bne_iff_ne.mpr hyx.symm, bne_iff_ne.mpr hyw.symm]
  · by_cases hgy : Slot.givesWay last (contribution w) (contribution y) = true
    · have hmiddle := h y hy w hw x hx hgy (hxw.resolve_left hgx)
      rw [if_neg hgx, if_pos hgy]
      obtain heq | hne := eq_or_ne (f y.entry.payload) (f w.entry.payload)
      · rw [heq, Nat.add_comm]
      · obtain ⟨hxy, hxw⟩ := hmiddle hne
        rw [bne_iff_ne.mpr hne.symm, bne_iff_ne.mpr hxw.symm, bne_iff_ne.mpr hxy.symm]
    · rw [if_neg hgx, if_neg hgy, Nat.add_comm]

theorem differs_swap_of_rivals (hn : ((seen ++ [x, y]).map (·.position)).Nodup)
    (h : CountsAlike f table (seen ++ [x, y])) (hx : x.isMergeable = true) (hy : y.isMergeable = true)
    (hpath : y.entry.path = x.entry.path) :
    (differs f table seen x).toNat + (differs f table (seen ++ [x]) y).toNat =
      (differs f table seen y).toNat + (differs f table (seen ++ [y]) x).toNat := by
  cases hl : keeps? table x.entry.path with
  | none => simp [differs, kept?, hpath, hl]
  | some last =>
    have hnx : ((seen ++ [x]).map (·.position)).Nodup := hn.sublist (by simp)
    have hny : ((seen ++ [y]).map (·.position)).Nodup := hn.sublist (by simp)
    have hkx := kept?_append seen hnx hx hl
    have hky := kept?_append seen hny hy (hpath ▸ hl)
    rw [hpath] at hky
    cases hw : kept? table seen x.entry.path with
    | none =>
      rw [hw] at hkx hky
      simp [differs, hx, hy, hpath, hw, hkx, hky, bne_comm]
    | some w =>
      rw [hw] at hkx hky
      obtain ⟨hmem, hm, hwpath⟩ := mem_of_kept? hw
      have hsub : ∀ a ∈ [w, x, y], a ∈ seen ++ [x, y] := by simp [hmem]
      have hall : ∀ a ∈ [w, x, y], a.isMergeable = true ∧ a.entry.path = x.entry.path := by
        simp [hx, hy, hm, hpath, hwpath]
      have hover : ∀ a ∈ [w, x, y], ∀ b ∈ [w, x, y],
          Slot.givesWay last (contribution b) (contribution a) = true → keptOver table a b = true := by
        intro a ha b hb
        obtain ⟨ham, hapath⟩ := hall a ha
        obtain ⟨hbm, hbpath⟩ := hall b hb
        exact keptOver_of_givesWay ham hbm (hapath.trans hbpath.symm) (hapath ▸ hl)
      have hnxy : ((seen ++ [x] ++ [y]).map (·.position)).Nodup := by simpa using hn
      have hxy : x.position ≠ y.position := (position_ne_of_nodup hnxy (by simp)).symm
      simp only [differs, hx, hy, hpath, hw, hkx, hky, Option.any_some, Bool.true_and]
      refine differs_swap_of_kept (position_ne_of_nodup hnx hmem).symm (position_ne_of_nodup hny hmem).symm
        hxy fun a ha b hb c hc hab hbc => ?_
      exact h a (hsub a ha) b (hsub b hb) c (hsub c hc) (hover a ha b hb hab) (hover b hb c hc hbc)

theorem differs_swap (hn : ((seen ++ [x, y]).map (·.position)).Nodup)
    (h : CountsAlike f table (seen ++ [x, y])) :
    (differs f table seen x).toNat + (differs f table (seen ++ [x]) y).toNat =
      (differs f table seen y).toNat + (differs f table (seen ++ [y]) x).toNat := by
  by_cases hpath : y.entry.path = x.entry.path
  · have hno : ∀ es e, e.isMergeable = false → differs f table es e = false := by
      intro es e he
      rw [differs, he, Bool.false_and]
    cases hx : x.isMergeable with
    | false => simp [hno _ x hx, differs_append_of_other (x := x) (y := y), hx]
    | true =>
      cases hy : y.isMergeable with
      | false => simp [hno _ y hy, differs_append_of_other (x := y) (y := x), hy]
      | true => exact differs_swap_of_rivals hn h hx hy hpath
  · have hfirst : differs f table (seen ++ [x]) y = differs f table seen y :=
      differs_append_of_other fun h => hpath h.2.symm
    have hsecond : differs f table (seen ++ [y]) x = differs f table seen x :=
      differs_append_of_other fun h => hpath h.2
    rw [hfirst, hsecond, Nat.add_comm]

theorem conflictsFrom_perm (hn : ((seen ++ es).map (·.position)).Nodup)
    (h : CountsAlike f table (seen ++ es)) (hp : es.Perm fs) :
    conflictsFrom f table seen es = conflictsFrom f table seen fs := by
  induction hp generalizing seen with
  | nil => rfl
  | cons e _ ih =>
    rw [List.append_cons] at hn h
    rw [conflictsFrom, conflictsFrom, ih hn h]
  | swap x y es =>
    have hassoc : seen ++ y :: x :: es = seen ++ [y, x] ++ es := by simp
    rw [hassoc] at hn h
    have hnyx : ((seen ++ [y, x]).map (·.position)).Nodup :=
      hn.sublist ((List.sublist_append_left _ _).map _)
    have hswap := differs_swap hnyx fun a ha b hb c hc =>
      h a (List.mem_append_left _ ha) b (List.mem_append_left _ hb) c (List.mem_append_left _ hc)
    have hseen : (seen ++ [y] ++ [x]).Perm (seen ++ [x] ++ [y]) := by
      simpa using (List.Perm.swap x y []).append_left seen
    simp only [conflictsFrom, ← Nat.add_assoc]
    rw [hswap, conflictsFrom_congr (by simpa using hn) hseen]
  | trans hp _ ih ih' =>
    have hp' := hp.append_left seen
    rw [ih hn h, ih' ((hp'.map _).nodup_iff.mp hn) (h.perm hp')]

theorem givesWay_asymm {p q : Contribution} (h : Slot.givesWay last p q = true) :
    ¬ Slot.givesWay last q p = true := by
  cases last with
  | true => exact Position.not_before_of_before h
  | false => exact Position.not_before_of_before h

theorem kept?_pair (hn : ([a, b].map (·.position)).Nodup) (h : keptOver table a b = true) :
    kept? table [a] a.entry.path = some a ∧ kept? table [b] a.entry.path = some b ∧
      kept? table [a, b] a.entry.path = some a ∧ kept? table [b, a] a.entry.path = some a := by
  obtain ⟨ha, hb, hpath, last, hl, hg⟩ := keptOver_iff.mp h
  have hlb : keeps? table b.entry.path = some last := hpath ▸ hl
  have hsole : kept? table [a] a.entry.path = some a := by
    have hone := kept?_append [] (List.nodup_singleton _) ha hl
    rwa [kept?_nil] at hone
  have hother : kept? table [b] a.entry.path = some b := by
    have hone := kept?_append [] (List.nodup_singleton _) hb hlb
    rwa [kept?_nil, ← hpath] at hone
  have hfirst := kept?_append [a] hn hb hlb
  have hsecond := kept?_append [b] (by simpa [eq_comm] using hn) ha hl
  rw [← hpath, hsole] at hfirst
  rw [hother] at hsecond
  refine ⟨hsole, hother, ?_, ?_⟩
  · simpa [givesWay_asymm hg] using hfirst
  · simpa [hg] using hsecond

/-- Three entries the last of which is like one of the others count differently in the order in which they
are kept over each other and in the reverse one. -/
theorem conflictsFrom_reverse (hn : ([a, b, c].map (·.position)).Nodup) (hab : keptOver table a b = true)
    (hbc : keptOver table b c = true) (hne : f a.entry.payload ≠ f b.entry.payload)
    (hlike : f c.entry.payload = f a.entry.payload ∨ f c.entry.payload = f b.entry.payload) :
    conflictsFrom f table [] [a, b, c] ≠ conflictsFrom f table [] [c, b, a] := by
  obtain ⟨ha, hb, hpath, -⟩ := keptOver_iff.mp hab
  obtain ⟨-, hc, hpath', -⟩ := keptOver_iff.mp hbc
  obtain ⟨hka, -, hkab, -⟩ := kept?_pair (hn.sublist (by simp)) hab
  obtain ⟨-, hkc, -, hkcb⟩ := kept?_pair (hn.sublist (by simp)) hbc
  have hforth : conflictsFrom f table [] [a, b, c] = 1 + (f a.entry.payload != f c.entry.payload).toNat := by
    simp [conflictsFrom, differs, kept?_nil, hb, hc, ← hpath, ← hpath', hka, hkab, hne]
  have hback : conflictsFrom f table [] [c, b, a] = (f c.entry.payload != f b.entry.payload).toNat + 1 := by
    simp [conflictsFrom, differs, kept?_nil, hb, ha, hpath, hkc, hkcb, Ne.symm hne]
  rw [hforth, hback]
  obtain heq | heq := hlike
  · simp [heq, hne]
  · simp [heq, hne]

theorem keptOver_asymm (h : keptOver table a b = true) : ¬ keptOver table b a = true := by
  intro h'
  obtain ⟨-, -, hpath, last, hl, hg⟩ := keptOver_iff.mp h
  obtain ⟨-, -, -, last', hl', hg'⟩ := keptOver_iff.mp h'
  obtain rfl : last = last' := Option.some.inj (hl.symm.trans (hpath ▸ hl'))
  exact givesWay_asymm hg hg'

end Order

/-- The entries that are counted are those that differ from what is kept at their path when they arrive, and
all orders of arrival count alike just where no third entry is like one of two that differ and that are both
kept over it. -/
theorem conflicts_alike_iff (h : (es.map (·.position)).Nodup) :
    (∀ arrivals, arrivals.Perm es → conflicts f table arrivals = conflictsFrom f table [] arrivals) ∧
      ((∀ arrivals fs, arrivals.Perm es → fs.Perm es → conflicts f table arrivals = conflicts f table fs) ↔
        CountsAlike f table es) := by
  have hcount : ∀ arrivals, arrivals.Perm es → conflicts f table arrivals = conflictsFrom f table [] arrivals :=
    fun arrivals hp => conflicts_eq ((hp.map _).nodup_iff.mpr h)
  refine ⟨hcount, fun hall a ha b hb c hc hab hbc hne => ?_, fun halike arrivals fs hp hp' => ?_⟩
  · by_contra hlike
    have hdistinct : [a, b, c].Nodup := by
      have hab' : a ≠ b := fun he => keptOver_asymm hab (he ▸ hab)
      have hbc' : b ≠ c := fun he => keptOver_asymm hbc (he ▸ hbc)
      have hac' : a ≠ c := fun he => keptOver_asymm hab (he ▸ hbc)
      simp [hab', hbc', hac']
    obtain ⟨rest, hforth⟩ := exists_perm_append_of_subset hdistinct
      (List.cons_subset.mpr ⟨ha, List.cons_subset.mpr ⟨hb, List.cons_subset.mpr ⟨hc, List.nil_subset es⟩⟩⟩)
    have hreverse : [c, b, a].Perm [a, b, c] := List.reverse_perm [a, b, c]
    have hback : ([c, b, a] ++ rest).Perm es := (hreverse.append_right rest).trans hforth
    have hn : (([a, b, c] ++ rest).map (·.position)).Nodup := (hforth.map _).nodup_iff.mpr h
    have hlater : conflictsFrom f table [c, b, a] rest = conflictsFrom f table [a, b, c] rest :=
      (conflictsFrom_congr hn hreverse.symm).symm
    have hsame := hall _ _ hforth hback
    rw [hcount _ hforth, hcount _ hback, conflictsFrom_append, conflictsFrom_append, List.nil_append,
      List.nil_append, hlater, Nat.add_right_cancel_iff] at hsame
    refine conflictsFrom_reverse (hn.sublist ((List.sublist_append_left _ _).map _)) hab hbc hne ?_ hsame
    rwa [not_and_or, not_not, not_not] at hlike
  · rw [hcount _ hp, hcount _ hp']
    have hn := (hp.map (·.position)).nodup_iff.mpr h
    exact conflictsFrom_perm hn (halike.perm hp.symm) (hp.trans hp'.symm)

def textOfRank (rank : Nat) (payload : Bytes) : ScannedEntry :=
  ⟨⟨rank, 0⟩, { name := "lib" }, { path := "a.txt", payload }⟩

/-- Two payloads with one fingerprint. -/
def twins : Bytes × Bytes :=
  ([0xB9, 0x39, 0x42, 0xEA, 0x7B, 0x73, 0x82, 0x67, 0x3B, 0x52, 0x96, 0x09, 0x3B, 0xBC, 0x56, 0xAF],
    [0xB9, 0x39, 0x42, 0xEA, 0x7B, 0x73, 0x82, 0x66, 0x3A, 0x52, 0x96, 0x09, 0x3B, 0xBC, 0x56, 0xAF])

/-- The last one is kept, the one before shares its fingerprint, and the others differ from it and from each
other. -/
def manyTexts : List ScannedEntry :=
  [textOfRank 0 [3], textOfRank 1 [2], textOfRank 2 twins.1, textOfRank 3 twins.2]

theorem many_texts_count_alike :
    (manyTexts.map (·.position)).Nodup ∧ twins.1 ≠ twins.2 ∧
      ∀ arrivals, arrivals.Perm manyTexts → conflicts .xxh3 keepsLastText arrivals = 2 := by
  have hdistinct : (manyTexts.map (·.position)).Nodup := by decide
  have halike : CountsAlike .xxh3 keepsLastText manyTexts := by decide +kernel
  have hone : conflicts .xxh3 keepsLastText manyTexts = 2 := by decide +kernel
  refine ⟨hdistinct, by decide, fun arrivals hp => ?_⟩
  rw [(conflicts_alike_iff hdistinct).2.mpr halike arrivals manyTexts hp (List.Perm.refl _), hone]

/-- Two texts that are like each other, and a first one that both differ from. -/
def twoAlike : List ScannedEntry :=
  [textOfRank 0 [1], textOfRank 1 [2], textOfRank 2 [2]]

/-- Three entries, all of which are taken in, count as one conflict less when they arrive in reverse. -/
theorem two_alike_count_otherwise :
    (twoAlike.map (·.position)).Nodup ∧ twoAlike.reverse.Perm twoAlike ∧
      (∀ arrivals ∈ [twoAlike, twoAlike.reverse],
        (Resolver.ingestAll .empty {} arrivals).2 = [.ok (), .ok (), .ok ()]) ∧
      conflicts .xxh3 .empty twoAlike = 2 ∧ conflicts .xxh3 .empty twoAlike.reverse = 1 := by
  refine ⟨by decide, List.reverse_perm _, ?_, ?_, ?_⟩ <;> decide +kernel

end FatJar.Merge
