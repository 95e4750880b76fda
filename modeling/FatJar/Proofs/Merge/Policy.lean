import FatJar.Merge.Policy
import FatJar.Proofs.Lists
import Mathlib.Data.List.Forall2

namespace FatJar.Merge

section Choosing

open PolicyTable

variable {a b c : Compiled} {cs ds : List Compiled} {choice : Choice}

theorem precedes_iff : precedes a b ↔
    b.specificity < a.specificity ∨ a.specificity = b.specificity ∧ a.order < b.order := by
  simp [precedes]

theorem not_precedes_self (a : Compiled) : ¬ precedes a a := by
  rw [precedes_iff]
  omega

theorem not_precedes_of_precedes (h : precedes a b) : ¬ precedes b a := by
  rw [precedes_iff] at h ⊢
  omega

/-- Of two policies one of which precedes the other, a third is preceded by the one or precedes the other. -/
theorem precedes_or_precedes (h : precedes a c) (b : Compiled) : precedes a b ∨ precedes b c := by
  rw [precedes_iff] at h ⊢
  rw [precedes_iff]
  omega

/-- The policies of a list that no other precedes. -/
def unpreceded (cs : List Compiled) : List Compiled :=
  cs.filter fun c => ∀ d ∈ cs, ¬ precedes d c

theorem mem_of_mem_unpreceded (h : a ∈ unpreceded cs) : a ∈ cs :=
  (List.mem_filter.mp h).1

theorem not_precedes_of_mem (ha : a ∈ unpreceded cs) (hb : b ∈ cs) : ¬ precedes b a :=
  of_decide_eq_true (List.mem_filter.mp ha).2 b hb

theorem unpreceded_concat (cs : List Compiled) (c : Compiled) :
    unpreceded (cs ++ [c]) = (unpreceded cs).filter (fun b => ¬ precedes c b) ++
      if ∃ d ∈ cs, precedes d c then [] else [c] := by
  have hconcat (b : Compiled) :
      (∀ d ∈ cs ++ [c], ¬ precedes d b) ↔ ¬ precedes c b ∧ ∀ d ∈ cs, ¬ precedes d b := by
    rw [List.forall_mem_append, List.forall_mem_singleton, and_comm]
  rw [unpreceded, List.filter_append, unpreceded, List.filter_filter]
  congr 1
  · refine List.filter_congr fun b _ => ?_
    rw [decide_eq_decide.mpr (hconcat b), Bool.decide_and]
  · split
    · next h =>
      obtain ⟨d, hd, hdc⟩ := h
      have hc : ¬ ∀ d ∈ cs ++ [c], ¬ precedes d c := fun hall => (hconcat c).mp hall |>.2 d hd hdc
      exact List.filter_cons_of_neg fun hall => hc (of_decide_eq_true hall)
    · next h =>
      have hc : ∀ d ∈ cs ++ [c], ¬ precedes d c :=
        (hconcat c).mpr ⟨not_precedes_self c, fun d hd hdc => h ⟨d, hd, hdc⟩⟩
      exact List.filter_cons_of_pos (decide_eq_true hc)

/-- The choice is the first of the policies that no other precedes, and its tie is the last one. -/
def IsChoice (choice : Choice) (cs : List Compiled) : Prop :=
  ∃ ties, unpreceded cs = choice.best :: ties ∧ ties.getLast? = choice.tie

theorem IsChoice.consider (h : IsChoice choice cs) (c : Compiled) :
    IsChoice (choice.consider c) (cs ++ [c]) := by
  obtain ⟨ties, hcs, hlast⟩ := h
  have hbest : choice.best ∈ unpreceded cs := hcs ▸ List.mem_cons_self
  -- If any policy precedes `c`, the best one does.
  have hexists : (∃ d ∈ cs, precedes d c) ↔ precedes choice.best c := by
    constructor
    · rintro ⟨d, hd, hdc⟩
      obtain hdbest | hbestc := precedes_or_precedes hdc choice.best
      · exact absurd hdbest (not_precedes_of_mem hbest hd)
      · exact hbestc
    · exact fun hbestc => ⟨_, mem_of_mem_unpreceded hbest, hbestc⟩
  rw [IsChoice, unpreceded_concat, Choice.consider]
  simp only [hexists]
  by_cases hc : precedes c choice.best
  · have hnone : (unpreceded cs).filter (fun b => ¬ precedes c b) = [] := by
      refine List.filter_eq_nil_iff.mpr fun b hb => ?_
      obtain hcb | hbbest := precedes_or_precedes hc b
      · simpa using hcb
      · exact absurd hbbest (not_precedes_of_mem hbest (mem_of_mem_unpreceded hb))
    rw [if_pos hc, hnone, if_neg (not_precedes_of_precedes hc)]
    exact ⟨[], rfl, rfl⟩
  · have hall : (unpreceded cs).filter (fun b => ¬ precedes c b) = unpreceded cs := by
      refine List.filter_eq_self.mpr fun b hb => decide_eq_true fun hcb => ?_
      obtain hcbest | hbestb := precedes_or_precedes hcb choice.best
      · exact hc hcbest
      · exact not_precedes_of_mem hb (mem_of_mem_unpreceded hbest) hbestb
    rw [if_neg hc, hall, hcs]
    by_cases hbestc : precedes choice.best c
    · rw [if_pos hbestc, if_pos hbestc, List.append_nil]
      exact ⟨ties, rfl, hlast⟩
    · rw [if_neg hbestc, if_neg hbestc]
      exact ⟨ties ++ [c], rfl, List.getLast?_concat⟩

theorem IsChoice.foldl (h : IsChoice choice cs) (ds : List Compiled) :
    IsChoice (ds.foldl Choice.consider choice) (cs ++ ds) := by
  induction ds generalizing choice cs with
  | nil => rwa [List.append_nil]
  | cons d ds ih =>
    rw [List.append_cons]
    exact ih (h.consider d)

theorem choose_eq_none_iff : choose cs = none ↔ cs = [] := by
  cases cs <;> simp [choose]

theorem isChoice_of_choose (h : choose cs = some choice) : IsChoice choice cs := by
  cases cs with
  | nil => cases h
  | cons c cs =>
    obtain rfl := Option.some.inj h
    have hfirst : IsChoice { best := c } [c] := ⟨[], by simp [unpreceded, not_precedes_self], rfl⟩
    exact hfirst.foldl cs

end Choosing

def Policy.matchesPath (p : Policy) (path : String) : Bool :=
  match Glob.ofText p.pattern with
  | .error _ => false
  | .ok glob => glob.matchesPath path

/-- The policies that match a path, as they are declared, each with its place in the list. -/
def matching (ps : List Policy) (path : String) : List (Policy × Nat) :=
  ps.zipIdx.filter (·.1.matchesPath path)

/-- The order that a policy gives, or else its place in the list. -/
def orderOf (p : Policy × Nat) : Nat :=
  (p.1.order.map UInt32.toNat).getD p.2

/-- A longer literal prefix ranks first, and of prefixes as long as each other the smaller order. -/
def Outranks (p q : Policy × Nat) : Prop :=
  q.1.literalPrefixLength < p.1.literalPrefixLength ∨
    p.1.literalPrefixLength = q.1.literalPrefixLength ∧ orderOf p < orderOf q

instance (p q : Policy × Nat) : Decidable (Outranks p q) :=
  inferInstanceAs (Decidable (_ ∨ _ ∧ _))

/-- The matching policies that share the best rank, as they are declared. -/
def bestMatches (ps : List Policy) (path : String) : List (Policy × Nat) :=
  (matching ps path).filter fun p => ∀ q ∈ matching ps path, ¬ Outranks q p

/-- What a policy at its place in the list is compiled to. -/
structure IsCompiled (p : Policy × Nat) (c : Compiled) : Prop where
  matchesPath : ∀ path, p.1.matchesPath path = c.glob.matchesPath path
  pattern : p.1.pattern = c.glob.text
  action : p.1.action = c.action
  literalPrefixLength : p.1.literalPrefixLength = c.specificity
  order : orderOf p = c.order

section Table

variable {ps : List Policy} {t : PolicyTable} {path : String} {p q : Policy × Nat} {c d : Compiled}
  {qs : List (Policy × Nat)} {cs : List Compiled}

theorem isCompiled_of_compile (h : p.1.compile p.2 = .ok c) : IsCompiled p c := by
  rw [Policy.compile] at h
  cases hglob : Glob.ofText p.1.pattern with
  | error fault =>
    rw [hglob] at h
    cases h
  | ok glob =>
    rw [hglob] at h
    obtain rfl := Except.ok.inj h
    refine ⟨fun path => ?_, ?_, rfl, rfl, rfl⟩
    · rw [Policy.matchesPath, hglob]
    · cases hparse : Glob.parse p.1.pattern with
      | error fault => simp [Glob.ofText, hparse, Except.map] at hglob
      | ok tokens =>
        rw [Glob.ofText, hparse] at hglob
        rw [← Except.ok.inj hglob]

theorem outranks_iff (hp : IsCompiled p c) (hq : IsCompiled q d) :
    Outranks p q ↔ PolicyTable.precedes c d := by
  rw [Outranks, precedes_iff, hp.literalPrefixLength, hq.literalPrefixLength, hp.order, hq.order]

theorem map_compile (h : PolicyTable.ofList ps = .ok t) :
    ps.zipIdx.map (fun p => Policy.compile p.1 p.2) = t.policies.map .ok := by
  rw [PolicyTable.ofList] at h
  cases hps : ps.zipIdx.mapM fun p => Policy.compile p.1 p.2 with
  | error fault =>
    rw [hps] at h
    cases h
  | ok policies =>
    rw [hps] at h
    dsimp only [bind, Except.bind] at h
    split at h
    · cases h
    · obtain rfl := Except.ok.inj h
      exact mapM_eq_ok_iff.mp hps

theorem forall₂_isCompiled (h : PolicyTable.ofList ps = .ok t) :
    List.Forall₂ IsCompiled ps.zipIdx t.policies := by
  have hcompile : List.Forall₂ (fun p c => Policy.compile p.1 p.2 = .ok c) ps.zipIdx t.policies := by
    have hmap := map_compile h
    rw [← List.forall₂_eq_eq_eq, List.forall₂_map_left_iff, List.forall₂_map_right_iff] at hmap
    exact hmap
  exact hcompile.imp fun _ _ => isCompiled_of_compile

theorem forall₂_matching (h : PolicyTable.ofList ps = .ok t) (path : String) :
    List.Forall₂ IsCompiled (matching ps path) (t.policies.filter (·.glob.matchesPath path)) := by
  refine List.rel_filter (fun p c hpc => ?_) (forall₂_isCompiled h)
  dsimp only
  rw [hpc.matchesPath path]

theorem not_outranks_iff (h : List.Forall₂ IsCompiled qs cs) (hp : IsCompiled p c) :
    (∀ q ∈ qs, ¬ Outranks q p) ↔ ∀ d ∈ cs, ¬ PolicyTable.precedes d c := by
  induction h with
  | nil => simp
  | cons hq _ ih => rw [List.forall_mem_cons, List.forall_mem_cons, ih, outranks_iff hq hp]

theorem forall₂_bestMatches (h : PolicyTable.ofList ps = .ok t) (path : String) :
    List.Forall₂ IsCompiled (bestMatches ps path)
      (unpreceded (t.policies.filter (·.glob.matchesPath path))) := by
  have hmatching := forall₂_matching h path
  refine List.rel_filter (fun p c hpc => ?_) hmatching
  dsimp only
  rw [decide_eq_true_eq, decide_eq_true_eq]
  exact not_outranks_iff hmatching hpc

/-- A path that nothing matches has no action, one best match gives its action, and of several the first and
the last are reported. -/
theorem lookup_cases (h : PolicyTable.ofList ps = .ok t) (path : String) :
    (matching ps path = [] ∧ bestMatches ps path = [] ∧ t.lookup path = .ok none) ∨
      (∃ p, bestMatches ps path = [p] ∧ t.lookup path = .ok (some p.1.action)) ∨
      ∃ first between last, bestMatches ps path = first :: (between ++ [last]) ∧
        t.lookup path = .error ⟨path, first.1.pattern, last.1.pattern⟩ := by
  have hmatching := forall₂_matching h path
  have hbest := forall₂_bestMatches h path
  rw [PolicyTable.lookup]
  cases hchoose : PolicyTable.choose (t.policies.filter (·.glob.matchesPath path)) with
  | none =>
    have hnil := choose_eq_none_iff.mp hchoose
    rw [hnil] at hmatching hbest
    exact .inl ⟨List.forall₂_nil_right_iff.mp hmatching, List.forall₂_nil_right_iff.mp hbest, rfl⟩
  | some choice =>
    obtain ⟨ties, hties, hlast⟩ := isChoice_of_choose hchoose
    rw [hties] at hbest
    obtain ⟨first, firsts, hfirst, hrest, hmatches⟩ := List.forall₂_cons_right_iff.mp hbest
    obtain ⟨best, tie⟩ := choice
    cases tie with
    | none =>
      rw [List.getLast?_eq_none_iff.mp hlast] at hrest
      rw [List.forall₂_nil_right_iff.mp hrest] at hmatches
      refine .inr (.inl ⟨first, hmatches, ?_⟩)
      rw [hfirst.action]
    | some other =>
      obtain ⟨between, rfl⟩ := List.getLast?_eq_some_iff.mp hlast
      obtain ⟨last, after, hother, hafter, hdrop⟩ :=
        List.forall₂_cons_right_iff.mp (List.forall₂_drop_append _ _ _ hrest)
      rw [List.forall₂_nil_right_iff.mp hafter] at hdrop
      have hfirsts := List.take_append_drop between.length firsts
      rw [hdrop] at hfirsts
      rw [← hfirsts] at hmatches
      refine .inr (.inr ⟨first, _, last, hmatches, ?_⟩)
      rw [hfirst.pattern, hother.pattern]

/-- A path has no action if and only if no policy matches it, an action if and only if that is the action of
the one best match, and an ambiguity if and only if it names the first and the last of several. -/
theorem lookup_bestMatches (h : PolicyTable.ofList ps = .ok t) (path : String) :
    (t.lookup path = .ok none ↔ matching ps path = []) ∧
      (∀ a, t.lookup path = .ok (some a) ↔ ∃ p, bestMatches ps path = [p] ∧ p.1.action = a) ∧
      ∀ e, t.lookup path = .error e ↔ ∃ first between last,
        bestMatches ps path = first :: (between ++ [last]) ∧
          e = ⟨path, first.1.pattern, last.1.pattern⟩ := by
  have hne (hbest : bestMatches ps path ≠ []) : matching ps path ≠ [] := by
    intro hmatching
    apply hbest
    rw [bestMatches, hmatching, List.filter_nil]
  obtain ⟨hmatching, hbest, hlookup⟩ | ⟨p, hbest, hlookup⟩ | ⟨first, between, last, hbest, hlookup⟩ :=
    lookup_cases h path
  · simp [hmatching, hbest, hlookup]
  · have hmatches := hne (hbest ▸ List.cons_ne_nil p [])
    rw [hlookup, hbest]
    refine ⟨by simp [hmatches], fun a => ⟨fun ha => ⟨p, rfl, Option.some.inj (Except.ok.inj ha)⟩, ?_⟩,
      fun e => ⟨fun he => (by cases he), ?_⟩⟩
    · rintro ⟨q, hq, rfl⟩
      rw [List.singleton_inj.mp hq]
    · rintro ⟨first, between, last, htie, -⟩
      simp at htie
  · have hmatches := hne (hbest ▸ List.cons_ne_nil first _)
    rw [hlookup, hbest]
    refine ⟨by simp [hmatches], fun a => ⟨fun ha => (by cases ha), ?_⟩,
      fun e => ⟨fun he => ⟨first, between, last, rfl, (Except.error.inj he).symm⟩, ?_⟩⟩
    · rintro ⟨p, hp, -⟩
      simp at hp
    · rintro ⟨first', between', last', htie, rfl⟩
      obtain ⟨rfl, hties⟩ := List.cons.inj htie
      rw [List.singleton_inj.mp (List.append_inj_right' hties rfl)]

end Table

/-- Of these the first and the last tie for `c/a.x`, and the other two as well but not as the best. -/
def tyingPolicies : List Policy :=
  [⟨"c/*.x", .keepLast, some 1⟩, ⟨"*/a.x", .keepFirst, some 0⟩, ⟨"**", .exclude, some 0⟩,
    ⟨"c/?.x", .concatenateLines, some 1⟩]

theorem tyingPolicies_lookup : ∃ t, PolicyTable.ofList tyingPolicies = .ok t ∧
    t.lookup "c/a.x" = .error ⟨"c/a.x", "c/*.x", "c/?.x"⟩ ∧
    t.lookup "c/db.x" = .ok (some .keepLast) := by
  obtain ⟨t, ht⟩ : ∃ t, PolicyTable.ofList tyingPolicies = .ok t := ⟨_, rfl⟩
  have happ : bestMatches tyingPolicies "c/a.x" =
      [(⟨"c/*.x", .keepLast, some 1⟩, 0), (⟨"c/?.x", .concatenateLines, some 1⟩, 3)] := by
    decide
  have hdb : bestMatches tyingPolicies "c/db.x" = [(⟨"c/*.x", .keepLast, some 1⟩, 0)] := by
    decide
  refine ⟨t, ht, ?_, ?_⟩
  · exact ((lookup_bestMatches ht "c/a.x").2.2 _).mpr ⟨_, [], _, happ, rfl⟩
  · exact ((lookup_bestMatches ht "c/db.x").2.1 _).mpr ⟨_, hdb, rfl⟩

end FatJar.Merge
