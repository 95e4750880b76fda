import FatJar.Proofs.Relocation.Paths
import FatJar.Proofs.Relocation.Scanning
import FatJar.Relocation.Relocator
import Mathlib.Data.List.Perm.Basic

namespace FatJar.Relocation

section Acceptance

variable {a b : Rule} {rules rules' : List Rule} {same : Bool}

def Apart (a b : Rule) : Prop :=
  ¬ a.source.toList <+: b.source.toList ∧ ¬ b.source.toList <+: a.source.toList

theorem Apart.symm (h : Apart a b) : Apart b a :=
  And.symm h

theorem faultBeside?_eq_none_iff :
    faultBeside? a b same = none ↔
      (same = false → ¬ a.source.toList <+: b.source.toList) ∧ a.covers b.target = false := by
  rw [faultBeside?]
  cases same <;> by_cases hbegins : a.source.toList <+: b.source.toList <;> simp [hbegins]

theorem fault?_eq_none_iff_getElem? :
    fault? rules = none ↔ (∀ r ∈ rules, faultAlone? r = none) ∧
      ∀ (i : Nat) (a : Rule), rules[i]? = some a → ∀ (j : Nat) (b : Rule), rules[j]? = some b →
        faultBeside? a b (i == j) = none := by
  simp only [fault?, Option.or_eq_none_iff, List.findSome?_eq_none_iff, Option.map_eq_none_iff,
    Prod.forall, List.mem_zipIdx_iff_getElem?]
  exact and_congr_right fun _ =>
    ⟨fun h i a ha j b => h a i ha b j, fun h a i ha b j => h i a ha j b⟩

theorem fault?_eq_none_iff :
    fault? rules = none ↔ (∀ r ∈ rules, faultAlone? r = none) ∧ rules.Pairwise Apart ∧
      ∀ a ∈ rules, ∀ b ∈ rules, a.covers b.target = false := by
  rw [fault?_eq_none_iff_getElem?]
  refine and_congr_right fun _ => ⟨fun h => ⟨?_, fun a ha b hb => ?_⟩, ?_⟩
  · refine List.pairwise_iff_getElem.mpr fun i j hi hj hlt => ?_
    have hplace : ∀ {i j : Nat} (hi : i < rules.length) (hj : j < rules.length), i ≠ j →
        ¬ rules[i].source.toList <+: rules[j].source.toList := fun hi hj hne =>
      (faultBeside?_eq_none_iff.mp (h _ _ (List.getElem?_eq_getElem hi) _ _
        (List.getElem?_eq_getElem hj))).1 (beq_false_of_ne hne)
    exact ⟨hplace hi hj hlt.ne, hplace hj hi hlt.ne'⟩
  · obtain ⟨i, hi⟩ := List.getElem?_of_mem ha
    obtain ⟨j, hj⟩ := List.getElem?_of_mem hb
    exact (faultBeside?_eq_none_iff.mp (h i a hi j b hj)).2
  · rintro ⟨hapart, htargets⟩ i a ha j b hb
    refine faultBeside?_eq_none_iff.mpr ⟨fun hne => ?_, htargets a (List.mem_of_getElem? ha) b
      (List.mem_of_getElem? hb)⟩
    obtain ⟨hi, rfl⟩ := List.getElem?_eq_some_iff.mp ha
    obtain ⟨hj, rfl⟩ := List.getElem?_eq_some_iff.mp hb
    obtain hlt | hlt := Nat.lt_or_gt_of_ne (ne_of_beq_false hne)
    · exact (List.pairwise_iff_getElem.mp hapart i j hi hj hlt).1
    · exact (List.pairwise_iff_getElem.mp hapart j i hj hi hlt).2

theorem fault?_perm (h : rules.Perm rules') : fault? rules = none ↔ fault? rules' = none := by
  rw [fault?_eq_none_iff, fault?_eq_none_iff, h.pairwise_iff Apart.symm]
  simp only [h.mem_iff]

theorem ofList_eq_ok (rs : RuleSet) : RuleSet.ofList rs.rules = .ok rs := by
  rw [RuleSet.ofList]
  split
  · next hfault =>
    rw [rs.accepted] at hfault
    cases hfault
  · rfl

end Acceptance

variable {rs rs' : RuleSet}

section Lookups

variable (h : ∀ r, r ∈ rs.rules ↔ r ∈ rs'.rules)

include h

theorem occurrenceAt?_of_same_rules : occurrenceAt? rs.literals = occurrenceAt? rs'.literals := by
  funext start before bs
  ext o
  simp only [occurrenceAt?_eq_some_iff, mem_literals_iff, h]

omit h in
theorem occurrencesFrom_congr {literals literals' : List Literal}
    (h : occurrenceAt? literals = occurrenceAt? literals') (acc : List Occurrence) (start : Nat)
    (before : Option UInt8) (bs : Bytes) :
    occurrencesFrom literals acc start before bs = occurrencesFrom literals' acc start before bs := by
  induction bs generalizing acc start before with
  | nil => rfl
  | cons b bs ih =>
    rw [occurrencesFrom, occurrencesFrom, h]
    cases occurrenceAt? literals' start before (b :: bs) with
    | none => exact ih acc _ _
    | some o => exact ih (o :: acc) _ _

theorem occurrences_of_same_rules : occurrences rs.literals = occurrences rs'.literals :=
  funext fun bs => occurrencesFrom_congr (occurrenceAt?_of_same_rules h) [] 0 none bs

theorem replace_of_same_rules : rs.replace = rs'.replace := by
  funext bs
  rw [RuleSet.replace, RuleSet.replace, occurrences_of_same_rules h]

theorem find_of_same_rules : rs.find = rs'.find := by
  funext bs
  rw [RuleSet.find, RuleSet.find, occurrences_of_same_rules h]

theorem relocatePath_of_same_rules : rs.relocatePath = rs'.relocatePath := by
  funext path
  ext path'
  simp only [RuleSet.relocatePath_eq_some_iff, h]

theorem relocateName_of_same_rules : rs.relocateName = rs'.relocateName := by
  funext name
  ext name'
  simp only [RuleSet.relocateName_eq_some_iff, h]

theorem relocateMember_of_same_rules (accepts : Bytes → Bool) :
    relocateMember accepts rs = relocateMember accepts rs' := by
  funext m
  simp only [relocateMember, relocateClass, replaceInClass, namespaceOf, relocateServiceFile,
    relocateResource, replace_of_same_rules h, find_of_same_rules h, relocatePath_of_same_rules h,
    relocateName_of_same_rules h]

end Lookups

section Failures

def Failure.site (f : Failure) : String × Obstacle :=
  (f.path, f.obstacle)

theorem Outcome.add_site (rs rs' : RuleSet) (o : Outcome) (r : Relocated) :
    (o.add rs r).mapError Failure.site = (o.add rs' r).mapError Failure.site := by
  rw [Outcome.add, Outcome.add]
  cases o.contents.insert? r.member with
  | some contents => rfl
  | none =>
    cases o.contents.get? r.member.path with
    | none => rfl
    | some existing =>
      by_cases hk : existing.kind = .serviceFile && r.member.kind = .serviceFile
      · simp only [hk, if_true]
      · simp only [hk, if_false, Bool.false_eq_true]
        rfl

theorem relocateWith_site (h : ∀ r, r ∈ rs.rules ↔ r ∈ rs'.rules) (accepts : Bytes → Bool)
    (c : Contents) :
    (relocateWith accepts rs c).mapError Failure.site =
      (relocateWith accepts rs' c).mapError Failure.site := by
  rw [relocateWith, relocateWith, relocateMember_of_same_rules h]
  cases c.members.mapM (relocateMember accepts rs') with
  | error f => rfl
  | ok all => exact foldlM_mapError (Outcome.add_site rs rs') _ _

end Failures

/-- Two lists of rules by which all is relocated alike. -/
structure RelocatesAlike (rs rs' : RuleSet) : Prop where
  replace : ∀ bs, rs.replace bs = rs'.replace bs
  find : ∀ bs, rs.find bs = rs'.find bs
  /-- Also where a search looks for the literals of either list in their order. -/
  searched : ∀ search search' : Search, IsLeftmost rs.literals search →
    IsLeftmost rs'.literals search' → ∀ bs, rs.replaceBy search bs = rs'.replaceBy search' bs ∧
      rs.findFrom search bs 0 = rs'.findFrom search' bs 0
  path : ∀ path, rs.relocatePath path = rs'.relocatePath path
  name : ∀ name, rs.relocateName name = rs'.relocateName name
  contents : ∀ accepts c o, relocateWith accepts rs c = .ok o ↔ relocateWith accepts rs' c = .ok o
  failure : ∀ accepts c f, relocateWith accepts rs c = .error f → ∃ f',
    relocateWith accepts rs' c = .error f' ∧ f'.path = f.path ∧ f'.obstacle = f.obstacle

theorem findFrom_eq_find {search : Search} (h : IsLeftmost rs.literals search) (bs : Bytes) :
    rs.findFrom search bs 0 = rs.find bs :=
  (h.findFrom_eq [] bs).trans (RuleSet.find_eq_head? bs).symm

theorem relocatesAlike_of_same_rules (h : ∀ r, r ∈ rs.rules ↔ r ∈ rs'.rules) :
    RelocatesAlike rs rs' where
  replace bs := congrFun (replace_of_same_rules h) bs
  find bs := congrFun (find_of_same_rules h) bs
  searched search search' hs hs' bs := by
    rw [RuleSet.replaceBy_eq hs, RuleSet.replaceBy_eq hs', findFrom_eq_find hs, findFrom_eq_find hs',
      replace_of_same_rules h, find_of_same_rules h]
    exact ⟨rfl, rfl⟩
  path path := congrFun (relocatePath_of_same_rules h) path
  name name := congrFun (relocateName_of_same_rules h) name
  contents accepts c o := by
    have hsite := relocateWith_site h accepts c
    constructor
    · intro ho
      rw [ho] at hsite
      exact ok_of_mapError hsite.symm
    · intro ho
      rw [ho] at hsite
      exact ok_of_mapError hsite
  failure accepts c f hf := by
    have hsite := relocateWith_site h accepts c
    rw [hf] at hsite
    obtain ⟨f', hf', hsame⟩ := error_of_mapError hsite.symm
    exact ⟨f', hf', congrArg Prod.fst hsame, congrArg Prod.snd hsame⟩

/-- The rules of an accepted list are accepted in any order, and in any order they relocate alike. -/
theorem rules_in_any_order (rs : RuleSet) {rules : List Rule} (h : rs.rules.Perm rules) :
    ∃ rs', RuleSet.ofList rules = .ok rs' ∧ rs'.rules = rules ∧ RelocatesAlike rs rs' := by
  have haccepted := (fault?_perm h).mp rs.accepted
  let rs' : RuleSet := ⟨rules, haccepted⟩
  exact ⟨rs', ofList_eq_ok rs', rfl, relocatesAlike_of_same_rules fun r => h.mem_iff⟩

def joiningRules : RuleSet :=
  ⟨[⟨"lib", "shaded"⟩, ⟨"com.lib", "shaded"⟩], by decide⟩

/-- The other way round they relocate alike, and another of them is the rule of the target. -/
theorem joining_rules_swapped :
    joiningRules.rules.Perm [⟨"com.lib", "shaded"⟩, ⟨"lib", "shaded"⟩] ∧
      ∃ rs', RuleSet.ofList [⟨"com.lib", "shaded"⟩, ⟨"lib", "shaded"⟩] = .ok rs' ∧
        RelocatesAlike joiningRules rs' ∧
        joiningRules.targetRule "shaded/Util.class" = some ⟨"lib", "shaded"⟩ ∧
        rs'.targetRule "shaded/Util.class" = some ⟨"com.lib", "shaded"⟩ := by
  have hperm : joiningRules.rules.Perm [⟨"com.lib", "shaded"⟩, ⟨"lib", "shaded"⟩] := List.Perm.swap _ _ _
  obtain ⟨rs', hrs', hrules, halike⟩ := rules_in_any_order joiningRules hperm
  refine ⟨hperm, rs', hrs', halike, by decide +kernel, ?_⟩
  rw [RuleSet.targetRule, hrules]
  decide +kernel

end FatJar.Relocation
