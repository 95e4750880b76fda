import FatJar.Relocation.Reference

namespace FatJar.Relocation

theorem selectFrom_zero_eq_nil_iff {os : List Occurrence} :
    selectFrom 0 os = [] ↔ ∀ o ∈ os, o.isReference = false := by
  induction os with
  | nil => simp [selectFrom]
  | cons o os ih => by_cases ho : o.isReference = true <;> simp [selectFrom, ho, ih]

theorem head?_selectFrom_zero {os : List Occurrence} :
    (selectFrom 0 os).head? = os.find? Occurrence.isReference := by
  induction os with
  | nil => rfl
  | cons o os ih => by_cases ho : o.isReference = true <;> simp [selectFrom, ho, ih]

namespace RuleSet

variable (rs : RuleSet) (bs : Bytes)

theorem find_eq_none_iff :
    rs.find bs = none ↔ ∀ o ∈ occurrences rs.literals bs, o.isReference = false := by
  unfold find
  rw [Option.map_eq_none_iff, List.find?_eq_none]
  simp only [Bool.not_eq_true]

theorem replace_eq_none_iff : rs.replace bs = none ↔ rs.find bs = none := by
  rw [find_eq_none_iff, ← selectFrom_zero_eq_nil_iff]
  unfold replace
  cases selectFrom 0 (occurrences rs.literals bs) with
  | nil => simp
  | cons o os => simp

end RuleSet

end FatJar.Relocation
