import FatJar.Merge.Resolver
import Mathlib.Data.List.Perm.Basic

namespace FatJar

namespace Position

variable {a b c : Position}

theorem before_iff :
    a.before b = true ↔ a.rank < b.rank ∨ (a.rank = b.rank ∧ a.seq < b.seq) := by
  simp [before]

theorem not_before_self (a : Position) : ¬ a.before a = true := by
  rw [before_iff]
  omega

theorem before_trans (hab : a.before b = true) (hbc : b.before c = true) : a.before c = true := by
  rw [before_iff] at hab hbc ⊢
  omega

theorem not_before_of_before (h : a.before b = true) : ¬ b.before a = true :=
  fun h' => not_before_self a (before_trans h h')

theorem before_or_before (h : a ≠ b) : a.before b = true ∨ b.before a = true := by
  rw [before_iff, before_iff]
  by_contra hn
  apply h
  cases a
  cases b
  simp only [mk.injEq] at hn ⊢
  omega

end Position

namespace Merge

variable {α : Type}

def Arranged (ps : List (Position × α)) : Prop :=
  ps.Pairwise fun x y => x.1.before y.1 = true

theorem Arranged.eq_of_perm {ps qs : List (Position × α)} (hp : Arranged ps) (hq : Arranged qs)
    (h : ps.Perm qs) : ps = qs := by
  refine h.eq_of_pairwise ?_ hp hq
  intro x y _ _ hxy hyx
  exact absurd hyx (Position.not_before_of_before hxy)

theorem mem_putAt {p : Position} {v : α} {ps : List (Position × α)} {x : Position × α}
    (h : x ∈ putAt p v ps) : x = (p, v) ∨ x ∈ ps := by
  induction ps with
  | nil => simpa [putAt] using h
  | cons y ys ih =>
    simp only [putAt] at h
    split at h
    · simpa using h
    · split at h
      · obtain rfl | h := List.mem_cons.mp h
        · exact .inl rfl
        · exact .inr (List.mem_cons_of_mem _ h)
      · obtain rfl | h := List.mem_cons.mp h
        · exact .inr List.mem_cons_self
        · exact (ih h).imp_right (List.mem_cons_of_mem _)

theorem Arranged.putAt {p : Position} {v : α} {ps : List (Position × α)} (h : Arranged ps) :
    Arranged (putAt p v ps) := by
  induction ps with
  | nil => simp [Merge.putAt, Arranged]
  | cons y ys ih =>
    obtain ⟨hy, hys⟩ := List.pairwise_cons.mp h
    simp only [Merge.putAt]
    split
    · next hlt =>
      refine List.pairwise_cons.mpr ⟨?_, h⟩
      intro x hx
      obtain rfl | hx := List.mem_cons.mp hx
      · exact hlt
      · exact Position.before_trans hlt (hy x hx)
    · next hnlt =>
      split
      · next he => exact List.pairwise_cons.mpr ⟨fun x hx => he ▸ hy x hx, hys⟩
      · next hne =>
        refine List.pairwise_cons.mpr ⟨?_, ih hys⟩
        intro x hx
        obtain rfl | hx := mem_putAt hx
        · exact (Position.before_or_before hne).resolve_left hnlt
        · exact hy x hx

theorem putAt_perm {p : Position} {v : α} {ps : List (Position × α)} (h : ∀ x ∈ ps, p ≠ x.1) :
    (putAt p v ps).Perm ((p, v) :: ps) := by
  induction ps with
  | nil => exact List.Perm.refl _
  | cons y ys ih =>
    simp only [putAt]
    split
    · exact List.Perm.refl _
    · rw [if_neg (h y List.mem_cons_self)]
      have hys := ih fun x hx => h x (List.mem_cons_of_mem _ hx)
      exact (hys.cons y).trans (List.Perm.swap _ y ys)

theorem head?_putAt {p : Position} {v : α} {x : Position × α} {ps : List (Position × α)}
    (hp : p ≠ x.1) :
    (putAt p v (x :: ps)).head? = some (if p.before x.1 then (p, v) else x) := by
  simp only [putAt, if_neg hp]
  split <;> simp

theorem getLast?_putAt {p : Position} {v : α} {ps : List (Position × α)} (hs : Arranged ps)
    (hp : ∀ x ∈ ps, p ≠ x.1) :
    (putAt p v ps).getLast? =
      some (match ps.getLast? with
        | none => (p, v)
        | some x => if x.1.before p then (p, v) else x) := by
  induction ps with
  | nil => rfl
  | cons y ys ih =>
    obtain ⟨hy, hys⟩ := List.pairwise_cons.mp hs
    have hne : p ≠ y.1 := hp y List.mem_cons_self
    simp only [putAt]
    split
    · next hlt =>
      -- What is last in the list stays so, for it does not go before its head.
      obtain ⟨z, hz⟩ : ∃ z, (y :: ys).getLast? = some z := ⟨_, List.getLast?_cons⟩
      have hpz : p.before z.1 = true := by
        obtain rfl | hm := List.mem_cons.mp (List.mem_of_getLast? hz)
        · exact hlt
        · exact Position.before_trans hlt (hy z hm)
      have hzp : ¬ z.1.before p = true := Position.not_before_of_before hpz
      rw [List.getLast?_cons_cons, hz]
      simp [hzp]
    · next hnlt =>
      have hyp : y.1.before p = true := (Position.before_or_before hne).resolve_left hnlt
      have hi := ih hys fun x hx => hp x (List.mem_cons_of_mem _ hx)
      rw [List.getLast?_cons, hi]
      cases hl : ys.getLast? with
      | none => simp [List.getLast?_cons, hl, hyp]
      | some z => simp [List.getLast?_cons, hl]

end Merge

end FatJar
