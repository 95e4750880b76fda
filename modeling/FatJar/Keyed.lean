namespace FatJar

variable {κ α : Type} [DecidableEq κ]

def putPair (k : κ) (v : α) : List (κ × α) → List (κ × α)
  | [] => [(k, v)]
  | p :: ps => if p.1 = k then (k, v) :: ps else p :: putPair k v ps

theorem fst_putPair (k : κ) (v : α) (ps : List (κ × α)) :
    (putPair k v ps).map Prod.fst =
      if k ∈ ps.map Prod.fst then ps.map Prod.fst else ps.map Prod.fst ++ [k] := by
  induction ps with
  | nil => simp [putPair]
  | cons p ps ih =>
    by_cases h : p.1 = k
    · simp [putPair, h]
    · have h' : ¬ k = p.1 := fun e => h e.symm
      simp only [putPair, if_neg h, List.map_cons, ih, List.mem_cons, h', false_or]
      split <;> simp_all

theorem nodup_putPair (k : κ) (v : α) {ps : List (κ × α)}
    (h : (ps.map Prod.fst).Nodup) : ((putPair k v ps).map Prod.fst).Nodup := by
  rw [fst_putPair]
  split
  · exact h
  · next hn =>
    refine List.nodup_append.mpr ⟨h, by simp, ?_⟩
    intro a ha b hb e
    rw [List.mem_singleton] at hb
    exact hn (hb ▸ e ▸ ha)

theorem find?_putPair (k : κ) (v : α) (ps : List (κ × α)) :
    (putPair k v ps).find? (·.1 = k) = some (k, v) := by
  induction ps with
  | nil => simp [putPair]
  | cons p ps ih =>
    by_cases h : p.1 = k
    · simp [putPair, h]
    · simp [putPair, h, ih]

theorem find?_putPair_of_ne {k q : κ} (v : α) (ps : List (κ × α)) (h : q ≠ k) :
    (putPair k v ps).find? (·.1 = q) = ps.find? (·.1 = q) := by
  induction ps with
  | nil => simp [putPair, Ne.symm h]
  | cons p ps ih =>
    by_cases hk : p.1 = k
    · have hq : ¬ p.1 = q := fun e => h (e ▸ hk)
      simp [putPair, hk, Ne.symm h]
    · simp only [putPair, if_neg hk, List.find?_cons, ih]

theorem lookup_cons_eq_ite (k : κ) (p : κ × α) (ps : List (κ × α)) :
    (p :: ps).lookup k = if k = p.1 then some p.2 else ps.lookup k := by
  by_cases h : k = p.1
  · rw [if_pos h, h]
    exact List.lookup_cons_self
  · have hb : (k == p.1) = false := beq_eq_false_iff_ne.mpr h
    rw [if_neg h, List.lookup_cons, hb]

theorem lookup_putPair (k q : κ) (v : α) (ps : List (κ × α)) :
    (putPair k v ps).lookup q = if q = k then some v else ps.lookup q := by
  induction ps with
  | nil => simp [putPair, lookup_cons_eq_ite]
  | cons p ps ih =>
    by_cases hk : p.1 = k
    · rw [putPair, if_pos hk, lookup_cons_eq_ite, lookup_cons_eq_ite, hk]
      split <;> rfl
    · simp only [putPair, if_neg hk, lookup_cons_eq_ite, ih]
      by_cases hq : q = p.1
      · have hqk : ¬ q = k := fun e => hk (hq ▸ e)
        rw [if_pos hq, if_neg hqk, if_pos hq]
      · rw [if_neg hq, if_neg hq]

theorem length_putPair (k : κ) (v : α) (ps : List (κ × α)) :
    (putPair k v ps).length = if (ps.lookup k).isSome then ps.length else ps.length + 1 := by
  induction ps with
  | nil => rfl
  | cons p ps ih =>
    rw [putPair, lookup_cons_eq_ite]
    by_cases hk : k = p.1
    · rw [if_pos hk.symm, if_pos hk]
      rfl
    · rw [if_neg (Ne.symm hk), if_neg hk, List.length_cons, ih]
      split <;> rfl

theorem mem_of_mem_putPair {k : κ} {v : α} {ps : List (κ × α)} {p : κ × α} (h : p ∈ putPair k v ps) :
    p = (k, v) ∨ p ∈ ps := by
  induction ps with
  | nil => exact .inl (List.mem_singleton.mp h)
  | cons q ps ih =>
    rw [putPair] at h
    split at h
    · obtain rfl | h := List.mem_cons.mp h
      · exact .inl rfl
      · exact .inr (List.mem_cons_of_mem _ h)
    · obtain rfl | h := List.mem_cons.mp h
      · exact .inr List.mem_cons_self
      · exact (ih h).imp id (List.mem_cons_of_mem _)

theorem putPair_of_lookup {k : κ} {v : α} {ps : List (κ × α)} (h : ps.lookup k = some v) :
    putPair k v ps = ps := by
  induction ps with
  | nil => cases h
  | cons p ps ih =>
    rw [lookup_cons_eq_ite] at h
    by_cases hk : k = p.1
    · rw [if_pos hk] at h
      rw [putPair, if_pos hk.symm, hk, ← Option.some.inj h]
    · rw [if_neg hk] at h
      rw [putPair, if_neg (Ne.symm hk), ih h]

theorem putPair_putPair (k : κ) (v w : α) (ps : List (κ × α)) :
    putPair k w (putPair k v ps) = putPair k w ps := by
  induction ps with
  | nil => simp [putPair]
  | cons p ps ih => by_cases hk : p.1 = k <;> simp [putPair, hk, ih]

theorem putPair_append {k : κ} {ps : List (κ × α)} (h : k ∉ ps.map Prod.fst) (v : α)
    (qs : List (κ × α)) : putPair k v (ps ++ qs) = ps ++ putPair k v qs := by
  induction ps with
  | nil => rfl
  | cons p ps ih =>
    rw [List.map_cons, List.mem_cons, not_or] at h
    rw [List.cons_append, putPair, if_neg (Ne.symm h.1), ih h.2, List.cons_append]

theorem putPair_of_notMem {k : κ} {ps : List (κ × α)} (h : k ∉ ps.map Prod.fst) (v : α) :
    putPair k v ps = ps ++ [(k, v)] := by
  have hend := putPair_append h v []
  rwa [List.append_nil] at hend

theorem lookup_eq_some_iff_mem {ps : List (κ × α)} (hn : (ps.map Prod.fst).Nodup) {k : κ} {v : α} :
    ps.lookup k = some v ↔ (k, v) ∈ ps := by
  induction ps with
  | nil => simp
  | cons p ps ih =>
    obtain ⟨hp, hps⟩ := List.nodup_cons.mp hn
    rw [lookup_cons_eq_ite, List.mem_cons]
    split
    · next hk =>
      have hno : (k, v) ∉ ps := fun h => hp (hk ▸ List.mem_map_of_mem h)
      constructor
      · intro h
        left
        rw [hk, ← Option.some.inj h]
      · rintro (h | h)
        · rw [← h]
        · exact absurd h hno
    · next hk =>
      rw [ih hps]
      constructor
      · exact .inr
      · rintro (h | h)
        · exact absurd (h ▸ rfl) hk
        · exact h

end FatJar
