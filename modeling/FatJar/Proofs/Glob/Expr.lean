import FatJar.Glob.Expr
import FatJar.Proofs.Text.Utf8

namespace FatJar.Glob.Expr

variable {e f : Expr} {s : ByteSet} {b : UInt8} {u v w : Bytes}

@[simp]
theorem matches_fail_iff : ¬ Matches fail w :=
  nofun

@[simp]
theorem matches_empty_iff : Matches empty w ↔ w = [] := by
  constructor
  · rintro ⟨⟩
    rfl
  · rintro rfl
    exact .empty

@[simp]
theorem matches_byte_iff : Matches (byte s) w ↔ ∃ b, s.contains b = true ∧ w = [b] := by
  constructor
  · rintro (_ | hb)
    exact ⟨_, hb, rfl⟩
  · rintro ⟨b, hb, rfl⟩
    exact .byte hb

theorem matches_seq_iff : Matches (seq e f) w ↔ ∃ u v, Matches e u ∧ Matches f v ∧ w = u ++ v := by
  constructor
  · rintro (_ | _ | ⟨he, hf⟩)
    exact ⟨_, _, he, hf, rfl⟩
  · rintro ⟨u, v, he, hf, rfl⟩
    exact .seq he hf

@[simp]
theorem matches_alt_iff : Matches (alt e f) w ↔ Matches e w ∨ Matches f w := by
  constructor
  · rintro (_ | _ | _ | he | hf)
    · exact .inl he
    · exact .inr hf
  · rintro (he | hf)
    · exact .left he
    · exact .right hf

theorem matches_many_cons_iff : Matches (many e) (b :: w) ↔
    ∃ u v, Matches e (b :: u) ∧ Matches (many e) v ∧ w = u ++ v := by
  constructor
  · intro h
    generalize hm : many e = m, hbw : b :: w = bw at h
    induction h with
    | none => cases hbw
    | more hu hv _ ihv =>
      obtain rfl := many.inj hm
      obtain ⟨rfl, rfl⟩ | ⟨u, rfl, rfl⟩ := List.cons_eq_append_iff.mp hbw
      -- A turn without bytes adds nothing.
      · exact ihv rfl rfl
      · exact ⟨u, _, hu, hv, rfl⟩
    | _ => cases hm
  · rintro ⟨u, v, hu, hv, rfl⟩
    exact .more hu hv

theorem nullable_iff : e.nullable = true ↔ Matches e [] := by
  induction e with
  | fail => simp [nullable]
  | empty => simp [nullable]
  | byte s => simp [nullable]
  | seq e f ihe ihf => simp [nullable, matches_seq_iff, ihe, ihf]
  | alt e f ihe ihf => simp [nullable, ihe, ihf]
  | many e => simp [nullable, Matches.none]

theorem matches_seq'_iff : Matches (seq' e f) w ↔ Matches (seq e f) w := by
  rw [seq'.eq_def]
  split <;> simp [matches_seq_iff]

theorem matches_of_isAlternativeOf (h : e.isAlternativeOf f = true) (he : Matches e w) :
    Matches f w := by
  induction f with
  | alt f g ihf ihg =>
    rw [isAlternativeOf, Bool.or_eq_true] at h
    exact matches_alt_iff.mpr (h.imp ihf ihg)
  | _ =>
    obtain rfl := eq_of_beq h
    exact he

theorem matches_alt'_iff : Matches (alt' e f) w ↔ Matches e w ∨ Matches f w := by
  fun_induction alt' e f with
  | case1 f => simp
  | case2 e g f ihg ihe => rw [ihe, ihg, matches_alt_iff, or_assoc]
  | case3 e => simp
  | case4 e f _ _ _ hmem => exact ⟨.inr, (·.elim (matches_of_isAlternativeOf hmem) id)⟩
  | case5 e f => exact matches_alt_iff

theorem matches_derive_iff : Matches (e.derive b) w ↔ Matches e (b :: w) := by
  induction e generalizing w with
  | fail => simp [derive]
  | empty => simp [derive]
  | byte s =>
    have hbyte : Matches (byte s) (b :: w) ↔ s.contains b = true ∧ w = [] := by
      rw [matches_byte_iff]
      constructor
      · rintro ⟨c, hc, hw⟩
        obtain ⟨rfl, rfl⟩ := List.cons.inj hw
        exact ⟨hc, rfl⟩
      · rintro ⟨hb, rfl⟩
        exact ⟨b, hb, rfl⟩
    rw [derive, hbyte]
    split
    · next hb => simp [hb]
    · next hb => simp [hb]
  | seq e f ihe ihf =>
    -- The byte is the first of what `e` takes, or `e` takes nothing and it is the first of what `f` does.
    have hseq : Matches (seq e f) (b :: w) ↔
        (∃ u v, Matches e (b :: u) ∧ Matches f v ∧ w = u ++ v) ∨
          Matches e [] ∧ Matches f (b :: w) := by
      rw [matches_seq_iff]
      constructor
      · rintro ⟨u, v, he, hf, hw⟩
        obtain ⟨rfl, rfl⟩ | ⟨u, rfl, rfl⟩ := List.cons_eq_append_iff.mp hw
        · exact .inr ⟨he, hf⟩
        · exact .inl ⟨u, v, he, hf, rfl⟩
      · rintro (⟨u, v, he, hf, rfl⟩ | ⟨he, hf⟩)
        · exact ⟨b :: u, v, he, hf, rfl⟩
        · exact ⟨[], b :: w, he, hf, rfl⟩
    have hfirst : Matches (seq' (e.derive b) f) w ↔
        ∃ u v, Matches e (b :: u) ∧ Matches f v ∧ w = u ++ v := by
      simp only [matches_seq'_iff, matches_seq_iff, ihe]
    rw [derive, hseq, ← nullable_iff]
    split
    · next hnull => rw [matches_alt'_iff, hfirst, ihf, and_iff_right hnull]
    · next hnull => rw [hfirst, or_iff_left fun h => hnull h.1]
  | alt e f ihe ihf => rw [derive, matches_alt'_iff, ihe, ihf, matches_alt_iff]
  | many e ihe => simp only [derive, matches_seq'_iff, matches_seq_iff, ihe, matches_many_cons_iff]

/-- Derivatives by all bytes of `w` leave an expression that takes nothing more exactly if `e` denotes `w`. -/
theorem matchesBytes_iff : e.matchesBytes w = true ↔ Matches e w := by
  induction w generalizing e with
  | nil => exact nullable_iff
  | cons b w ih => exact ih.trans matches_derive_iff

theorem matches_bytes_iff : Matches (bytes u) w ↔ w = u := by
  induction u generalizing w with
  | nil => exact matches_empty_iff
  | cons b u ih =>
    have hbyte (c : UInt8) : ByteSet.contains ⟨false, [(b, b)]⟩ c = true ↔ c = b := by
      simp [ByteSet.contains, UInt8.le_antisymm_iff, and_comm]
    change Matches (seq _ (bytes u)) w ↔ _
    simp [matches_seq_iff, ih, hbyte]

end FatJar.Glob.Expr
