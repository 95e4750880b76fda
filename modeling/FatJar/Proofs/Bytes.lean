import FatJar.Bytes
import Mathlib.Algebra.Group.Nat.Defs
import Mathlib.Data.List.Induction

namespace FatJar.Bytes

variable {n width : Nat} {bs x y : Bytes}

theorem cut?_eq_some_iff : cut? n bs = some (x, y) ↔ bs = x ++ y ∧ x.length = n := by
  rw [cut?, List.splitAt_eq]
  constructor
  · intro h
    split at h
    · next hlength =>
      obtain ⟨rfl, rfl⟩ := Prod.mk.inj (Option.some.inj h)
      exact ⟨(List.take_append_drop n bs).symm, hlength⟩
    · cases h
  · rintro ⟨rfl, rfl⟩
    rw [List.take_left, List.drop_left]
    exact if_pos rfl

theorem cut?_eq_none_iff : cut? n bs = none ↔ bs.length < n := by
  rw [cut?, List.splitAt_eq]
  dsimp only
  rw [List.length_take]
  constructor
  · intro h
    split at h
    · cases h
    · omega
  · intro h
    exact if_neg (by omega)

theorem cut?_append (h : x.length = n) (y : Bytes) : cut? n (x ++ y) = some (x, y) :=
  cut?_eq_some_iff.mpr ⟨rfl, h⟩

theorem bigEndian_concat (bs : Bytes) (b : UInt8) : bigEndian (bs ++ [b]) = bigEndian bs * 256 + b.toNat :=
  List.foldl_append

theorem bigEndian_lt (bs : Bytes) : bigEndian bs < 256 ^ bs.length := by
  induction bs using List.reverseRecOn with
  | nil => decide
  | append_singleton bs b ih =>
    have hb := b.toNat_lt
    rw [bigEndian_concat, List.length_append, List.length_singleton, Nat.pow_succ]
    omega

@[simp]
theorem length_toBigEndian (width n : Nat) : (toBigEndian width n).length = width := by
  induction width generalizing n with
  | zero => rfl
  | succ width ih => rw [toBigEndian, List.length_append, List.length_singleton, ih]

theorem toBigEndian_bigEndian (bs : Bytes) : toBigEndian bs.length (bigEndian bs) = bs := by
  induction bs using List.reverseRecOn with
  | nil => rfl
  | append_singleton bs b ih =>
    have hb := b.toNat_lt
    have hhigh : (bigEndian bs * 256 + b.toNat) / 256 = bigEndian bs := by omega
    have hlow : UInt8.ofNat (bigEndian bs * 256 + b.toNat) = b := by
      apply UInt8.toNat_inj.mp
      rw [UInt8.toNat_ofNat']
      omega
    rw [bigEndian_concat, List.length_append, List.length_singleton, toBigEndian, hhigh, hlow, ih]

theorem bigEndian_toBigEndian (h : n < 256 ^ width) : bigEndian (toBigEndian width n) = n := by
  induction width generalizing n with
  | zero =>
    obtain rfl : n = 0 := by simpa using h
    rfl
  | succ width ih =>
    have hhigh : n / 256 < 256 ^ width := by
      rw [Nat.pow_succ] at h
      omega
    rw [toBigEndian, bigEndian_concat, ih hhigh, UInt8.toNat_ofNat']
    omega

end FatJar.Bytes
