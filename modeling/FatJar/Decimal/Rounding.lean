namespace FatJar.Decimal

def twoTo (n : Nat) : Nat :=
  Nat.pow 2 n

def tenTo (n : Nat) : Nat :=
  Nat.pow 10 n

def roundDiv (num den : Nat) : Nat :=
  let q := num / den
  let twice := 2 * (num % den)
  if den < twice || (twice == den && q % 2 == 1) then q + 1 else q

theorem roundDiv_near (num den : Nat) (h : 0 < den) :
    2 * (roundDiv num den * den) ≤ 2 * num + den ∧ 2 * num ≤ 2 * (roundDiv num den * den) + den := by
  have e := Nat.div_add_mod' num den
  have l := Nat.mod_lt num h
  unfold roundDiv
  simp only [Bool.or_eq_true, decide_eq_true_eq, Bool.and_eq_true, beq_iff_eq]
  split
  · rw [Nat.add_mul]
    omega
  · omega

def fixed (places num den : Nat) : String :=
  let n := roundDiv (num * tenTo places) den
  let fraction := Nat.toDigits 10 (n % tenTo places)
  let zeros := List.replicate (places - fraction.length) '0'
  String.ofList (Nat.toDigits 10 (n / tenTo places) ++ '.' :: zeros ++ fraction)

end FatJar.Decimal
