import FatJar.Decimal.Rounding

namespace FatJar.Decimal

structure Binary64 where
  mantissa : Nat
  exponent : Int
deriving DecidableEq, Repr

def shifted (num den : Nat) (e : Int) : Nat × Nat :=
  if 0 ≤ e then (num, den * twoTo e.toNat) else (num * twoTo (-e).toNat, den)

namespace Binary64

def minExponent : Int := -1074

def maxExponent : Int := 971

def zero : Binary64 := ⟨0, minExponent⟩

/-- The exponent at which `num / den` has a whole part of 53 bits, if it is not too small. -/
def scaleOf (num den : Nat) : Int :=
  let e : Int := (num.log2 : Int) - den.log2 - 52
  let (a, b) := shifted num den e
  max minExponent (if a / b < twoTo 52 then e - 1 else e)

def ofRatio? (num den : Nat) : Option Binary64 :=
  let e := scaleOf num den
  let (a, b) := shifted num den e
  let m := roundDiv a b
  let x : Binary64 := if m = twoTo 53 then ⟨twoTo 52, e + 1⟩ else ⟨m, e⟩
  if m = 0 then some zero else if maxExponent < x.exponent then none else some x

def ratio (x : Binary64) : Nat × Nat :=
  if 0 ≤ x.exponent then (x.mantissa * twoTo x.exponent.toNat, 1)
  else (x.mantissa, twoTo (-x.exponent).toNat)

def mul? (x y : Binary64) : Option Binary64 :=
  ofRatio? (x.ratio.1 * y.ratio.1) (x.ratio.2 * y.ratio.2)

def div? (x y : Binary64) : Option Binary64 :=
  ofRatio? (x.ratio.1 * y.ratio.2) (x.ratio.2 * y.ratio.1)

def maxPower : Nat := 308

def powerOfTen (k : Nat) : Binary64 :=
  (ofRatio? (tenTo k) 1).getD zero

/-- `x / 10 ^ k` in steps that each round. Of a word nothing is left after two full steps. -/
def divPower? (x : Binary64) (k : Nat) : Option Binary64 :=
  if k ≤ maxPower then x.div? (powerOfTen k)
  else if k ≤ 2 * maxPower then
    (x.div? (powerOfTen maxPower)).bind (·.div? (powerOfTen (k - maxPower)))
  else some zero

def scale? (x : Binary64) (e : Int) : Option Binary64 :=
  if x.mantissa = 0 then some x
  else if e < 0 then x.divPower? (-e).toNat
  else if e.toNat ≤ maxPower then x.mul? (powerOfTen e.toNat)
  else none

end Binary64

end FatJar.Decimal
