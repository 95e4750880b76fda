import FatJar.Decimal.Shortest

namespace FatJar.Json

/-- A numeral: digits have values below ten and stand in the order written. -/
structure Numeral where
  negative : Bool := false
  whole : List Nat := []
  fraction : Option (List Nat) := none
  exponent : Option (Bool × List Nat) := none
deriving DecidableEq, Repr

inductive Number where
  | whole (n : Int)
  | real (negative : Bool) (size : Decimal.Binary64)
  | tooLarge
deriving DecidableEq, Repr

def maxWord : Nat := UInt64.size - 1

/-- Appends digits to a number as long as a word holds it; with it, how many there were. -/
def takeDigits (n : Nat) : List Nat → Nat × Nat
  | [] => (n, 0)
  | d :: ds =>
    if n * 10 + d ≤ maxWord then
      let (m, taken) := takeDigits (n * 10 + d) ds
      (m, taken + 1)
    else (n, 0)

def natOfDigits (ds : List Nat) : Nat :=
  ds.foldl (fun n d => n * 10 + d) 0

def maxExponent : Nat := 2147483647

namespace Numeral

def fractionDigits (x : Numeral) : List Nat :=
  x.fraction.getD []

def exponent? (x : Numeral) : Option Int :=
  match x.exponent with
  | none => some 0
  | some (negative, ds) =>
    let n := natOfDigits ds
    if maxExponent < n then none else some (if negative then -n else n)

/-- The size of the numeral as a real number, unless it is too large: the leading digits that a
word holds, scaled by the exponent and the place of the last of them. -/
def size? (x : Numeral) : Option Decimal.Binary64 :=
  let (n, taken) := takeDigits 0 x.whole
  let (n, places) := takeDigits n x.fractionDigits
  match x.exponent? with
  | none => if n = 0 || x.exponent.any (·.1) then some Decimal.Binary64.zero else none
  | some e =>
    (Decimal.Binary64.ofRatio? n 1).bind (·.scale? (e + (x.whole.length - taken : Nat) - places))

def real (x : Numeral) : Number :=
  match x.size? with
  | none => .tooLarge
  | some size => .real x.negative size

def number (x : Numeral) : Number :=
  let n := natOfDigits x.whole
  if x.fraction.isSome || x.exponent.isSome || maxWord < n then x.real
  else if x.negative then
    if n = 0 || UInt64.size / 2 < n then x.real else .whole (-n)
  else .whole n

end Numeral

def realFormat : Decimal.RealFormat where
  low := -5
  high := 15

def realText (negative : Bool) (size : Decimal.Binary64) : String :=
  (if negative then "-" else "") ++ realFormat.show (Decimal.shortest size)

end FatJar.Json
