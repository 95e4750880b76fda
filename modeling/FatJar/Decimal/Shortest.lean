import FatJar.Decimal.Binary64

namespace FatJar.Decimal

structure Scaled where
  digits : Nat
  exponent : Int
deriving DecidableEq, Repr

/-- The decimal on the grid of `10 ^ k` that reads back as `x`, the nearer one if there are two.
All that is nearer to `x` than to any other number reads back as `x`, and with an even mantissa so
do the two points halfway to its neighbours. -/
def onGrid? (x : Binary64) (k : Int) : Option Scaled :=
  let twos := (2 - x.exponent).toNat
  let tens := (-k).toNat
  let unit := tenTo (k + tens).toNat * twoTo twos
  let quarter := twoTo (x.exponent - 2 + twos).toNat * tenTo tens
  let value := 4 * x.mantissa * quarter
  let below := if x.mantissa = twoTo 52 && x.exponent != Binary64.minExponent then 1 else 2
  let low := (4 * x.mantissa - below) * quarter
  let high := (4 * x.mantissa + 2) * quarter
  let even := x.mantissa % 2 == 0
  let reads (d : Nat) : Bool :=
    (low < d * unit && d * unit < high) || (even && (d * unit == low || d * unit == high))
  let d := value / unit
  let nearer := roundDiv value unit
  if reads nearer then some ⟨nearer, k⟩
  else if reads d then some ⟨d, k⟩
  else if reads (d + 1) then some ⟨d + 1, k⟩
  else none

def topGrid : Int := 309

def shortest (x : Binary64) : Scaled :=
  ((List.range 634).findSome? fun i => onGrid? x (topGrid - (i : Nat))).getD ⟨0, 0⟩

/-- How a real number is written: with a point while its first digit has a place from `10 ^ low`
to `10 ^ high`, and otherwise with an exponent. -/
structure RealFormat where
  low : Int
  high : Int

def pointed (ds : List Char) (places : Int) : List Char :=
  if places ≤ 0 then ['0', '.'] ++ List.replicate (-places).toNat '0' ++ ds
  else
    let whole := ds.take places.toNat
    let zeros := List.replicate (places.toNat - ds.length) '0'
    let fraction := ds.drop places.toNat
    whole ++ zeros ++ ['.'] ++ (if fraction.isEmpty then ['0'] else fraction)

def RealFormat.show (f : RealFormat) (d : Scaled) : String :=
  if d.digits = 0 then "0.0"
  else
    let ds := Nat.toDigits 10 d.digits
    let first := d.exponent + ds.length - 1
    if f.low ≤ first && first ≤ f.high then String.ofList (pointed ds (first + 1))
    else
      let sign := if first < 0 then '-' else '+'
      let fraction := if ds.length = 1 then [] else '.' :: ds.drop 1
      String.ofList (ds.take 1 ++ fraction ++ ['e', sign] ++ Nat.toDigits 10 first.natAbs)

end FatJar.Decimal
