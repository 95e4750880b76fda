import FatJar.Text.Utf8

namespace FatJar.Bytes

def cut? (n : Nat) (bs : Bytes) : Option (Bytes × Bytes) :=
  let parts := bs.splitAt n
  if parts.1.length = n then some parts else none

def bigEndian (bs : Bytes) : Nat :=
  bs.foldl (fun n b => n * 256 + b.toNat) 0

def littleEndian (bs : Bytes) : Nat :=
  bs.foldr (fun b n => b.toNat + 256 * n) 0

def toBigEndian : (width n : Nat) → Bytes
  | 0, _ => []
  | width + 1, n => toBigEndian width (n / 256) ++ [UInt8.ofNat n]

def toLittleEndian : (width n : Nat) → Bytes
  | 0, _ => []
  | width + 1, n => UInt8.ofNat n :: toLittleEndian width (n / 256)

end FatJar.Bytes
