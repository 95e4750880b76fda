import FatJar.Bytes

namespace FatJar.Zip

def readField? (width : Nat) (bs : Bytes) : Option (Nat × Bytes) :=
  (Bytes.cut? width bs).map fun (field, bs) => (Bytes.littleEndian field, bs)

def readFields? : List Nat → Bytes → Option (List Nat × Bytes)
  | [], bs => some ([], bs)
  | w :: ws, bs => do
    let (field, bs) ← readField? w bs
    let (fields, bs) ← readFields? ws bs
    return (field :: fields, bs)

def readRecord? (signature : Bytes) (widths : List Nat) (bs : Bytes) :
    Option (List Nat × Bytes) :=
  match signature.isPrefixOf? bs with
  | none => none
  | some bs => readFields? widths bs

/-- The places of `signature` from `i` on, with the bytes from there, the last place first. -/
def placesFrom (signature : Bytes) : Nat → Bytes → List (Nat × Bytes) → List (Nat × Bytes)
  | _, [], found => found
  | i, b :: bs, found =>
    placesFrom signature (i + 1) bs
      (if signature.isPrefixOf (b :: bs) then (i, b :: bs) :: found else found)

def places (signature bs : Bytes) : List (Nat × Bytes) :=
  placesFrom signature 0 bs []

def localSignature : Bytes := [0x50, 0x4B, 3, 4]

def centralSignature : Bytes := [0x50, 0x4B, 1, 2]

def endSignature : Bytes := [0x50, 0x4B, 5, 6]

def wideEndSignature : Bytes := [0x50, 0x4B, 6, 6]

def wideLocatorSignature : Bytes := [0x50, 0x4B, 6, 7]

structure Record where
  rawName : Bytes
  name : String
  flags : Nat
  method : Nat
  time : Nat
  date : Nat
  checkSum : Nat
  compressedSize : Nat
  size : Nat
  attributes : Nat
  start : Nat
  isSealed : Bool
deriving DecidableEq, Repr

def wideMark : Nat := 0xFFFFFFFF

def Record.isEncrypted (r : Record) : Bool :=
  r.flags.testBit 0 || r.isSealed

end FatJar.Zip
