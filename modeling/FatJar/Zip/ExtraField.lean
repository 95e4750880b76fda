import FatJar.Zip.CodePage
import FatJar.Zip.Crc32
import FatJar.Zip.Record

namespace FatJar.Zip

/-- The kinds of extra fields with a meaning; fields of other kinds are passed over. -/
inductive ExtraKind where
  | wideSizes
  | fileTimes
  | seal
  | unixTimes
  | comment
  | name
  | padding
deriving DecidableEq, Repr

def ExtraKind.ofNumber? : Nat → Option ExtraKind
  | 0x0001 => some .wideSizes
  | 0x000A => some .fileTimes
  | 0x9901 => some .seal
  | 0x5455 => some .unixTimes
  | 0x6375 => some .comment
  | 0x7075 => some .name
  | 0xA11E => some .padding
  | _ => none

structure Draft where
  record : Record
  comment : String

/-- Reads wider sizes and a wider start where the record refers to them; a field that is long enough
has all three. -/
def Draft.readWideSizes? (d : Draft) (length : Nat) (bs : Bytes) : Option (Draft × Bytes) := do
  let wide? (old : Nat) (bs : Bytes) : Option (Nat × Bytes) :=
    if 24 ≤ length || old == wideMark then readField? 8 bs else some (old, bs)
  let (size, bs) ← wide? d.record.size bs
  let (compressedSize, bs) ← wide? d.record.compressedSize bs
  let (start, bs) ← wide? d.record.start bs
  return ({ d with record := { d.record with size, compressedSize, start } }, bs)

def readFileTimes? (length : Nat) (bs : Bytes) : Option Bytes := do
  let (fields, bs) ← readFields? [4, 2, 2, 8, 8, 8] bs
  match fields with
  | [_, 1, 24, _, _, _] => if length = 32 then some bs else none
  | _ => none

def Draft.readSeal? (d : Draft) (length : Nat) (bs : Bytes) : Option (Draft × Bytes) := do
  let (fields, bs) ← readFields? [2, 2, 1, 2] bs
  match fields with
  | [version, 0x4541, strength, method] =>
    if length = 7 ∧ version ∈ [1, 2] ∧ strength ∈ [1, 2, 3] then
      some ({ d with record := { d.record with method, isSealed := true } }, bs)
    else none
  | _ => none

/-- Reads the times that the field is marked to have. A field with room for one has the first. -/
def readUnixTimes? (length : Nat) (bs : Bytes) : Option Bytes := do
  let (flags, bs) ← readField? 1 bs
  let marked := ((List.range 8).filter flags.testBit).length
  let one := length == 5
  let present := [flags.testBit 0 || one, flags.testBit 1 && !one, flags.testBit 2 && !one]
  if one || length == 1 + 4 * marked then
    (Bytes.cut? (4 * present.count true) bs).map Prod.snd
  else none

def readRestated? (old : Bytes) (length : Nat) (bs : Bytes) : Option (Bytes × Bytes) := do
  let (fields, bs) ← readFields? [1, 4] bs
  match fields with
  | [_, checkSum] =>
    if length < 5 then none
    else
      let (text, bs) ← Bytes.cut? (length - 5) bs
      if checkSum = (crc32 old).toNat && Utf8.isValid text then some (text, bs) else none
  | _ => none

def Draft.readExtra? (d : Draft) (kind : Option ExtraKind) (length : Nat) (bs : Bytes) :
    Option (Draft × Bytes) :=
  match kind with
  | some .wideSizes => d.readWideSizes? length bs
  | some .fileTimes => (readFileTimes? length bs).map (d, ·)
  | some .seal => d.readSeal? length bs
  | some .unixTimes => (readUnixTimes? length bs).map (d, ·)
  | some .comment => (readRestated? (utf8 d.comment) length bs).map fun (text, bs) =>
    ({ d with comment := textOf text }, bs)
  | some .name => (readRestated? d.record.rawName length bs).map fun (text, bs) =>
    ({ d with record := { d.record with rawName := text, name := textOf text } }, bs)
  | some .padding | none => (Bytes.cut? length bs).map fun (_, bs) => (d, bs)

/-- Reads extra fields to the end. A byte by itself is passed over there, and so is a kind without
meaning that has no length. -/
def Draft.readExtras? : (fuel : Nat) → Draft → Bytes → Option Draft
  | 0, d, _ => some d
  | fuel + 1, d, bs =>
    match readField? 2 bs with
    | none => some d
    | some (number, bs) =>
      let kind := ExtraKind.ofNumber? number
      match readField? 2 bs with
      | none => if kind.isNone then some d else none
      | some (length, bs) => do
        let (d, bs) ← d.readExtra? kind length bs
        readExtras? fuel d bs

end FatJar.Zip
