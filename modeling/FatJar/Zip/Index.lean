import FatJar.Keyed
import FatJar.Zip.ExtraField

namespace FatJar.Zip

def readText (isUtf8 : Bool) (bs : Bytes) : String :=
  if isUtf8 then textOf bs else decodeCodePage bs

/-- The method of data that is locked, which only an extra field tells more about. -/
def sealedMethod : Nat := 99

/-- Reads a record of the index; `offset` is where the archive begins in its file. -/
def readCentral? (offset : Nat) (bs : Bytes) : Option (Record × Bytes) := do
  let (fields, bs) ←
    readRecord? centralSignature [2, 2, 2, 2, 2, 2, 4, 4, 4, 2, 2, 2, 2, 2, 4, 4] bs
  match fields with
  | [_, _, flags, method, time, date, checkSum, compressedSize, size, nameLength, extraLength,
      commentLength, _, _, attributes, start] =>
    let (rawName, bs) ← Bytes.cut? nameLength bs
    let (extra, bs) ← Bytes.cut? extraLength bs
    let (rawComment, bs) ← Bytes.cut? commentLength bs
    let isUtf8 := flags.testBit 11
    let record : Record :=
      { rawName, name := readText isUtf8 rawName, flags, method, time, date, checkSum,
        compressedSize, size, attributes, start, isSealed := false }
    let d ← Draft.readExtras? extraLength ⟨record, readText isUtf8 rawComment⟩ extra
    let start := d.record.start + offset
    if start < UInt64.size ∧ (d.record.method = sealedMethod → d.record.isSealed) then
      some ({ d.record with start }, bs)
    else none
  | _ => none

/-- Where an index begins, how many records it has, and where the archive begins in its file. -/
structure Directory where
  start : Nat
  count : Nat
  offset : Nat
deriving DecidableEq, Repr

/-- The first place of `signature` that is at `low` or behind and ends before `high`. -/
def firstPlaces (file signature : Bytes) (low high : Nat) : List Nat :=
  ((placesFrom signature low ((file.take high).drop low) []).map Prod.fst).reverse

/-- The directory of an archive without entries, or with one that begins at a record of an entry. -/
def directory? (file : Bytes) (place disk indexDisk count total start : Nat) : Option Directory :=
  if disk ≠ indexDisk then none
  else if total = 0 then some ⟨start + (place - start), count, place - start⟩
  else
    (firstPlaces file centralSignature start place).head?.map fun found =>
      ⟨found, count, found - start⟩

/-- The directory that a wide record at `place` leads to, if it agrees with its locator. -/
def wideDirectoryAt? (file : Bytes) (locator indexDisk expected place : Nat) : Option Directory := do
  let (fields, _) ←
    readRecord? wideEndSignature [8, 2, 2, 4, 4, 8, 8, 8, 8] (file.drop place)
  match fields with
  | [length, _, _, disk, indexDisk', countHere, total, _, start] =>
    let offset := place - expected
    if indexDisk' = indexDisk && place + length + 12 = locator && 44 ≤ length
        && total * 46 + start ≤ place && countHere ≤ total && disk = indexDisk' then
      some ⟨start + offset, total, offset⟩
    else none
  | _ => none

/-- What a locator before the record at `place` says: the disk of the wide record, where it is
expected, and the number of disks. -/
def locator? (file : Bytes) (place : Nat) : Option (Nat × Nat × Nat) := do
  if place < 20 then none
  let (fields, _) ← readRecord? wideLocatorSignature [4, 8, 4] (file.drop (place - 20))
  match fields with
  | [indexDisk, expected, disks] => some (indexDisk, expected, disks)
  | _ => none

/-- The directory that the record at `place`, with the bytes from there, leads to. -/
def directoryAt? (file : Bytes) (place : Nat) (bs : Bytes) : Option Directory := do
  let (fields, rest) ← readRecord? endSignature [2, 2, 2, 2, 4, 4, 2] bs
  match fields with
  | [disk, indexDisk, countHere, total, size, start, commentLength] =>
    let _ ← Bytes.cut? commentLength rest
    let isWide := total = 0xFFFF || size = wideMark || start = wideMark
    let wide := if isWide then locator? file place else none
    match wide with
    | none => directory? file place disk indexDisk countHere total start
    | some (indexDisk, expected, disks) =>
      if disks > 1 then none
      else
        (firstPlaces file wideEndSignature expected (place - 20)).findSome?
          (wideDirectoryAt? file (place - 20) indexDisk expected)
  | _ => none

def readCentrals? (offset : Nat) : Nat → Bytes → List Record → Option (List Record)
  | 0, _, found => some found.reverse
  | n + 1, bs, found => do
    let (r, bs) ← readCentral? offset bs
    readCentrals? offset n bs (r :: found)

/-- The records of an archive, one for each name as it is spelled: a later record takes the place of
an earlier one. -/
def distinctRecords (rs : List Record) : List Record :=
  (rs.foldl (fun ps r => putPair r.rawName r ps) []).map Prod.snd

def index? (file : Bytes) : Option (List Record) :=
  ((places endSignature file).findSome? fun (place, bs) => do
    let d ← directoryAt? file place bs
    readCentrals? d.offset d.count (file.drop d.start) []).map distinctRecords

end FatJar.Zip
