import FatJar.Bytes
import FatJar.Zip.Huffman

namespace FatJar.Zip

inductive BlockPart where
  | literal (b : UInt8)
  | copy (length distance : Nat)
  | stop
deriving DecidableEq, Repr

/-- For each symbol from 257 on: the shortest length that it stands for, and the number of further
bits. -/
def lengthSymbols : Array (Nat × Nat) :=
  #[(3, 0), (4, 0), (5, 0), (6, 0), (7, 0), (8, 0), (9, 0), (10, 0), (11, 1), (13, 1), (15, 1),
    (17, 1), (19, 2), (23, 2), (27, 2), (31, 2), (35, 3), (43, 3), (51, 3), (59, 3), (67, 4),
    (83, 4), (99, 4), (115, 4), (131, 5), (163, 5), (195, 5), (227, 5), (258, 0)]

/-- For each symbol: the shortest distance that it stands for, and the number of further bits. -/
def distanceSymbols : Array (Nat × Nat) :=
  #[(1, 0), (2, 0), (3, 0), (4, 0), (5, 1), (7, 1), (9, 2), (13, 2), (17, 3), (25, 3), (33, 4),
    (49, 4), (65, 5), (97, 5), (129, 6), (193, 6), (257, 7), (385, 7), (513, 8), (769, 8),
    (1025, 9), (1537, 9), (2049, 10), (3073, 10), (4097, 11), (6145, 11), (8193, 12), (12289, 12),
    (16385, 13), (24577, 13)]

def readScaled? (table : Array (Nat × Nat)) (symbol : Nat) (s : Bits) : Option (Nat × Bits) := do
  let (base, extra) ← table[symbol]?
  let (n, s) ← s.take? extra
  return (base + n, s)

structure BlockCodes where
  literals : PrefixCode
  distances : PrefixCode

def BlockCodes.read? (c : BlockCodes) (s : Bits) : Option (BlockPart × Bits) := do
  let (symbol, s) ← c.literals.read? s
  if symbol < 256 then return (.literal (UInt8.ofNat symbol), s)
  else if symbol = 256 then return (.stop, s)
  else
    let (length, s) ← readScaled? lengthSymbols (symbol - 257) s
    let (symbol, s) ← c.distances.read? s
    let (distance, s) ← readScaled? distanceSymbols symbol s
    return (.copy length distance, s)

def fixedCodes : BlockCodes where
  literals := .ofLengths
    (List.replicate 144 8 ++ List.replicate 112 9 ++ List.replicate 24 7 ++ List.replicate 8 8)
  distances := .ofLengths (List.replicate 30 5)

def lengthOrder : List Nat :=
  [16, 17, 18, 0, 8, 7, 9, 6, 10, 5, 11, 4, 12, 3, 13, 2, 14, 1, 15]

def readNumbers? (width : Nat) : Nat → Bits → Option (List Nat × Bits)
  | 0, s => some ([], s)
  | n + 1, s => do
    let (v, s) ← s.take? width
    let (vs, s) ← readNumbers? width n s
    return (v :: vs, s)

/-- Reads code lengths until there are `total`; `lengths` has the last one first. Symbols from 16 on
repeat a length, or zero. -/
def readLengths? (code : PrefixCode) (total : Nat) :
    (fuel : Nat) → List Nat → Bits → Option (List Nat × Bits)
  | 0, _, _ => none
  | fuel + 1, lengths, s => do
    if lengths.length = total then return (lengths.reverse, s)
    let (symbol, s) ← code.read? s
    if symbol < 16 then readLengths? code total fuel (symbol :: lengths) s
    else
      let (value, (n, s)) ← match symbol, lengths with
        | 16, [] => none
        | 16, last :: _ => (last, ·) <$> readScaled? #[(3, 2)] 0 s
        | 17, _ => (0, ·) <$> readScaled? #[(3, 3)] 0 s
        | _, _ => (0, ·) <$> readScaled? #[(11, 7)] 0 s
      if total < lengths.length + n then none
      else readLengths? code total fuel (List.replicate n value ++ lengths) s

def readCodes? (s : Bits) : Option (BlockCodes × Bits) := do
  let (literals, s) ← s.take? 5
  let (distances, s) ← s.take? 5
  let (lengths, s) ← s.take? 4
  let literals := literals + 257
  let distances := distances + 1
  guard (literals ≤ 286 ∧ distances ≤ 30)
  let (given, s) ← readNumbers? 3 (lengths + 4) s
  let pairs := lengthOrder.zip given
  let code := PrefixCode.ofLengths ((List.range 19).map fun n => (pairs.lookup n).getD 0)
  guard (code.isComplete || code.counts.all (· == 0))
  let total := literals + distances
  let (all, s) ← readLengths? code total (total + 1) [] s
  guard (all[256]? != some 0)
  let codes : BlockCodes := ⟨.ofLengths (all.take literals), .ofLengths (all.drop literals)⟩
  guard (codes.literals.isUsable && codes.distances.isUsable)
  return (codes, s)

/-- Puts out again what stands `distance` bytes before the end. The copy may reach into itself. -/
def copyBack (distance : Nat) : Nat → Array UInt8 → Array UInt8
  | 0, out => out
  | n + 1, out => copyBack distance n (out.push (out.getD (out.size - distance) 0))

/-- Puts out the parts of a compressed block. Each takes a bit at least, so that with `fuel` above
the number of bits the bits run out first. -/
def inflateParts? (codes : BlockCodes) :
    (fuel : Nat) → Bits → Array UInt8 → Option (Array UInt8 × Bits)
  | 0, _, _ => none
  | fuel + 1, s, out =>
    match codes.read? s with
    | none => none
    | some (.stop, s) => some (out, s)
    | some (.literal b, s) => inflateParts? codes fuel s (out.push b)
    | some (.copy length distance, s) =>
      if distance ≤ out.size then inflateParts? codes fuel s (copyBack distance length out)
      else none

def inflateStored? (s : Bits) (out : Array UInt8) : Option (Array UInt8 × Bits) :=
  match s.align.bytes with
  | a :: b :: c :: d :: rest =>
    let size := Bytes.littleEndian [a, b]
    if size + Bytes.littleEndian [c, d] = 0xFFFF then
      (Bytes.cut? size rest).map fun (payload, rest) =>
        (payload.foldl Array.push out, ⟨rest, 0, 0⟩)
    else none
  | _ => none

def readBlockStart? (s : Bits) : Option (Bool × Nat × Bits) := do
  let (last, s) ← s.take? 1
  let (kind, s) ← s.take? 2
  return (last == 1, kind, s)

def inflateBlock? (fuel kind : Nat) (s : Bits) (out : Array UInt8) :
    Option (Array UInt8 × Bits) :=
  match kind with
  | 0 => inflateStored? s out
  | 1 => inflateParts? fixedCodes fuel s out
  | 2 =>
    match readCodes? s with
    | none => none
    | some (codes, s) => inflateParts? codes fuel s out
  | _ => none

def inflateBlocks? (items : Nat) : (fuel : Nat) → Bits → Array UInt8 → Option (Array UInt8)
  | 0, _, _ => none
  | fuel + 1, s, out =>
    match readBlockStart? s with
    | none => none
    | some (last, kind, s) =>
      match inflateBlock? items kind s out with
      | none => none
      | some (out, s) => if last then some out else inflateBlocks? items fuel s out

def inflate? (bs : Bytes) : Option Bytes :=
  let fuel := 8 * bs.length + 1
  (inflateBlocks? fuel fuel ⟨bs, 0, 0⟩ #[]).map Array.toList

end FatJar.Zip
