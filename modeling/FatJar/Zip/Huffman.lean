namespace FatJar.Zip

/-- Bits to be read, the lowest one of a byte first; `held` are the `count` bits left of a byte. -/
structure Bits where
  bytes : List UInt8
  held : UInt8 := 0
  count : Nat := 0

namespace Bits

def next? (s : Bits) : Option (Nat × Bits) :=
  match s.count, s.bytes with
  | n + 1, _ => some ((s.held % 2).toNat, { s with held := s.held / 2, count := n })
  | 0, [] => none
  | 0, b :: bs => some ((b % 2).toNat, ⟨bs, b / 2, 7⟩)

def take? : Nat → Bits → Option (Nat × Bits)
  | 0, s => some (0, s)
  | n + 1, s => do
    let (b, s) ← s.next?
    let (v, s) ← take? n s
    return (b + 2 * v, s)

def align (s : Bits) : Bits :=
  ⟨s.bytes, 0, 0⟩

end Bits

structure PrefixCode where
  counts : List Nat
  symbols : Array Nat

def maxWordLength : Nat := 15

/-- The number of words that are left once all of these have been given away, each length halving
what a word is worth; `none` if there are too few words. -/
def wordsLeft? : (left : Nat) → List Nat → Option Nat
  | left, [] => some left
  | left, n :: counts => if 2 * left < n then none else wordsLeft? (2 * left - n) counts

namespace PrefixCode

/-- The code with a word of length `lengths[i]` for each symbol `i`, or none if that is zero. -/
def ofLengths (lengths : List Nat) : PrefixCode :=
  let ofLength (n : Nat) : List Nat := (lengths.zipIdx.filter (·.1 == n)).map (·.2)
  let groups := (List.range maxWordLength).map fun n => ofLength (n + 1)
  ⟨groups.map List.length, groups.flatten.toArray⟩

def isComplete (c : PrefixCode) : Bool :=
  wordsLeft? 1 c.counts == some 0

/-- A code may lack words when it has none at all, or a single one that is a bit long. -/
def isUsable (c : PrefixCode) : Bool :=
  c.isComplete || c.counts.all (· == 0) || c.counts == 1 :: List.replicate (maxWordLength - 1) 0

/-- Reads on in a word; `first` is the first word of the next length, and `index` the place of its
symbol. -/
def readFrom? (symbols : Array Nat) :
    List Nat → (word first index : Nat) → Bits → Option (Nat × Bits)
  | [], _, _, _, _ => none
  | n :: counts, word, first, index, s => do
    let (b, s) ← s.next?
    let word := word + b
    if word < first + n then return (← symbols[index + (word - first)]?, s)
    else readFrom? symbols counts (2 * word) (2 * (first + n)) (index + n) s

def read? (c : PrefixCode) (s : Bits) : Option (Nat × Bits) :=
  readFrom? c.symbols c.counts 0 0 0 s

end PrefixCode

end FatJar.Zip
