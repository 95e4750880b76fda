import FatJar.ClassFile.Reader

namespace FatJar.ClassFile

def signed (bs : Bytes) : Int :=
  let n := Bytes.bigEndian bs
  let half := 1 <<< (8 * bs.length - 1)
  if n < half then n else (n : Int) - (2 * half : Nat)

/-- The bytes of operands after an opcode, for instructions in which these are fixed. -/
def operandWidth? (op : UInt8) : Option Nat :=
  if op ≤ 0x0F then some 0
  else if op = 0x10 || op = 0x12 then some 1
  else if op ≤ 0x14 then some 2
  else if op ≤ 0x19 then some 1
  else if op ≤ 0x35 then some 0
  else if op ≤ 0x3A then some 1
  else if op ≤ 0x83 then some 0
  else if op = 0x84 then some 2
  else if op ≤ 0x98 then some 0
  else if op ≤ 0xA8 then some 2
  else if op = 0xA9 then some 1
  else if op ≤ 0xAB then none
  else if op ≤ 0xB1 then some 0
  else if op ≤ 0xB8 then some 2
  else if op ≤ 0xBA then some 4
  else if op = 0xBB then some 2
  else if op = 0xBC then some 1
  else if op = 0xBD then some 2
  else if op ≤ 0xBF then some 0
  else if op ≤ 0xC1 then some 2
  else if op ≤ 0xC3 then some 0
  else if op = 0xC4 then none
  else if op = 0xC5 then some 3
  else if op ≤ 0xC7 then some 2
  else if op ≤ 0xC9 then some 4
  else if op = 0xCA || op ≥ 0xFE then some 0
  else none

def isJump (op : UInt8) : Bool :=
  (0x99 ≤ op && op ≤ 0xA8) || (0xC6 ≤ op && op ≤ 0xC9)

/-- The operands of `wide`: an opcode that uses a local variable, with an index of two bytes. -/
def wideOperandWidth? (op : UInt8) : Option Nat :=
  if (0x15 ≤ op && op ≤ 0x19) || (0x36 ≤ op && op ≤ 0x3A) || op = 0xA9 then some 2
  else if op = 0x84 then some 4
  else none

/-- Operands that have one meaning only: the types of the elements of an array, and bytes that are
kept free behind a reference to a method. -/
def areSoundOperands (op : UInt8) (operands : Bytes) : Bool :=
  if op = 0xB9 then operands.drop 3 == [0]
  else if op = 0xBA then operands.drop 2 == [0, 0]
  else if op = 0xBC then operands.all fun t => 4 ≤ t && t ≤ 11
  else true

def words : Nat → Bytes → List Int
  | 0, _ => []
  | n + 1, bs => signed (bs.take 4) :: words n (bs.drop 4)

def switchPairs : Nat → Bytes → List (Int × Int)
  | 0, _ => []
  | n + 1, bs =>
    (signed (bs.take 4), signed ((bs.drop 4).take 4)) :: switchPairs n (bs.drop 8)

def switchTargets : List (Int × Int) → List Int
  | [] => []
  | (key, offset) :: pairs =>
    if pairs.any (·.1 == key) then switchTargets pairs else offset :: switchTargets pairs

/-- An instruction: the bytes that it takes, and the offsets of its jumps. -/
structure Instruction where
  width : Nat
  jumps : List Int

/-- A switch at `pos` whose operands are `bs`; they begin where a multiple of four does. -/
def switch? (isTable : Bool) (pos : Nat) (bs : Bytes) : Option Instruction := do
  let gap := 3 - pos % 4
  let (_, bs) ← Bytes.cut? gap bs
  let (default, bs) ← Bytes.cut? 4 bs
  if isTable then
    let (low, bs) ← Bytes.cut? 4 bs
    let (high, bs) ← Bytes.cut? 4 bs
    let count := (signed high - signed low + 1).toNat
    let (entries, _) ← Bytes.cut? (4 * count) bs
    return ⟨13 + gap + 4 * count, signed default :: words count entries⟩
  else
    let (count, bs) ← Bytes.cut? 4 bs
    let count := (signed count).toNat
    let (entries, _) ← Bytes.cut? (8 * count) bs
    return ⟨9 + gap + 8 * count, signed default :: switchTargets (switchPairs count entries)⟩

def instruction? (pos : Nat) : Bytes → Option Instruction
  | [] => none
  | op :: bs =>
    if op = 0xAA || op = 0xAB then switch? (op == 0xAA) pos bs
    else if op = 0xC4 then
      match bs with
      | [] => none
      | wideOp :: bs => do
        let width ← wideOperandWidth? wideOp
        let _ ← Bytes.cut? width bs
        return ⟨2 + width, []⟩
    else do
      let width ← operandWidth? op
      let (operands, _) ← Bytes.cut? width bs
      if areSoundOperands op operands then
        return ⟨1 + width, if isJump op then [signed operands] else []⟩
      else none

/-- The flow of code: for each place whether an instruction begins there, and the places that jumps
go to. -/
structure Flow where
  starts : Array Bool := #[]
  targets : List Int := []

def Flow.isStart (f : Flow) (place : Nat) : Bool :=
  f.starts.getD place false

def lastPlace : Nat := 65535

/-- The flow `f` with that of more code behind it; `fuel` is at least the length of that. -/
def Flow.extend? : (fuel : Nat) → Flow → Bytes → Option Flow
  | _, f, [] => some f
  | 0, _, _ :: _ => none
  | fuel + 1, f, b :: bs =>
    let pos := f.starts.size
    match instruction? pos (b :: bs) with
    | none => none
    | some i =>
      if lastPlace < pos then none
      else
        let starts := f.starts.push true ++ Array.replicate (i.width - 1) false
        let targets := i.jumps.map fun (o : Int) => (pos : Int) + o
        extend? fuel ⟨starts, targets ++ f.targets⟩ ((b :: bs).drop i.width)

def Flow.ofCode? (code : Bytes) : Option Flow :=
  match Flow.extend? code.length {} code with
  | none => none
  | some f => if f.targets.all fun n => 0 ≤ n && f.isStart n.toNat then some f else none

end FatJar.ClassFile
