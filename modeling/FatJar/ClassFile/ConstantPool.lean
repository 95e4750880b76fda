import FatJar.Bytes

namespace FatJar.ClassFile

inductive PoolError where
  | badMagic
  | truncated
  | unknownTag (tag : UInt8) (index : Nat)
deriving DecidableEq, Repr

def PoolError.message : PoolError → String
  | badMagic => "not a class file"
  | truncated => "truncated class file"
  | unknownTag tag index =>
    "unknown constant pool tag " ++ toString tag.toNat ++ " at index " ++ toString index

inductive Constant where
  | utf8 (value : Bytes)
  | fixed (tag : UInt8) (body : Bytes)
deriving DecidableEq, Repr

def fixedWidth? (tag : UInt8) : Option Nat :=
  match tag with
  | 3 | 4 => some 4
  | 5 | 6 => some 8
  | 7 | 8 | 16 | 19 | 20 => some 2
  | 9 | 10 | 11 | 12 => some 4
  | 15 => some 3
  | 17 | 18 => some 4
  | _ => none

namespace Constant

def slots : Constant → Nat
  | fixed 5 _ | fixed 6 _ => 2
  | _ => 1

def utf8? : Constant → Option Bytes
  | utf8 value => some value
  | fixed _ _ => none

def toBytes : Constant → Bytes
  | utf8 value => 1 :: (Bytes.toBigEndian 2 value.length ++ value)
  | fixed tag body => tag :: body

/-- The constant at the head of `bs`, which is to be the one at `index`, and what follows it. -/
def read (index : Nat) : Bytes → Except PoolError (Constant × Bytes)
  | [] => .error .truncated
  | tag :: bs =>
    if tag = 1 then
      match Bytes.cut? 2 bs with
      | none => .error .truncated
      | some (len, bs) =>
        match Bytes.cut? (Bytes.bigEndian len) bs with
        | none => .error .truncated
        | some (value, rest) => .ok (utf8 value, rest)
    else
      match fixedWidth? tag with
      | none => .error (.unknownTag tag index)
      | some width =>
        match Bytes.cut? width bs with
        | none => .error .truncated
        | some (body, rest) => .ok (fixed tag body, rest)

end Constant

/-- A class file cut at its constants, as far as these can be read. -/
structure Pool where
  header : Bytes
  constants : List Constant
  /-- What follows the pool, or why the pool cannot be read to its end. -/
  rest : Except PoolError Bytes

namespace Pool

/-- Reads constants into `slots` slots, the first of which is `index`; those read before are in
`acc`, the last one first. -/
def readFrom (header : Bytes) : (slots index : Nat) → (acc : List Constant) → Bytes → Pool
  | 0, _, acc, bs => ⟨header, acc.reverse, .ok bs⟩
  | n + 1, index, acc, bs =>
    match Constant.read index bs with
    | .error e => ⟨header, acc.reverse, .error e⟩
    | .ok (c, rest) =>
      if c.slots = 2 then
        match n with
        | 0 => readFrom header 0 (index + 2) (c :: acc) rest
        | m + 1 => readFrom header m (index + 2) (c :: acc) rest
      else readFrom header n (index + 1) (c :: acc) rest
  termination_by structural slots => slots

def magic : Bytes := [0xCA, 0xFE, 0xBA, 0xBE]

/-- The first index of a pool is 1, and the number before the pool is one more than its last. -/
def ofBytes (bs : Bytes) : Pool :=
  match Bytes.cut? 4 bs with
  | none => ⟨[], [], .error .truncated⟩
  | some (m, afterMagic) =>
    if m ≠ magic then ⟨[], [], .error .badMagic⟩
    else
      match Bytes.cut? 4 afterMagic with
      | none => ⟨[], [], .error .truncated⟩
      | some (version, afterVersion) =>
        match Bytes.cut? 2 afterVersion with
        | none => ⟨[], [], .error .truncated⟩
        | some (count, body) =>
          readFrom (m ++ version ++ count) (Bytes.bigEndian count - 1) 1 [] body

def toBytes (p : Pool) (rest : Bytes) : Bytes :=
  p.header ++ p.constants.flatMap Constant.toBytes ++ rest

end Pool

def utf8Constants (bs : Bytes) : Except PoolError (List Bytes) :=
  let p := Pool.ofBytes bs
  p.rest.map (fun _ => p.constants.filterMap Constant.utf8?)

inductive ReplaceError where
  | pool (e : PoolError)
  | utf8TooLong (index length : Nat)
deriving DecidableEq, Repr

def ReplaceError.message : ReplaceError → String
  | pool e => e.message
  | utf8TooLong index length =>
    "constant #" ++ toString index ++ " would grow to " ++ toString length ++ " bytes"

structure Replaced where
  bytes : Bytes
  replaced : Nat
deriving DecidableEq, Repr

/-- The longest value that the two length bytes of a Utf8 constant can announce. -/
def maxUtf8Length : Nat := 65535

/-- Replaces Utf8 constants by what `f` gives for them. The constants done before are in `acc`, the
last one first, and `replaced` of them were replaced; the next one is at `index`. -/
def replaceFrom (f : Bytes → Option Bytes) (index replaced : Nat) (acc : List Constant) :
    List Constant → Except ReplaceError (List Constant × Nat)
  | [] => .ok (acc.reverse, replaced)
  | c :: cs =>
    match c.utf8?.bind f with
    | none => replaceFrom f (index + c.slots) replaced (c :: acc) cs
    | some value =>
      if value.length ≤ maxUtf8Length then
        replaceFrom f (index + c.slots) (replaced + 1) (.utf8 value :: acc) cs
      else .error (.utf8TooLong index value.length)

/-- Replaces each Utf8 constant for which `f` gives a value. Of two faults the one that comes
earlier in the pool is reported. -/
def replaceUtf8 (f : Bytes → Option Bytes) (bs : Bytes) : Except ReplaceError Replaced :=
  let p := Pool.ofBytes bs
  match replaceFrom f 1 0 [] p.constants with
  | .error e => .error e
  | .ok (constants, replaced) =>
    match p.rest with
    | .error e => .error (.pool e)
    | .ok rest => .ok ⟨Pool.toBytes { p with constants } rest, replaced⟩

end FatJar.ClassFile
