import FatJar.ClassFile.Attribute
import FatJar.ClassFile.ConstantPool

namespace FatJar.ClassFile

namespace Layout

open Reader

/-- Method handles have one of nine kinds; what an index refers to is not checked. -/
def isSound : Constant → Bool
  | .utf8 value => isModifiedUtf8 value
  | .fixed 15 (kind :: _) => 1 ≤ kind && kind ≤ 9
  | .fixed _ _ => true

def names (constants : List Constant) : Array (Option Bytes) :=
  constants.foldl
    (fun slots c => (slots.push c.utf8?).append (Array.replicate (c.slots - 1) none)) #[none]

/-- A field descriptor. After a letter for a primitive type nothing more is looked at. -/
def isFieldDescriptor : Bytes → Bool
  | [] => false
  | c :: rest =>
    if c = 0x5B then isFieldDescriptor rest
    else if c = 0x4C then rest.length ≥ 2 && rest.getLast? == some 0x3B
    else (utf8 "BCDFIJSZ").contains c

/-- Early versions have any minor number; later ones have none but that of a preview. -/
def isVersion (header : Bytes) : Bool :=
  let minor := Bytes.bigEndian ((header.drop 4).take 2)
  let major := Bytes.bigEndian ((header.drop 6).take 2)
  (45 ≤ major && major ≤ 55) || (56 ≤ major && major ≤ 69 && (minor == 0 || minor == 65535))

def attributes (names : Array (Option Bytes)) : Reader :=
  fun bs => counted 2 (attributeInfo names none bs.length) bs

def field (names : Array (Option Bytes)) : Reader :=
  both (skip 4) <| number 2 fun descriptor =>
    match names[descriptor]?.join with
    | some d => if isFieldDescriptor d then attributes names else fail
    | none => fail

def method (names : Array (Option Bytes)) : Reader :=
  both (skip 6) (attributes names)

def body (names : Array (Option Bytes)) : Reader :=
  row [skip 6, counted 2 (skip 2), counted 2 (field names), counted 2 (method names),
    attributes names]

end Layout

def isWellFormed (bs : Bytes) : Bool :=
  let p := Pool.ofBytes bs
  match p.rest with
  | .error _ => false
  | .ok rest =>
    Layout.isVersion p.header && p.constants.all Layout.isSound
      && (Layout.body (Layout.names p.constants) rest).isSome

end FatJar.ClassFile
