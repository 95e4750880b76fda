import FatJar.Json.Fault
import FatJar.Json.Reading

namespace FatJar.Json

abbrev Decoder (α : Type) :=
  Reading → Except Fault α

def Reading.found? : Reading → Option Found
  | null => some .null
  | bool b => some (.bool b)
  | number x =>
    match x.number with
    | .whole n => some (.integer n)
    | .real negative size => some (.real negative size)
    | .tooLarge => none
  | string s => s.map .string
  | array _ _ => some .sequence
  | object _ _ => some .map
  | broken => none

def mismatch (expected : String) (r : Reading) : Fault :=
  match r.found? with
  | none => .malformed
  | some found => .wrongType found expected

namespace Decoder

variable {α : Type}

def text (expected : String) : Decoder String
  | .string (some s) => .ok s
  | r => .error (mismatch expected r)

def nat (max : Nat) (expected : String) : Decoder Nat
  | .number x =>
    match x.number with
    | .whole n =>
      if 0 ≤ n ∧ n ≤ max then .ok n.toNat else .error (.outOfRange n expected)
    | _ => .error (mismatch expected (.number x))
  | r => .error (mismatch expected r)

def unit : Decoder Unit
  | .null => .ok ()
  | r => .error (mismatch "unit" r)

def optional (d : Decoder α) : Decoder (Option α)
  | .null => .ok none
  | r => (d r).map some

def closing (closed : Bool) (result : Except Fault α) : Except Fault α :=
  result.bind fun a => if closed then .ok a else .error .malformed

def list (d : Decoder α) : Decoder (List α)
  | .array items closed => closing closed (items.mapM d)
  | r => .error (mismatch "a sequence" r)

def pairs (d : Decoder α) : Decoder (List (String × α))
  | .object members closed =>
    closing closed (members.mapM fun (k, v) =>
      match k with
      | .string (some name) => (d v).map ((name, ·))
      | _ => .error .malformed)
  | r => .error (mismatch "a map" r)

/-- One of `names`: as a string, or as the key of a sole member without content. -/
def variant (names : List String) : Decoder String
  | .string (some s) =>
    if s ∈ names then .ok s else .error (.unknownVariant s names)
  | .object ((k, v) :: more) closed =>
    match k with
    | .string (some s) =>
      if s ∈ names then
        closing (closed && more.isEmpty) ((unit v).map fun _ => s)
      else .error (.unknownVariant s names)
    | _ => .error (mismatch "variant identifier" k)
  | _ => .error .malformed

end Decoder

inductive Strictness where
  | strict
  | lenient
deriving DecidableEq, Repr

structure Field (α : Type) where
  name : String
  decode : Decoder α
  fallback : Option α := none

inductive Fields : List Type → Type 1 where
  | nil : Fields []
  | cons {α : Type} {αs : List Type} (f : Field α) (fs : Fields αs) : Fields (α :: αs)

def Values : List Type → Type
  | [] => Unit
  | α :: αs => α × Values αs

def Slots : List Type → Type
  | [] => Unit
  | α :: αs => Option α × Slots αs

namespace Fields

variable {αs : List Type}

def names {αs : List Type} : Fields αs → List String
  | nil => []
  | cons f fs => f.name :: fs.names

def noSlots {αs : List Type} : Fields αs → Slots αs
  | nil => ()
  | cons _ fs => (none, fs.noSlots)

def put? {αs : List Type} (name : String) (r : Reading) :
    Fields αs → Slots αs → Option (Except Fault (Slots αs))
  | nil, _ => none
  | cons f fs, (slot, slots) =>
    if f.name = name then
      some (if slot.isSome then .error (.duplicateField name)
        else (f.decode r).map fun a => (some a, slots))
    else (fs.put? name r slots).map (·.map fun slots => (slot, slots))

def values {αs : List Type} : Fields αs → Slots αs → Except Fault (Values αs)
  | nil, _ => .ok ()
  | cons f fs, (slot, slots) =>
    match slot.or f.fallback with
    | none => .error (.missingField f.name)
    | some a => (fs.values slots).map fun as => (a, as)

def takeMember (fs : Fields αs) (strictness : Strictness) (slots : Slots αs)
    (member : Reading × Reading) : Except Fault (Slots αs) :=
  match member.1 with
  | .string (some name) =>
    match fs.put? name member.2 slots with
    | some result => result
    | none =>
      match strictness with
      | .strict => .error (.unknownField name fs.names)
      | .lenient => .ok slots
  | _ => .error .malformed

/-- The values of the fields in a sequence, of which the items from `index` on are left. -/
def ofItems {αs : List Type} (record : String) (size : Nat) :
    Fields αs → Nat → List Reading → (closed : Bool) → Except Fault (Values αs)
  | nil, _, items, closed => if closed && items.isEmpty then .ok () else .error .malformed
  | cons f fs, index, r :: items, closed =>
    (f.decode r).bind fun a => (fs.ofItems record size (index + 1) items closed).map ((a, ·))
  | cons f fs, index, [], closed =>
    if closed then
      match f.fallback with
      | none => .error (.tooShort index record size)
      | some a => (fs.ofItems record size (index + 1) [] closed).map ((a, ·))
    else .error .malformed

def decode (fs : Fields αs) (record : String) (strictness : Strictness) : Decoder (Values αs)
  | .object members closed =>
    (Decoder.closing closed (members.foldlM (fs.takeMember strictness) fs.noSlots)).bind fs.values
  | .array items closed => fs.ofItems record fs.names.length 0 items closed
  | r => .error (mismatch ("struct " ++ record) r)

end Fields

def decode {α : Type} (d : Decoder α) (s : String) : Except Fault α :=
  let doc := read s
  Decoder.closing doc.alone (d doc.value)

end FatJar.Json
