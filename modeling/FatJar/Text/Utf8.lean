namespace FatJar

abbrev Bytes := List UInt8

namespace Utf8

def encode (cs : List Char) : Bytes :=
  cs.flatMap String.utf8EncodeChar

def size (cs : List Char) : Nat :=
  cs.foldl (fun n c => n + c.utf8Size) 0

def isContinuation (b : UInt8) : Bool :=
  0x80 ≤ b && b < 0xC0

/-- Second bytes after a lead byte of three, without overlong forms and surrogates. -/
def secondOfThree (lead b : UInt8) : Bool :=
  if lead = 0xE0 then 0xA0 ≤ b && b < 0xC0
  else if lead = 0xED then 0x80 ≤ b && b < 0xA0
  else isContinuation b

/-- Second bytes after a lead byte of four, without overlong forms and code points past the last. -/
def secondOfFour (lead b : UInt8) : Bool :=
  if lead = 0xF0 then 0x90 ≤ b && b < 0xC0
  else if lead = 0xF4 then 0x80 ≤ b && b < 0x90
  else isContinuation b

/-- The code point whose leading bits are `high` and whose further bits stand in `low`. -/
def codePoint (high : Nat) (low : List UInt8) : Char :=
  Char.ofNat (low.foldl (fun n b => n * 64 + b.toNat % 64) high)

/-- The characters of a byte string in order, after those of `acc` in reverse; a longest run of
bytes that begins a character without completing it, or a single byte that begins none, is `none`. -/
def scalarsFrom (acc : List (Option Char)) : Bytes → List (Option Char)
  | [] => acc.reverse
  | a :: rest =>
    if a < 0x80 then scalarsFrom (some (Char.ofNat a.toNat) :: acc) rest
    else if 0xC2 ≤ a && a < 0xE0 then
      match rest with
      | [] => (none :: acc).reverse
      | b :: rest' =>
        if isContinuation b then scalarsFrom (some (codePoint (a.toNat % 32) [b]) :: acc) rest'
        else scalarsFrom (none :: acc) (b :: rest')
    else if 0xE0 ≤ a && a < 0xF0 then
      match rest with
      | [] => (none :: acc).reverse
      | [b] =>
        if secondOfThree a b then (none :: acc).reverse else scalarsFrom (none :: acc) [b]
      | b :: c :: rest' =>
        if secondOfThree a b then
          if isContinuation c then
            scalarsFrom (some (codePoint (a.toNat % 16) [b, c]) :: acc) rest'
          else scalarsFrom (none :: acc) (c :: rest')
        else scalarsFrom (none :: acc) (b :: c :: rest')
    else if 0xF0 ≤ a && a < 0xF5 then
      match rest with
      | [] => (none :: acc).reverse
      | [b] =>
        if secondOfFour a b then (none :: acc).reverse else scalarsFrom (none :: acc) [b]
      | [b, c] =>
        if secondOfFour a b then
          if isContinuation c then (none :: acc).reverse else scalarsFrom (none :: acc) [c]
        else scalarsFrom (none :: acc) [b, c]
      | b :: c :: d :: rest' =>
        if secondOfFour a b then
          if isContinuation c then
            if isContinuation d then
              scalarsFrom (some (codePoint (a.toNat % 8) [b, c, d]) :: acc) rest'
            else scalarsFrom (none :: acc) (d :: rest')
          else scalarsFrom (none :: acc) (c :: d :: rest')
        else scalarsFrom (none :: acc) (b :: c :: d :: rest')
    else scalarsFrom (none :: acc) rest
  termination_by structural bs => bs

def scalars (bs : Bytes) : List (Option Char) :=
  scalarsFrom [] bs

def isValid (bs : Bytes) : Bool :=
  (scalars bs).all Option.isSome

/-- The text of a byte string, with U+FFFD for each run that spells no character. -/
def decodeLossy (bs : Bytes) : List Char :=
  (scalars bs).map (·.getD '\uFFFD')

def decode? (bs : Bytes) : Option (List Char) :=
  if isValid bs then some (decodeLossy bs) else none

end Utf8

def utf8 (s : String) : Bytes :=
  Utf8.encode s.toList

def textOf (bs : Bytes) : String :=
  String.ofList (Utf8.decodeLossy bs)

end FatJar
