import FatJar.ClassFile.Reader

namespace FatJar.ClassFile.Layout

open Reader

mutual

/-- A value in an annotation; `fuel` bounds how deep values and annotations are nested. -/
def elementValue : (fuel : Nat) → Reader
  | 0 => fail
  | fuel + 1 =>
    number 1 fun tag =>
      let tag := UInt8.ofNat tag
      if (utf8 "BCDFIJSZsc").contains tag then skip 2
      else if tag = 0x65 then skip 4
      else if tag = 0x40 then annotated fuel
      else if tag = 0x5B then counted 2 (elementValue fuel)
      else fail

def annotated : (fuel : Nat) → Reader
  | 0 => fail
  | fuel + 1 => both (skip 2) (counted 2 (both (skip 2) (elementValue fuel)))

end

/-- What an annotation of a type is about, by the kind of the place where the type stands. -/
def typeTarget : Reader :=
  number 1 fun tag =>
    if tag ≤ 0x01 || tag = 0x16 then skip 1
    else if tag = 0x10 || tag = 0x17 then skip 2
    else if tag = 0x11 || tag = 0x12 then skip 2
    else if 0x13 ≤ tag && tag ≤ 0x15 then some
    else if tag = 0x40 || tag = 0x41 then counted 2 (skip 6)
    else if 0x42 ≤ tag && tag ≤ 0x46 then skip 2
    else if 0x47 ≤ tag && tag ≤ 0x4B then skip 3
    else fail

def typePath : Reader :=
  counted 1 (skip 2)

def annotatedType (fuel : Nat) : Reader :=
  row [typeTarget, typePath, annotated fuel]

end FatJar.ClassFile.Layout
