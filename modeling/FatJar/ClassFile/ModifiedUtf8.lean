import FatJar.Bytes

namespace FatJar.ClassFile

/-- Whether three bytes that begin with `a` and `b` spell a surrogate, as far as `b` tells. -/
def isSurrogate (a b : UInt8) : Bool :=
  a == 0xED && b &&& 0x20 != 0

/-- Whether bytes spell a text. Each character has its shortest form, the zero character apart, and
the last byte of a surrogate may be any. -/
def isModifiedUtf8 : Bytes → Bool
  | [] => true
  | a :: rest =>
    if a < 0x80 then isModifiedUtf8 rest
    else if a &&& 0xE0 = 0xC0 then
      match rest with
      | b :: rest' =>
        Utf8.isContinuation b && (0xC2 ≤ a || (a == 0xC0 && b == 0x80)) && isModifiedUtf8 rest'
      | [] => false
    else if a &&& 0xF0 = 0xE0 then
      match rest with
      | b :: c :: rest' =>
        (isSurrogate a b
            || (Utf8.isContinuation b && Utf8.isContinuation c && (a != 0xE0 || 0xA0 ≤ b)))
          && isModifiedUtf8 rest'
      | _ => false
    else false
  termination_by structural bs => bs

end FatJar.ClassFile
