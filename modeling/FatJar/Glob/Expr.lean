import FatJar.Text.Utf8

namespace FatJar.Glob

structure ByteSet where
  negated : Bool
  ranges : List (UInt8 × UInt8)
deriving DecidableEq, Repr

def ByteSet.contains (s : ByteSet) (b : UInt8) : Bool :=
  s.negated != s.ranges.any fun r => r.1 ≤ b && b ≤ r.2

inductive Expr where
  | fail
  | empty
  | byte (s : ByteSet)
  | seq (e f : Expr)
  | alt (e f : Expr)
  | many (e : Expr)
deriving DecidableEq, Repr

namespace Expr

inductive Matches : Expr → Bytes → Prop where
  | empty : Matches .empty []
  | byte {s : ByteSet} {b : UInt8} : s.contains b = true → Matches (.byte s) [b]
  | seq {e f : Expr} {u v : Bytes} : Matches e u → Matches f v → Matches (.seq e f) (u ++ v)
  | left {e f : Expr} {u : Bytes} : Matches e u → Matches (.alt e f) u
  | right {e f : Expr} {u : Bytes} : Matches f u → Matches (.alt e f) u
  | none {e : Expr} : Matches (.many e) []
  | more {e : Expr} {u v : Bytes} : Matches e u → Matches (.many e) v → Matches (.many e) (u ++ v)

def nullable : Expr → Bool
  | fail => false
  | empty => true
  | byte _ => false
  | seq e f => e.nullable && f.nullable
  | alt e f => e.nullable || f.nullable
  | many _ => true

def seq' (e f : Expr) : Expr :=
  match e, f with
  | fail, _ => fail
  | _, fail => fail
  | empty, f => f
  | e, f => seq e f

def isAlternativeOf (e : Expr) : Expr → Bool
  | alt f g => e.isAlternativeOf f || e.isAlternativeOf g
  | f => e == f

def alt' : Expr → Expr → Expr
  | fail, f => f
  | alt e g, f => alt' e (alt' g f)
  | e, f => if f = fail then e else if e.isAlternativeOf f then f else alt e f

def derive (b : UInt8) : Expr → Expr
  | fail => fail
  | empty => fail
  | byte s => if s.contains b then empty else fail
  | seq e f =>
    if e.nullable then alt' (seq' (e.derive b) f) (f.derive b) else seq' (e.derive b) f
  | alt e f => alt' (e.derive b) (f.derive b)
  | many e => seq' (e.derive b) (many e)

def matchesBytes (e : Expr) (bs : Bytes) : Bool :=
  (bs.foldl (fun e b => e.derive b) e).nullable

def anyByte : Expr :=
  byte ⟨true, []⟩

def bytes (bs : Bytes) : Expr :=
  bs.foldr (fun b e => seq (byte ⟨false, [(b, b)]⟩) e) empty

end Expr

end FatJar.Glob
