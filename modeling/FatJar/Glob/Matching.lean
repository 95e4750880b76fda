import FatJar.Glob.Expr
import FatJar.Glob.Pattern

namespace FatJar.Glob

def notSlash : ByteSet :=
  ⟨true, [(0x2F, 0x2F)]⟩

def slashByte : Expr :=
  Expr.bytes [0x2F]

/-- The byte ranges of a range of characters: a range between the last byte of the first character
and the first byte of the last one, and each other byte alone. -/
def byteRanges (r : Char × Char) : List (UInt8 × UInt8) :=
  let first := String.utf8EncodeChar r.1
  let last := String.utf8EncodeChar r.2
  let alone (bs : Bytes) := bs.map fun b => (b, b)
  if r.1 = r.2 then alone first
  else alone first.dropLast ++ [(first.getLast?.getD 0, last.head?.getD 0)] ++ alone last.tail

mutual

def Token.expr : Token → Expr
  | .literal c => Expr.bytes (String.utf8EncodeChar c)
  | .any => .byte notSlash
  | .star => .many (.byte notSlash)
  | .leadingDirs =>
    .alt (.alt .empty slashByte) (.seq (.many Expr.anyByte) slashByte)
  | .closingDirs => .seq slashByte (.many Expr.anyByte)
  | .innerDirs =>
    .alt slashByte (.seq slashByte (.seq (.many Expr.anyByte) slashByte))
  | .oneOf negated ranges => .byte ⟨negated, ranges.flatMap byteRanges⟩
  | .alternates [] => .empty
  | .alternates (branch :: branches) => .alt (exprOfSequence branch) (exprOfBranches branches)

def exprOfSequence : List Token → Expr
  | [] => .empty
  | t :: ts => .seq t.expr (exprOfSequence ts)

def exprOfBranches : List (List Token) → Expr
  | [] => .fail
  | branch :: branches => .alt (exprOfSequence branch) (exprOfBranches branches)

end

def Token.isLiteral : Token → Bool
  | .literal _ => true
  | _ => false

def Token.isCharacter (c : Char) : Token → Bool
  | .literal d => c == d
  | _ => false

def patternExpr : List Token → Expr
  | [.leadingDirs] => .many Expr.anyByte
  | ts => exprOfSequence ts

/-- Whether a pattern is about the extension or the whole name of a file. The parent directory `..`
is not a file name, so such a pattern does not match a path that ends with it. -/
def namesFile : List Token → Bool
  | .leadingDirs :: ts =>
    if ts.all Token.isLiteral then !ts.isEmpty && !ts.any (Token.isCharacter '/')
    else (ts.getLast?.map (Token.isCharacter '.')).getD false
  | ts =>
    !ts.all Token.isLiteral && (ts.getLast?.map (Token.isCharacter '.')).getD false

def endsInParent (path : String) : Bool :=
  (path.toList.splitOn '/').getLast? == some ['.', '.']

end Glob

structure Glob where
  text : String
  tokens : List Glob.Token

namespace Glob

def ofText (text : String) : Except Fault Glob :=
  (parse text).map (⟨text, ·⟩)

def matchesPath (g : Glob) (path : String) : Bool :=
  (patternExpr g.tokens).matchesBytes (utf8 path) && !(namesFile g.tokens && endsInParent path)

end Glob

end FatJar
