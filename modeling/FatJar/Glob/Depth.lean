import FatJar.Glob.Matching
import FatJar.Glob.Spelling

namespace FatJar.Glob

def Token.parts : Token → Nat
  | .literal c => c.utf8Size
  | .closingDirs => 2
  | .alternates [] => 0
  | _ => 1

def rowDepth (ts : List Token) : Nat :=
  if ts.foldl (fun n t => n + t.parts) 0 < 2 then 0 else 1

mutual

/-- The levels that a token has by itself. A class is one level and its ranges, if there are several,
another; so is a group with its branches. -/
def Token.depth : Token → Nat
  | .literal _ => 0
  | .any | .closingDirs => 1
  | .star => 2
  | .leadingDirs | .innerDirs => 4
  | .oneOf _ ranges => if (ranges.flatMap byteRanges).length < 2 then 1 else 2
  | .alternates [] => 0
  | .alternates (branch :: branches) =>
    (if branches.isEmpty then 1 else 2)
      + max (rowDepth branch + deepestToken branch) (deepestBranch branches)

def deepestToken : List Token → Nat
  | [] => 0
  | t :: ts => max t.depth (deepestToken ts)

def deepestBranch : List (List Token) → Nat
  | [] => 0
  | branch :: branches => max (rowDepth branch + deepestToken branch) (deepestBranch branches)

end

def maxDepth : Nat := 250

/-- Whether the expression of a glob has too many levels; the glob as a whole is one. -/
def isTooDeep (ts : List Token) : Bool :=
  maxDepth < 1 + deepestToken ts

def areLiterals (ts : List Token) (cs : List Char) : Bool :=
  ts.all fun t => t.isLiteral && !cs.any (Token.isCharacter · t)

def comparesText (ts : List Token) : Bool :=
  match ts with
  | .leadingDirs :: .star :: .literal '.' :: rest => areLiterals rest ['.', '/']
  | .leadingDirs :: rest => !rest.isEmpty && areLiterals rest []
  | _ =>
    match ts.reverse with
    | .closingDirs :: before => areLiterals before []
    | _ => !ts.isEmpty && areLiterals ts []

/-- Whether a glob tells the extension of paths, after which the expression is looked at. -/
def comparesExtension (ts : List Token) : Bool :=
  (ts.reverse.takeWhile fun t => t.isLiteral && !t.isCharacter '/').any (Token.isCharacter '.')

inductive Strategy where
  | text
  | extension
  | expression
deriving DecidableEq, Repr

def Strategy.ofTokens (ts : List Token) : Strategy :=
  if comparesText ts then .text else if comparesExtension ts then .extension else .expression

inductive DepthFault where
  | extension (spelling : String)
  | expression (index : Nat)
deriving DecidableEq, Repr

def DepthFault.message : DepthFault → String
  | extension spelling => "error parsing glob '" ++ spelling ++ "': error parsing pattern 0"
  | expression index => "error parsing pattern " ++ toString index

/-- What keeps the expressions of several globs from being made. Those that are looked at after an
extension are made first. -/
def depthFault? (globs : List (List Token)) : Option DepthFault :=
  let comparedBy (s : Strategy) := globs.filter (Strategy.ofTokens · = s)
  match (comparedBy .extension).find? isTooDeep with
  | some ts => some (.extension (spelling ts))
  | none => ((comparedBy .expression).findIdx? isTooDeep).map .expression

end FatJar.Glob
