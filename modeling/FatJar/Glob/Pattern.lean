namespace FatJar.Glob

inductive Token where
  | literal (c : Char)
  | any
  | star
  | leadingDirs
  | closingDirs
  /-- A `/**/` in between: a slash, or slashes around whole components. -/
  | innerDirs
  | oneOf (negated : Bool) (ranges : List (Char × Char))
  | alternates (branches : List (List Token))
deriving Repr

inductive Fault where
  | unclosedClass
  | invalidRange (first last : Char)
  | unopenedAlternates
  | unclosedAlternates
  | danglingEscape
deriving DecidableEq, Repr

def Fault.message : Fault → String
  | unclosedClass => "unclosed character class; missing ']'"
  | invalidRange first last =>
    "invalid range; '" ++ first.toString ++ "' > '" ++ last.toString ++ "'"
  | unopenedAlternates =>
    "unopened alternate group; missing '\x7b' (maybe escape '\x7d' with '[\x7d]'?)"
  | unclosedAlternates =>
    "unclosed alternate group; missing '\x7d' (maybe escape '\x7b' with '[\x7b]'?)"
  | danglingEscape => "dangling '\\'"

/-- A brace group that is still open: what stands before it, and its finished branches. -/
structure Group where
  before : List Token
  branches : List (List Token)

/-- What has been read of a pattern; token lists and branches have their last item first. -/
structure Parsed where
  tokens : List Token := []
  groups : List Group := []

namespace Parsed

def push (p : Parsed) (t : Token) : Parsed :=
  { p with tokens := t :: p.tokens }

def openGroup (p : Parsed) : Parsed :=
  { tokens := [], groups := ⟨p.tokens, []⟩ :: p.groups }

def nextBranch (p : Parsed) : Parsed :=
  match p.groups with
  | [] => p.push (.literal ',')
  | g :: gs => { tokens := [], groups := { g with branches := p.tokens :: g.branches } :: gs }

def isVoid (branch : List Token) : Bool :=
  branch.all fun
    | .alternates [] => true
    | _ => false

def closeGroup (p : Parsed) : Except Fault Parsed :=
  match p.groups with
  | [] => .error .unopenedAlternates
  | g :: gs =>
    let branches := ((p.tokens :: g.branches).filter (!isVoid ·)).reverse.map List.reverse
    .ok { tokens := .alternates branches :: g.before, groups := gs }

/-- Puts `closingDirs` or `innerDirs` in the place of the separator before it; directories of any
depth after directories of any depth add nothing. -/
def pushDirs (p : Parsed) (dirs : Token) : Parsed :=
  match p.tokens with
  | .leadingDirs :: _ => p
  | .closingDirs :: _ => p
  | _ :: ts => { p with tokens := dirs :: ts }
  | [] => p

def pushTwoStars (p : Parsed) : Parsed :=
  (p.push .star).push .star

end Parsed

structure OpenClass where
  negated : Bool
  ranges : List (Char × Char) := []
  /-- Whether a hyphen has been read that the next character is to end. -/
  inRange : Bool := false

namespace OpenClass

/-- Takes `c` as the end of the range begun before, or else as a range of its own. -/
def add (k : OpenClass) (c : Char) : Except Fault OpenClass :=
  match k.inRange, k.ranges with
  | true, (first, _) :: rs =>
    if c < first then .error (.invalidRange first c)
    else .ok { k with ranges := (first, c) :: rs, inRange := false }
  | _, rs => .ok { k with ranges := (c, c) :: rs, inRange := false }

def close (k : OpenClass) : Token :=
  .oneOf k.negated (if k.inRange then ('-', '-') :: k.ranges else k.ranges).reverse

end OpenClass

/-- Reads on in a pattern, inside of a class if one is given; `prev` is the character before. -/
def parseFrom (p : Parsed) (open? : Option OpenClass) (prev : Option Char) :
    List Char → Except Fault Parsed
  | [] => if open?.isSome then .error .unclosedClass else .ok p
  | c :: cs =>
    match open? with
    | some k =>
      if c = ']' && !k.ranges.isEmpty then parseFrom (p.push k.close) none (some c) cs
      else if c = '-' && !k.ranges.isEmpty && !k.inRange then
        parseFrom p (some { k with inRange := true }) (some c) cs
      else
        match k.add c with
        | .error e => .error e
        | .ok k => parseFrom p (some k) (some c) cs
    | none =>
      match c, cs with
      | '?', cs => parseFrom (p.push .any) none (some '?') cs
      | '[', '!' :: cs => parseFrom p (some { negated := true }) (some '!') cs
      | '[', '^' :: cs => parseFrom p (some { negated := true }) (some '^') cs
      | '[', cs => parseFrom p (some { negated := false }) (some '[') cs
      | '{', cs => parseFrom p.openGroup none (some '{') cs
      | '}', cs =>
        match p.closeGroup with
        | .error e => .error e
        | .ok p => parseFrom p none (some '}') cs
      | ',', cs => parseFrom p.nextBranch none (some ',') cs
      | '\\', [] => .error .danglingEscape
      | '\\', d :: cs => parseFrom (p.push (.literal d)) none (some d) cs
      | '*', '*' :: cs =>
        if p.tokens.isEmpty then
          match cs with
          | [] => parseFrom (p.push .leadingDirs) none (some '*') []
          | '/' :: cs => parseFrom (p.push .leadingDirs) none (some '/') cs
          | cs => parseFrom p.pushTwoStars none (some '*') cs
        else if prev = some '/' || (!p.groups.isEmpty && (prev = some ',' || prev = some '{')) then
          match cs with
          | [] => parseFrom (p.pushDirs .closingDirs) none (some '*') []
          | '/' :: cs => parseFrom (p.pushDirs .innerDirs) none (some '/') cs
          | d :: cs =>
            if (d = ',' || d = '}') && !p.groups.isEmpty then
              parseFrom (p.pushDirs .closingDirs) none (some '*') (d :: cs)
            else parseFrom p.pushTwoStars none (some '*') (d :: cs)
        else parseFrom p.pushTwoStars none (some '*') cs
      | '*', cs => parseFrom (p.push .star) none (some '*') cs
      | c, cs => parseFrom (p.push (.literal c)) none (some c) cs
  termination_by structural cs => cs

def parse (pattern : String) : Except Fault (List Token) :=
  match parseFrom {} none none pattern.toList with
  | .error e => .error e
  | .ok p => if p.groups.isEmpty then .ok p.tokens.reverse else .error .unclosedAlternates

end FatJar.Glob
