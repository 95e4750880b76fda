import FatJar.Glob.Depth

namespace FatJar.Merge

inductive Action where
  | exclude
  | keepFirst
  | keepLast
  | concatenateLines
  | mergeRegistrations
deriving DecidableEq, Repr

namespace Action

def label : Action → String
  | exclude => "exclude"
  | keepFirst => "keep-first"
  | keepLast => "keep-last"
  | concatenateLines => "concatenate-lines"
  | mergeRegistrations => "merge-service-registrations"

def all : List Action :=
  [exclude, keepFirst, keepLast, concatenateLines, mergeRegistrations]

def ofLabel? (s : String) : Option Action :=
  all.find? (·.label == s)

end Action

structure Policy where
  pattern : String
  action : Action
  /-- Decides between policies that are equally specific, the lowest first. -/
  order : Option UInt32 := none
deriving DecidableEq, Repr

def isGlobChar (c : Char) : Bool :=
  c == '*' || c == '?' || c == '[' || c == '{' || c == '\\'

def Policy.literalPrefixLength (p : Policy) : Nat :=
  Utf8.size (p.pattern.toList.takeWhile (!isGlobChar ·))

structure Compiled where
  glob : Glob
  action : Action
  order : Nat
  specificity : Nat

inductive PolicyFault where
  | pattern (text : String) (fault : Glob.Fault)
  | depth (fault : Glob.DepthFault)
deriving DecidableEq, Repr

def PolicyFault.message : PolicyFault → String
  | pattern text fault =>
    "invalid merge pattern '" ++ text ++ "': error parsing glob '" ++ text ++ "': "
      ++ fault.message
  | depth fault => "invalid merge patterns: " ++ fault.message

/-- The order of a policy is its place in the list unless it gives one. -/
def Policy.compile (p : Policy) (index : Nat) : Except PolicyFault Compiled :=
  match Glob.ofText p.pattern with
  | .error fault => .error (.pattern p.pattern fault)
  | .ok glob => .ok ⟨glob, p.action, (p.order.map UInt32.toNat).getD index, p.literalPrefixLength⟩

structure PolicyTable where
  policies : List Compiled

structure Ambiguity where
  path : String
  first : String
  second : String
deriving DecidableEq, Repr

namespace PolicyTable

def empty : PolicyTable :=
  ⟨[]⟩

/-- Patterns that cannot be read are reported before those whose expressions are too deep. -/
def ofList (ps : List Policy) : Except PolicyFault PolicyTable := do
  let policies ← ps.zipIdx.mapM fun p => Policy.compile p.1 p.2
  match Glob.depthFault? (policies.map (·.glob.tokens)) with
  | some fault => throw (.depth fault)
  | none => return ⟨policies⟩

/-- The best policy so far, and the last one that is as good as it. -/
structure Choice where
  best : Compiled
  tie : Option Compiled := none

/-- Whether `a` goes before `b`: it is more specific, or as specific and of lower order. -/
def precedes (a b : Compiled) : Bool :=
  b.specificity < a.specificity || (a.specificity == b.specificity && a.order < b.order)

def Choice.consider (choice : Choice) (c : Compiled) : Choice :=
  if precedes c choice.best then { best := c }
  else if precedes choice.best c then choice
  else { choice with tie := some c }

def choose : List Compiled → Option Choice
  | [] => none
  | c :: cs => some (cs.foldl Choice.consider { best := c })

def lookup (t : PolicyTable) (path : String) : Except Ambiguity (Option Action) :=
  match choose (t.policies.filter (·.glob.matchesPath path)) with
  | none => .ok none
  | some { best, tie := none } => .ok (some best.action)
  | some { best, tie := some other } => .error ⟨path, best.glob.text, other.glob.text⟩

end PolicyTable

end FatJar.Merge
