namespace FatJar.Relocation

structure Rule where
  source : String
  target : String
deriving DecidableEq, Repr, Inhabited

/-- A dotted name with slashes between its parts, as class files and paths spell it. -/
def slashed (name : String) : String :=
  String.ofList (name.toList.map fun c => if c = '.' then '/' else c)

namespace Rule

def slashedSource (r : Rule) : String :=
  slashed r.source

def slashedTarget (r : Rule) : String :=
  slashed r.target

/-- What follows the source namespace in a dotted name: nothing, or a dot and the rest. -/
def tail? (r : Rule) (name : String) : Option (List Char) :=
  match r.source.toList.isPrefixOf? name.toList with
  | none => none
  | some [] => some []
  | some (c :: rest) => if c = '.' then some (c :: rest) else none

def covers (r : Rule) (name : String) : Bool :=
  (r.tail? name).isSome

end Rule

def isSegmentChar (c : Char) : Bool :=
  c.isAlphanum || c == '_' || c == '$'

def isNamespace (name : String) : Bool :=
  (name.toList.splitOn '.').all fun part => !part.isEmpty && part.all isSegmentChar

inductive Fault where
  | malformed
  | identical
  | overlaps (other : String)
  | targetInside (other : String)
deriving DecidableEq, Repr

def Fault.reason (r : Rule) : Fault → String
  | malformed => "'" ++ r.source ++ "' -> '" ++ r.target ++ "' is not a pair of dotted namespaces"
  | identical => "source and target are identical"
  | overlaps other => "source overlaps with the source of rule '" ++ other ++ "'"
  | targetInside other =>
    "target '" ++ r.target ++ "' lies inside relocated namespace '" ++ other ++ "'"

def faultAlone? (r : Rule) : Option Fault :=
  if !isNamespace r.source || !isNamespace r.target then some .malformed
  else if r.source = r.target then some .identical
  else none

/-- What is wrong with rule `b` beside rule `a`; `same` tells that they are one entry of the list. -/
def faultBeside? (a b : Rule) (same : Bool) : Option Fault :=
  if !same && a.source.toList.isPrefixOf b.source.toList then some (.overlaps a.source)
  else if a.covers b.target then some (.targetInside a.source)
  else none

/-- The first fault of a list of rules: each rule alone, then each beside every rule in turn. -/
def fault? (rules : List Rule) : Option (Rule × Fault) :=
  (rules.findSome? fun r => (faultAlone? r).map (r, ·)).or
    (rules.zipIdx.findSome? fun (a, i) =>
      rules.zipIdx.findSome? fun (b, j) => (faultBeside? a b (i == j)).map (b, ·))

structure RuleSet where
  rules : List Rule
  accepted : fault? rules = none
deriving DecidableEq

namespace RuleSet

def empty : RuleSet :=
  ⟨[], rfl⟩

def ofList (rules : List Rule) : Except (Rule × Fault) RuleSet :=
  match h : fault? rules with
  | some f => .error f
  | none => .ok ⟨rules, h⟩

end RuleSet

end FatJar.Relocation
