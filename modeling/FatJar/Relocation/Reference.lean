import FatJar.Bytes
import FatJar.Text.Lines
import FatJar.Relocation.Rule

namespace FatJar.Relocation

inductive Spelling where
  | slashed
  | dotted
deriving DecidableEq, Repr

structure Literal where
  rule : Rule
  text : Bytes
deriving DecidableEq, Repr

def Rule.literals (r : Rule) : List Literal :=
  let internal := utf8 r.slashedSource
  let dotted := utf8 r.source
  if internal = dotted then [⟨r, internal⟩] else [⟨r, internal⟩, ⟨r, dotted⟩]

structure Occurrence where
  start : Nat
  before : Option UInt8
  literal : Literal
  after : Option UInt8
deriving DecidableEq, Repr

def dot : UInt8 := 0x2E

def slash : UInt8 := 0x2F

/-- Bytes that may be part of a name, among them all bytes of characters outside ASCII. -/
def isNameByte (b : UInt8) : Bool :=
  (0x30 ≤ b && b ≤ 0x39) || (0x41 ≤ b && b ≤ 0x5A) || (0x61 ≤ b && b ≤ 0x7A)
    || b == 0x5F || b == 0x24 || 0x80 ≤ b

namespace Occurrence

def stop (o : Occurrence) : Nat :=
  o.start + o.literal.text.length

/-- How the reference is spelled; for a namespace of one part the separator after it decides. -/
def spelling (o : Occurrence) : Spelling :=
  if o.literal.text.contains slash || (!o.literal.text.contains dot && o.after == some slash) then
    .slashed
  else .dotted

def opens (o : Occurrence) : Bool :=
  match o.before with
  | none => true
  | some b => !isNameByte b && b != dot

/-- With slashes, a name may also follow the `L` of a descriptor or the slash of an absolute name. -/
def opensSlashed (o : Occurrence) : Bool :=
  o.before == some 0x4C ||
    (if o.before == some slash then o.start == 1 else o.opens)

def closes (o : Occurrence) : Bool :=
  match o.after with
  | none => true
  | some b => b == dot || (!isNameByte b && b != slash)

def closesSlashed (o : Occurrence) : Bool :=
  o.after == none || o.after == some slash

/-- Whether the occurrence sits on namespace boundaries. -/
def isReference (o : Occurrence) : Bool :=
  match o.spelling with
  | .slashed => o.opensSlashed && o.closesSlashed
  | .dotted => o.opens && o.closes

def replacement (o : Occurrence) : Bytes :=
  match o.spelling with
  | .slashed => utf8 o.literal.rule.slashedTarget
  | .dotted => utf8 o.literal.rule.target

end Occurrence

/-- The occurrence at the head of `bs`, which stands at `start` after `before`: that of the first
literal that fits. -/
def occurrenceAt? (literals : List Literal) (start : Nat) (before : Option UInt8) (bs : Bytes) :
    Option Occurrence :=
  literals.findSome? fun l =>
    (l.text.isPrefixOf? bs).map fun rest => ⟨start, before, l, rest.head?⟩

def occurrencesFrom (literals : List Literal) (acc : List Occurrence) :
    (start : Nat) → (before : Option UInt8) → Bytes → List Occurrence
  | _, _, [] => acc.reverse
  | start, before, b :: bs =>
    match occurrenceAt? literals start before (b :: bs) with
    | none => occurrencesFrom literals acc (start + 1) (some b) bs
    | some o => occurrencesFrom literals (o :: acc) (start + 1) (some b) bs

/-- At each place of `bs` the first literal that stands there, from left to right. -/
def occurrences (literals : List Literal) (bs : Bytes) : List Occurrence :=
  occurrencesFrom literals [] 0 none bs

/-- The references among `os` that begin at `free` or later and do not overlap an earlier one. -/
def selectFrom : (free : Nat) → List Occurrence → List Occurrence
  | _, [] => []
  | free, o :: os =>
    if free ≤ o.start && o.isReference then o :: selectFrom o.stop os else selectFrom free os

/-- Puts replacements into `bs`, whose first byte has the position `pos`; the pieces done before are
in `acc`, the last one first. -/
def spliceFrom (acc : List Bytes) : (pos : Nat) → Bytes → List Occurrence → Bytes
  | _, bs, [] => (bs :: acc).reverse.flatten
  | pos, bs, o :: os =>
    let kept := bs.splitAt (o.start - pos)
    spliceFrom (o.replacement :: kept.1 :: acc) o.stop (kept.2.drop o.literal.text.length) os

namespace RuleSet

def literals (rs : RuleSet) : List Literal :=
  rs.rules.flatMap Rule.literals

/-- Replaces all references; `none` when there is none. -/
def replace (rs : RuleSet) (bs : Bytes) : Option Bytes :=
  match selectFrom 0 (occurrences rs.literals bs) with
  | [] => none
  | os => some (spliceFrom [] 0 bs os)

def replaceInText (rs : RuleSet) (text : String) : String :=
  match rs.replace (utf8 text) with
  | none => text
  | some bs => textOf bs

def find (rs : RuleSet) (bs : Bytes) : Option Rule :=
  ((occurrences rs.literals bs).find? Occurrence.isReference).map (·.literal.rule)

def relocateName (rs : RuleSet) (name : String) : Option String :=
  rs.rules.findSome? fun r => (r.tail? name).map fun tail => r.target ++ String.ofList tail

end RuleSet

def versionsDir : String := "META-INF/versions/"

/-- A path cut after `META-INF/versions/<number>/` if it begins so, else before its first byte. -/
def splitVersioned (path : List Char) : List Char × List Char :=
  match versionsDir.toList.isPrefixOf? path with
  | none => ([], path)
  | some rest =>
    match cutAt? '/' rest with
    | none => ([], path)
    | some (version, tail) =>
      if !version.isEmpty && version.all Char.isDigit then
        (versionsDir.toList ++ version ++ ['/'], tail)
      else ([], path)

def belowDirectory? (dir : String) (path : List Char) : Option (List Char) :=
  match dir.toList.isPrefixOf? path with
  | some ('/' :: tail) => some ('/' :: tail)
  | _ => none

namespace RuleSet

/-- The new path of an entry whose directory lies in a source namespace. Paths for certain
versions of the platform keep what marks them. -/
def relocatePath (rs : RuleSet) (path : String) : Option String :=
  let (versioned, rest) := splitVersioned path.toList
  rs.rules.findSome? fun r =>
    (belowDirectory? r.slashedSource rest).map fun tail =>
      String.ofList (versioned ++ r.slashedTarget.toList ++ tail)

def targetRule (rs : RuleSet) (path : String) : Option Rule :=
  let (_, rest) := splitVersioned path.toList
  rs.rules.find? fun r => (belowDirectory? r.slashedTarget rest).isSome

end RuleSet

end FatJar.Relocation
