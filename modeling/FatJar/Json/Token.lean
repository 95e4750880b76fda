import FatJar.Json.Numeral

namespace FatJar.Json

inductive Token where
  | null
  | bool (b : Bool)
  | number (x : Numeral)
  | string (s : Option String)
  | comma
  | colon
  | openArray
  | closeArray
  | openObject
  | closeObject
  | fault
deriving DecidableEq, Repr

inductive NumeralPart where
  | sign
  | zero
  | whole
  | point
  | fraction
  | exponentMark
  | exponentSign
  | exponent
deriving DecidableEq, Repr

namespace NumeralPart

def mayEnd : NumeralPart → Bool
  | zero | whole | fraction | exponent => true
  | sign | point | exponentMark | exponentSign => false

end NumeralPart

inductive Mode where
  | blank
  | word (rest : List Char) (token : Token)
  | numeral (part : NumeralPart) (x : Numeral)
  /-- Within a string; `units` are its code points and surrogates, the last one first. -/
  | text (units : List Nat)
  | escape (units : List Nat)
  /-- Within an escape by number, of which `missing` digits are still to come. -/
  | hex (units : List Nat) (missing : Nat) (value : Nat)
  | stopped
deriving DecidableEq, Repr

def digit? (c : Char) : Option Nat :=
  if c.isDigit then some (c.toNat - '0'.toNat) else none

def hexDigit? (c : Char) : Option Nat :=
  if c.isDigit then some (c.toNat - '0'.toNat)
  else if 'a' ≤ c ∧ c ≤ 'f' then some (c.toNat - 'a'.toNat + 10)
  else if 'A' ≤ c ∧ c ≤ 'F' then some (c.toNat - 'A'.toNat + 10)
  else none

def isHighSurrogate (n : Nat) : Bool :=
  0xD800 ≤ n && n < 0xDC00

def isLowSurrogate (n : Nat) : Bool :=
  0xDC00 ≤ n && n < 0xE000

def joinUnits? : List Nat → Option (List Char)
  | [] => some []
  | [u] => if isHighSurrogate u || isLowSurrogate u then none else some [Char.ofNat u]
  | u :: v :: rest =>
    if isHighSurrogate u then
      if isLowSurrogate v then
        (joinUnits? rest).map (Char.ofNat (0x10000 + (u - 0xD800) * 0x400 + (v - 0xDC00)) :: ·)
      else none
    else if isLowSurrogate u then none
    else (joinUnits? (v :: rest)).map (Char.ofNat u :: ·)

def escapeUnit? (c : Char) : Option Nat :=
  match c with
  | '"' | '\\' | '/' => some c.toNat
  | 'b' => some 0x08
  | 'f' => some 0x0C
  | 'n' => some 0x0A
  | 'r' => some 0x0D
  | 't' => some 0x09
  | _ => none

def isJsonBlank (c : Char) : Bool :=
  c = ' ' || c = '\n' || c = '\t' || c = '\r'

def Numeral.addDigit (x : Numeral) (part : NumeralPart) (d : Nat) : Numeral :=
  match part with
  | .sign | .zero | .whole => { x with whole := x.whole ++ [d] }
  | .point | .fraction => { x with fraction := some (x.fractionDigits ++ [d]) }
  | .exponentMark | .exponentSign | .exponent =>
    let (negative, ds) := x.exponent.getD (false, [])
    { x with exponent := some (negative, ds ++ [d]) }

/-- The numeral with one more character; `none` if it cannot have that character there. -/
def Numeral.extend? (part : NumeralPart) (x : Numeral) (c : Char) :
    Option (NumeralPart × Numeral) :=
  match part, digit? c with
  | .zero, some _ => none
  | .sign, some d => some (if d = 0 then .zero else .whole, x.addDigit .sign d)
  | .whole, some d => some (.whole, x.addDigit .whole d)
  | .point, some d | .fraction, some d => some (.fraction, x.addDigit .fraction d)
  | .exponentMark, some d | .exponentSign, some d | .exponent, some d =>
    some (.exponent, x.addDigit .exponent d)
  | .exponentMark, none =>
    if c = '+' || c = '-' then some (.exponentSign, { x with exponent := some (c = '-', []) })
    else none
  | .zero, none | .whole, none =>
    if c = '.' then some (.point, x)
    else if c = 'e' || c = 'E' then some (.exponentMark, x)
    else none
  | .fraction, none => if c = 'e' || c = 'E' then some (.exponentMark, x) else none
  | .sign, none | .point, none | .exponentSign, none | .exponent, none => none

structure Lexer where
  mode : Mode := .blank
  tokens : List Token := []

namespace Lexer

def emit (l : Lexer) (t : Token) : Lexer :=
  ⟨.blank, t :: l.tokens⟩

def stop (l : Lexer) : Lexer :=
  ⟨.stopped, .fault :: l.tokens⟩

def become (l : Lexer) (m : Mode) : Lexer :=
  { l with mode := m }

def start (l : Lexer) (c : Char) : Lexer :=
  match c with
  | ',' => l.emit .comma
  | ':' => l.emit .colon
  | '[' => l.emit .openArray
  | ']' => l.emit .closeArray
  | '{' => l.emit .openObject
  | '}' => l.emit .closeObject
  | '"' => l.become (.text [])
  | 'n' => l.become (.word ['u', 'l', 'l'] .null)
  | 't' => l.become (.word ['r', 'u', 'e'] (.bool true))
  | 'f' => l.become (.word ['a', 'l', 's', 'e'] (.bool false))
  | '-' => l.become (.numeral .sign { negative := true })
  | _ =>
    match digit? c with
    | some d => l.become (.numeral (if d = 0 then .zero else .whole) { whole := [d] })
    | none => if isJsonBlank c then l.become .blank else l.stop

/-- Takes a character after a numeral that cannot have it. A digit after a leading zero belongs to
no token. -/
def leave (l : Lexer) (part : NumeralPart) (x : Numeral) (c : Char) : Lexer :=
  if part.mayEnd && (digit? c).isNone then (l.emit (.number x)).start c else l.stop

def step (l : Lexer) (c : Char) : Lexer :=
  match l.mode with
  | .blank => l.start c
  | .word [] _ => l.stop
  | .word (r :: rest) t =>
    if c ≠ r then l.stop else if rest.isEmpty then l.emit t else l.become (.word rest t)
  | .numeral part x =>
    match x.extend? part c with
    | some (part, x) => l.become (.numeral part x)
    | none => l.leave part x c
  | .text units =>
    if c = '"' then l.emit (.string ((joinUnits? units.reverse).map String.ofList))
    else if c = '\\' then l.become (.escape units)
    else if c.toNat < 0x20 then l.stop
    else l.become (.text (c.toNat :: units))
  | .escape units =>
    if c = 'u' then l.become (.hex units 4 0)
    else
      match escapeUnit? c with
      | some u => l.become (.text (u :: units))
      | none => l.stop
  | .hex units missing value =>
    match hexDigit? c with
    | none => l.stop
    | some d =>
      if missing ≤ 1 then l.become (.text ((value * 16 + d) :: units))
      else l.become (.hex units (missing - 1) (value * 16 + d))
  | .stopped => l

def finish (l : Lexer) : List Token :=
  match l.mode with
  | .blank | .stopped => l.tokens.reverse
  | .numeral part x => (if part.mayEnd then l.emit (.number x) else l.stop).tokens.reverse
  | .word _ _ | .text _ | .escape _ | .hex _ _ _ => l.stop.tokens.reverse

end Lexer

def tokens (cs : List Char) : List Token :=
  (cs.foldl Lexer.step {}).finish

end FatJar.Json
