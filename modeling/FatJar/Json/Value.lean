import FatJar.Text.Quoted

namespace FatJar.Json

inductive Value where
  | null
  | number (n : Nat)
  | string (s : String)
  | array (items : List Value)
  | object (members : List (String × Value))
deriving Repr

def unitDigits (n : Nat) : List Char :=
  let ds := Text.hexDigits n
  List.replicate (4 - ds.length) '0' ++ ds

/-- Only the quotation mark, the backslash and the control characters below the space are escaped. -/
def escaped (c : Char) : List Char :=
  if c = '"' || c = '\\' then ['\\', c]
  else if c = '\x08' then ['\\', 'b']
  else if c = '\t' then ['\\', 't']
  else if c = '\n' then ['\\', 'n']
  else if c = '\x0c' then ['\\', 'f']
  else if c = '\r' then ['\\', 'r']
  else if c.toNat < 0x20 then ['\\', 'u'] ++ unitDigits c.toNat
  else [c]

def stringText (s : String) : List Char :=
  '"' :: s.toList.flatMap escaped ++ ['"']

def commaSeparated : List (List Char) → List Char
  | [] => []
  | [part] => part
  | part :: parts => part ++ ',' :: commaSeparated parts

namespace Value

mutual
def text : Value → List Char
  | null => ['n', 'u', 'l', 'l']
  | number n => Nat.toDigits 10 n
  | string s => stringText s
  | array items => '[' :: commaSeparated (itemTexts items) ++ [']']
  | object members => '{' :: commaSeparated (memberTexts members) ++ ['}']

def itemTexts : List Value → List (List Char)
  | [] => []
  | v :: vs => v.text :: itemTexts vs

def memberTexts : List (String × Value) → List (List Char)
  | [] => []
  | (name, v) :: ms => (stringText name ++ ':' :: v.text) :: memberTexts ms
end

def render (v : Value) : String :=
  String.ofList v.text

variable {α : Type}

def member? (name : String) (toJson : α → Value) (a : Option α) : List (String × Value) :=
  (a.map fun a => (name, toJson a)).toList

def orNull (toJson : α → Value) (a : Option α) : Value :=
  (a.map toJson).getD null

end Value

end FatJar.Json
