import FatJar.Json.Numeral
import FatJar.Text.Quoted

namespace FatJar.Json

inductive Found where
  | null
  | bool (b : Bool)
  | integer (n : Int)
  | real (negative : Bool) (size : Decimal.Binary64)
  | string (s : String)
  | sequence
  | map
deriving DecidableEq, Repr

inductive Fault where
  /-- The text is no JSON, or it goes on where the value has to end. -/
  | malformed
  | missingField (name : String)
  | duplicateField (name : String)
  | unknownField (name : String) (known : List String)
  | unknownVariant (name : String) (known : List String)
  | wrongType (found : Found) (expected : String)
  | outOfRange (n : Int) (expected : String)
  /-- A sequence without an item at `index` for a record with `size` fields. -/
  | tooShort (index : Nat) (record : String) (size : Nat)
deriving DecidableEq, Repr

def Found.describe : Found → String
  | null => "null"
  | bool b => if b then "boolean `true`" else "boolean `false`"
  | integer n => "integer `" ++ toString n ++ "`"
  | real negative size => "floating point `" ++ realText negative size ++ "`"
  | string s => "string " ++ Text.quoted s
  | sequence => "sequence"
  | map => "map"

def choice : List String → String
  | [] => "there are no fields"
  | [a] => "expected `" ++ a ++ "`"
  | [a, b] => "expected `" ++ a ++ "` or `" ++ b ++ "`"
  | names => "expected one of " ++ ", ".intercalate (names.map fun n => "`" ++ n ++ "`")

def Fault.message : Fault → String
  | malformed => "malformed JSON"
  | missingField name => "missing field `" ++ name ++ "`"
  | duplicateField name => "duplicate field `" ++ name ++ "`"
  | unknownField name known => "unknown field `" ++ name ++ "`, " ++ choice known
  | unknownVariant name known => "unknown variant `" ++ name ++ "`, " ++ choice known
  | wrongType found expected => "invalid type: " ++ found.describe ++ ", expected " ++ expected
  | outOfRange n expected =>
    "invalid value: integer `" ++ toString n ++ "`, expected " ++ expected
  | tooShort index record size =>
    "invalid length " ++ toString index ++ ", expected struct " ++ record ++ " with "
      ++ toString size ++ " elements"

end FatJar.Json
