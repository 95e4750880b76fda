import FatJar.Bytes
import FatJar.Glob.Pattern

namespace FatJar.Glob

def metaCharacters : List Char :=
  ['\\', '.', '+', '*', '?', '(', ')', '|', '[', ']', '{', '}', '^', '$', '#', '&', '-', '~']

def spellDigit (n : Nat) : Char :=
  Char.ofNat (if n < 10 then 0x30 + n else 0x57 + n)

def spellByte (b : UInt8) : List Char :=
  let c := Char.ofNat b.toNat
  if 0x80 ≤ b then ['\\', 'x', spellDigit (b.toNat / 16), spellDigit (b.toNat % 16)]
  else if metaCharacters.contains c then ['\\', c]
  else [c]

def spellCharacter (c : Char) : List Char :=
  (String.utf8EncodeChar c).flatMap spellByte

def spellRange (r : Char × Char) : List Char :=
  if r.1 = r.2 then spellCharacter r.1
  else spellCharacter r.1 ++ '-' :: spellCharacter r.2

mutual

def Token.spell : Token → List Char
  | .literal c => spellCharacter c
  | .any => "[^/]".toList
  | .star => "[^/]*".toList
  | .leadingDirs => "(?:/?|.*/)".toList
  | .closingDirs => "/.*".toList
  | .innerDirs => "(?:/|/.*/)".toList
  | .oneOf negated ranges =>
    '[' :: (if negated then ['^'] else []) ++ ranges.flatMap spellRange ++ [']']
  | .alternates [] => []
  | .alternates (branch :: branches) =>
    "(?:".toList ++ spellSequence branch ++ spellBranches branches ++ [')']

def spellSequence : List Token → List Char
  | [] => []
  | t :: ts => t.spell ++ spellSequence ts

def spellBranches : List (List Token) → List Char
  | [] => []
  | branch :: branches => '|' :: spellSequence branch ++ spellBranches branches

end

def spelling (ts : List Token) : String :=
  String.ofList ("(?-u)^".toList ++ spellSequence ts ++ ['$'])

end FatJar.Glob
