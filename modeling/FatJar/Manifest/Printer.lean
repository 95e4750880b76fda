import FatJar.Manifest.Attributes
import FatJar.Text.Utf8

namespace FatJar.Manifest

def lineWidth : Nat := 72

def lineEnd : List Char := ['\r', '\n']

/-- Folds a line of which `room` bytes are left: before a character that does not fit, a new line
begins with a space. -/
def fold : (room : Nat) → List Char → List Char
  | _, [] => []
  | room, c :: cs =>
    if c.utf8Size ≤ room then c :: fold (room - c.utf8Size) cs
    else lineEnd ++ ' ' :: c :: fold (lineWidth - 1 - c.utf8Size) cs

def logicalLine (name value : String) : List Char :=
  name.toList ++ ':' :: ' ' :: value.toList

def render (a : Attributes) : Bytes :=
  Utf8.encode
    (a.pairs.flatMap (fun p => fold lineWidth (logicalLine p.1 p.2) ++ lineEnd) ++ lineEnd)

end FatJar.Manifest
