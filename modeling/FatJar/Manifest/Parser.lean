import FatJar.Manifest.Attributes
import FatJar.Text.Blank
import FatJar.Text.Lines
import FatJar.Text.Utf8

namespace FatJar.Manifest

/-- The attributes read so far, and the name that a continuation line adds to. -/
structure Reading where
  attributes : Attributes := .empty
  current : Option String := none

namespace Reading

def extend (r : Reading) (more : List Char) : Reading :=
  match r.current with
  | none => r
  | some name =>
    match r.attributes.get? name with
    | none => r
    | some value => { r with attributes := r.attributes.put name (value ++ String.ofList more) }

def header (r : Reading) (name value : List Char) : Reading :=
  let name := String.ofList (trim name)
  let value := if value.head? = some ' ' then value.tail else value
  { attributes := r.attributes.put name (String.ofList value), current := some name }

/-- A line that begins with a space continues a value; one without a colon is passed over. -/
def line (r : Reading) : List Char → Reading
  | ' ' :: more => r.extend more
  | text =>
    match cutAt? ':' text with
    | none => r
    | some (name, value) => r.header name value

end Reading

def parse (bs : Bytes) : Attributes :=
  let lines := (physicalLines (Utf8.decodeLossy bs)).takeWhile (· != [])
  (lines.foldl Reading.line {}).attributes

end FatJar.Manifest
