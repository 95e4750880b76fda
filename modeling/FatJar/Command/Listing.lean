import FatJar.Archive.Reader
import FatJar.Decimal.Rounding
import FatJar.Entry.Kind
import FatJar.Text.Table

namespace FatJar

def EntryKind.sorted : List EntryKind :=
  [classFile, directory, resource, serviceFile, signature, manifest]

namespace Listing

def sizeText (bytes : Nat) : String :=
  if bytes < 1024 then toString bytes ++ " B"
  else if bytes < 1024 * 1024 then Decimal.fixed 1 bytes 1024 ++ " KB"
  else Decimal.fixed 1 bytes (1024 * 1024) ++ " MB"

def kindOf (e : Entry) : EntryKind :=
  EntryKind.ofPath e.path

def row (e : Entry) : List String :=
  [e.path, (kindOf e).label, sizeText e.size]

def table (entries : List Entry) : Text.Table where
  header := ["Path", "Class", "Size"]
  rows := entries.map row

def tally (entries : List Entry) : List (EntryKind × Nat) :=
  (EntryKind.sorted.map fun k => (k, entries.countP (kindOf · = k))).filter (·.2 ≠ 0)

def tallyLine (t : EntryKind × Nat) : String :=
  "  " ++ t.1.label ++ ": " ++ toString t.2

def lines (path : String) (entries : List Entry) : List String :=
  if entries.isEmpty then [path ++ " has no entries."]
  else (table entries).lines ++ "" :: (tally entries).map tallyLine

end Listing

end FatJar
