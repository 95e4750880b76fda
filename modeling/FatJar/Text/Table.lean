import FatJar.Text.Columns

namespace FatJar.Text

structure Table where
  header : List String
  rows : List (List String)

namespace Table

def cellLines (cell : String) : List String :=
  (cell.toList.splitOn '\n').map String.ofList

def cellWidth (cell : String) : Nat :=
  ((cellLines cell).map fun l => (columns l).toNat).foldl max 0

def padded (width : Nat) (text : String) : String :=
  text ++ String.ofList (List.replicate (width - columns text).toNat ' ')

theorem columns_padded {width : Nat} {text : String} (h : columns text ≤ width) :
    columns (padded width text) = width := by
  simp only [padded, columns, String.toList_append, String.toList_ofList,
    columnsOf_append_spaces] at h ⊢
  omega

def widths : List (List String) → List Nat
  | [] => []
  | [row] => row.map cellWidth
  | row :: rows => List.zipWith max (row.map cellWidth) (widths rows)

def line (widths : List Nat) (cells : List String) : String :=
  "|".intercalate (List.zipWith (fun w cell => " " ++ padded w cell ++ " ") widths cells)

def dashes (widths : List Nat) : String :=
  "+".intercalate (widths.map fun w => String.ofList (List.replicate (w + 2) '-'))

def rowLines (widths : List Nat) (row : List String) : List String :=
  let cells := row.map cellLines
  let height := (cells.map List.length).foldl max 0
  (List.range height).map fun i => line widths (cells.map fun ls => ls[i]?.getD "")

def lines (t : Table) : List String :=
  let ws := widths (t.header :: t.rows)
  rowLines ws t.header ++ dashes ws :: t.rows.flatMap (rowLines ws)

end Table

end FatJar.Text
