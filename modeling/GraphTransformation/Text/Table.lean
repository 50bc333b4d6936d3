import GraphTransformation.Text.Width

/-!
Tables in a rounded frame.

Every cell is a list of lines. A column is as wide as its widest line, with a
blank on either side, and text stands at its left. One rule runs under the
header and none between the rows.
-/

namespace GraphTransformation.Table

/-- A row of cells. -/
abbrev Row := List String

/-- The lines of a cell. -/
def lines (cell : String) : List String := cell.splitOn "\n"

/-- The columns that a cell takes. -/
def cellWidth (cell : String) : Nat := ((lines cell).map Text.width).foldl max 0

/-- The widths of the columns of a table. -/
def widths (rows : List Row) : List Nat :=
  rows.foldl (fun ws row => List.zipWithAll (fun w c => max (w.getD 0) (c.getD 0)) ws
    (row.map cellWidth)) []

/-- A rule across the table with its left, middle and right joints. -/
def rule (left middle right : String) (ws : List Nat) : String :=
  left ++ middle.intercalate (ws.map fun w => String.join (List.replicate (w + 2) "─")) ++ right

/-- The `i`th line of a row. -/
def rowLine (ws : List Nat) (row : Row) (i : Nat) : String :=
  "│" ++ "│".intercalate ((ws.zip row).map fun (w, cell) =>
    " " ++ Text.padTo w ((lines cell)[i]?.getD "") ++ " ") ++ "│"

/-- The lines of a row, as many as its highest cell has. -/
def rowLines (ws : List Nat) (row : Row) : List String :=
  let height := (row.map fun cell => (lines cell).length).foldl max 0
  (List.range height).map (rowLine ws row)

/-- The table of a header and rows, without a line end after it. -/
def render (header : Row) (rows : List Row) : String :=
  let ws := widths (header :: rows)
  "\n".intercalate
    ([rule "╭" "┬" "╮" ws] ++ rowLines ws header ++ [rule "├" "┼" "┤" ws] ++
      rows.flatMap (rowLines ws) ++ [rule "╰" "┴" "╯" ws])

end GraphTransformation.Table
