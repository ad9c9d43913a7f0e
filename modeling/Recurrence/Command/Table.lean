import Recurrence.Command.Paint

/-!
# Tables

Rows of anything, shown through a list of columns. Every column is as wide as its widest
cell, counted in characters, and two spaces stand between columns. A cell is padded on
the side its column says, except that nothing is put behind the last column. Color goes
around the padded cell.
-/

namespace Recurrence.Command

/-- At which side of its column a cell stands. -/
inductive Alignment where
  /-- At the left, padded on the right. -/
  | left
  /-- At the right, padded on the left. -/
  | right
deriving DecidableEq, Repr

/-- A column of a table whose rows are of type `α`. -/
structure Column (α : Type) where
  /-- The text of the cell. -/
  cell : α → List Char
  /-- The side at which cells stand. -/
  alignment : Alignment
  /-- The color of the cell, if any. -/
  paint : α → Option Paint

namespace Table

/-- The width of a column: that of its widest cell. -/
def width (column : Column α) (rows : List α) : Nat :=
  rows.foldl (fun width row => max width (column.cell row).length) 0

/-- A cell brought to a width. -/
def pad (alignment : Alignment) (width : Nat) (cell : List Char) : List Char :=
  let blanks := List.replicate (width - cell.length) ' '
  match alignment with
  | .left => cell ++ blanks
  | .right => blanks ++ cell

/-- A cell with its color. -/
def paintCell (painted : Bool) (column : Column α) (row : α) (cell : List Char) : List Char :=
  match column.paint row with
  | some paint => paint.apply painted cell
  | none => cell

/-- The line of a row, through columns of some widths. -/
def line (painted : Bool) (row : α) : List (Column α × Nat) → List Char
  | [] => []
  | [(column, width)] =>
      let cell := match column.alignment with
        | .left => column.cell row
        | .right => pad .right width (column.cell row)
      paintCell painted column row cell ++ ['\n']
  | (column, width) :: columns =>
      paintCell painted column row (pad column.alignment width (column.cell row)) ++
        ' ' :: ' ' :: line painted row columns

/-- The lines of all rows. -/
def render (painted : Bool) (columns : List (Column α)) (rows : List α) : List Char :=
  let sized := columns.map fun column => (column, width column rows)
  rows.flatMap fun row => line painted row sized

end Table

end Recurrence.Command
