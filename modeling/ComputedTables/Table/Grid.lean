import ComputedTables.Text.Lines
import ComputedTables.Formula.Call
import ComputedTables.Table.Cell
import ComputedTables.Table.Place

/-!
# Grids of cells

The rows of a table need not have the same length.  Row 1 separates the header from the data when
it holds nothing but dashes, colons, bars and blanks; it counts in no column.
-/

namespace ComputedTables

/-- The rows of a table. -/
abbrev Grid := List (List Cell)

/-- The texts between the bars of a table line. -/
def lineCells (line : String) : List String :=
  ((Text.pieces '|' line).drop 1).dropLast.map Text.trimmed

/-- The table line with the given texts. -/
def rowLine (texts : List String) : String :=
  "| " ++ Text.joined " | " texts ++ " |"

namespace Grid

/-- The grid with the given texts. -/
def ofTexts (rows : List (List String)) : Grid :=
  rows.map (·.map Cell.ofText)

/-- The grid of table lines. -/
def ofLines (lines : List String) : Grid :=
  ofTexts (lines.map lineCells)

/-- Whether a character may stand in the row between header and data. -/
def isRule (c : Char) : Bool :=
  c = '-' || c = ':' || c = '|' || Text.isBlank c

/-- Whether row 1 separates a header from the data. -/
def hasSeparator (grid : Grid) : Bool :=
  match grid[1]? with
  | some row => row.all fun cell => cell.content.toList.all isRule
  | none => false

/-- The cell at a place. -/
def cell? (grid : Grid) (p : Place) : Option Cell :=
  grid[p.row]?.bind (·[p.column]?)

/-- The grid with a value stored at a place. -/
def setValue (grid : Grid) (p : Place) (value : Float) : Grid :=
  grid.modify p.row fun row => row.modify p.column fun cell => { cell with value := some value }

/-- The places of formula cells, row by row from the top and each row from the left. -/
def formulaPlaces (grid : Grid) : List Place :=
  grid.zipIdx.flatMap fun (row, r) =>
    row.zipIdx.filterMap fun (cell, c) => if cell.isFormula then some ⟨r, c⟩ else none

/-- The values of the other cells in the row of a place. -/
def valuesInRow (grid : Grid) (p : Place) (dataOnly : Bool) : List Float :=
  (grid[p.row]?.getD []).zipIdx.filterMap fun (cell, c) =>
    if c = p.column then none else cell.counted dataOnly

/-- The values of the other cells in the column of a place, the separator row left out. -/
def valuesInColumn (grid : Grid) (p : Place) (dataOnly : Bool) : List Float :=
  grid.zipIdx.filterMap fun (row, r) =>
    if r = p.row ∨ (r = 1 ∧ grid.hasSeparator) then none
    else row[p.column]?.bind (Cell.counted dataOnly)

/-- The values of a range as seen from a place. -/
def valuesIn (grid : Grid) (range : Range) (p : Place) (dataOnly : Bool) : List Float :=
  match range with
  | .row => grid.valuesInRow p dataOnly
  | .column => grid.valuesInColumn p dataOnly

end Grid

end ComputedTables
