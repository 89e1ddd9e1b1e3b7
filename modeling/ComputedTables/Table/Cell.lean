import ComputedTables.Text.Blank
import ComputedTables.Decimal.Literal

/-!
# Cells

A cell is its trimmed text and its value.  A cell whose text starts with an equals sign is a formula
and gets its value from evaluation; any other cell has the value of the literal it starts with.
-/

namespace ComputedTables

/-- A cell of a table. -/
structure Cell where
  content : String
  value : Option Float
  deriving DecidableEq, Repr

/-- Whether a text is marked as a formula. -/
def isFormulaText (text : String) : Bool :=
  text.toList.head? == some '='

/-- Whether a cell is a formula. -/
def Cell.isFormula (cell : Cell) : Bool :=
  isFormulaText cell.content

/-- The cell with the given text. -/
def Cell.ofText (text : String) : Cell :=
  let content := Text.trimmed text
  { content, value := if isFormulaText content then none else Decimal.literal? content }

/-- A formula without its mark. -/
def Cell.body? (cell : Cell) : Option String :=
  if cell.isFormula then some (String.ofList (cell.content.toList.drop 1)) else none

/-- The value that a cell adds to a range, which may be asked to leave formulas out. -/
def Cell.counted (dataOnly : Bool) (cell : Cell) : Option Float :=
  if dataOnly && cell.isFormula then none else cell.value

end ComputedTables
