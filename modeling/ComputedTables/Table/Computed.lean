import ComputedTables.Display.Number
import ComputedTables.Table.Evaluate
import ComputedTables.Table.Span
import ComputedTables.Variable.Name

/-!
# Computed tables

A computed table has its formulas evaluated, is written back with the results in their place, and
publishes a variable for each row that has a label in its first cell and a finite value in its last.
-/

namespace ComputedTables

/-- The text that a cell is displayed with: the result of a formula that has one, otherwise the
cell's own text. -/
def Cell.shownText (lookup : Lookup) (formatter : Formatter) (cell : Cell) : String :=
  match cell.isFormula, cell.value with
  | true, some value => formatter.text value (resultCurrency lookup cell.content)
  | _, _ => cell.content

/-- The variable that a row publishes. -/
def rowVariable? (lookup : Lookup) (row : List Cell) : Option (String × Variable) :=
  match row with
  | first :: second :: others =>
    let last := (second :: others).getLast (List.cons_ne_nil _ _)
    match last.value with
    | none => none
    | some value =>
      let name := variableName first.content
      let currency := if last.isFormula then resultCurrency lookup last.content else none
      if first.isFormula || first.content.isEmpty || !value.isFinite || name.isEmpty then none
      else some (name, { value, currency })
  | _ => none

/-- The variables that an evaluated grid publishes; of rows with the same name the last one
counts. -/
def Grid.published (lookup : Lookup) (grid : Grid) : VariableSet :=
  (grid.filterMap (rowVariable? lookup)).foldl (fun set (name, v) => set.insert name v) ∅

/-- The displayed texts of a grid. -/
def Grid.displayTexts (lookup : Lookup) (formatter : Formatter) (grid : Grid) :
    List (List String) :=
  grid.map (·.map (Cell.shownText lookup formatter))

/-- A table after its evaluation. -/
structure ComputedTable where
  grid : Grid
  lines : List String
  published : VariableSet

/-- Evaluates the table with the given lines. -/
def computeTable (lookup : Lookup) (formatter : Formatter) (lines : List String) : ComputedTable :=
  let grid := (Grid.ofLines lines).evaluate lookup
  { grid
    lines := (grid.displayTexts lookup formatter).map rowLine
    published := grid.published lookup }

/-- The variables that all tables of a text with formulas publish; a later table counts where two
have a name in common. -/
def publishedVariables (lookup : Lookup) (formatter : Formatter) (text : String) : VariableSet :=
  (formulaTables text).foldl
    (fun set span => set ∪ (computeTable lookup formatter span.lines).published) ∅

end ComputedTables
