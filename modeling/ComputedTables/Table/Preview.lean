import ComputedTables.Table.Computed

/-!
# Previews

A preview displays tables from their texts alone, without the row between header and data and
without anything that was remembered.  The first row counts as a header, and gives no values, when
fewer than half of its cells start with a number.
-/

namespace ComputedTables

/-- Whether a row is taken for a header. -/
def isMostlyText (row : List String) : Bool :=
  2 * (row.filter fun text => (Decimal.leading? text).isSome).length < row.length

/-- The cells of a row without their values. -/
def withoutValues (row : List Cell) : List Cell :=
  row.map fun cell => { cell with value := none }

/-- The grid of a preview. -/
def Grid.ofPreview (rows : List (List String)) : Grid :=
  match rows with
  | [] => []
  | first :: others =>
    let header := first.map Cell.ofText
    (if isMostlyText first then withoutValues header else header) :: Grid.ofTexts others

/-- The displayed texts of a table given by its texts. -/
def previewRows (lookup : Lookup) (formatter : Formatter) (rows : List (List String)) :
    List (List String) :=
  ((Grid.ofPreview rows).evaluate lookup).displayTexts lookup formatter

/-- The lines of a table in a preview; the row between header and data stays as it is. -/
def previewTable (lookup : Lookup) (formatter : Formatter) (lines : List String) : List String :=
  let rows := lines.map lineCells
  if (Grid.ofTexts rows).hasSeparator then
    let displayed := (previewRows lookup formatter (rows.eraseIdx 1)).map rowLine
    displayed.take 1 ++ (lines.drop 1).take 1 ++ displayed.drop 1
  else (previewRows lookup formatter rows).map rowLine

/-- A text with all its tables replaced by their previews. -/
def previewText (lookup : Lookup) (formatter : Formatter) (text : String) : String :=
  Text.unlines <| (tables text).foldl
    (fun lines span => replaceLines lines span.start (previewTable lookup formatter span.lines))
    (Text.lines text)

end ComputedTables
