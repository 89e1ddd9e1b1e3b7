import ComputedTables.Formula.Arithmetic
import ComputedTables.Formula.Currency
import ComputedTables.Table.Grid
import ComputedTables.Variable.Index

/-!
# Evaluating formulas

The calls of a formula are replaced by their values, written positionally, and the text that comes
out is calculated.  A table is evaluated formula by formula in row-major order, each formula seeing
the results of those before it; a formula that has no value leaves its cell without one.
-/

namespace ComputedTables

/-- The value of a call in the formula at a place. -/
def Call.value (lookup : Lookup) (grid : Grid) (p : Place) : Call → Except FormulaError Float
  | .aggregate function range dataOnly _ =>
    match function.apply (grid.valuesIn range p dataOnly) with
    | some value => .ok value
    | none => .error (.emptyRange function)
  | .note document name =>
    match lookup document name with
    | some found => .ok found.value
    | none => .error (.unresolvedNote document name)

/-- What stands in for a segment once its call is replaced by its value. -/
def Segment.substituted (lookup : Lookup) (grid : Grid) (p : Place) :
    Segment → Except FormulaError (List Char)
  | .text cs => .ok cs
  | .call inner => (inner.value lookup grid p).map Decimal.plain.chars

/-- The characters of a formula behind its mark, if it has one. -/
def unmarked (formula : String) : List Char :=
  match formula.toList with
  | '=' :: cs => cs
  | cs => cs

/-- The value of the formula at a place, or why it has none. -/
def evalFormula (lookup : Lookup) (grid : Grid) (p : Place) (formula : String) :
    Except FormulaError Float := do
  let segments ← cutFormula (Text.trim (unmarked formula))
  let parts ← segments.mapM (Segment.substituted lookup grid p)
  calculate parts.flatten

/-- The value of the formula at a place, if it has one. -/
def evalFormula? (lookup : Lookup) (grid : Grid) (p : Place) (formula : String) : Option Float :=
  (evalFormula lookup grid p formula).toOption

/-- The currency that the result of a formula is displayed in: the one it asks for, or that of the
variable it is a reference to. -/
def resultCurrency (lookup : Lookup) (formula : String) : Option String :=
  match currencyCode? (unmarked formula) with
  | some code => some code
  | none =>
    match loneNote? (unmarked formula) with
    | some (document, name) => (lookup document name).bind (·.currency)
    | none => none

/-- Evaluates the formula at one place and stores its value, if it has one. -/
def Grid.compute (lookup : Lookup) (grid : Grid) (p : Place) : Grid :=
  match (grid.cell? p).bind fun cell => evalFormula? lookup grid p cell.content with
  | some value => grid.setValue p value
  | none => grid

/-- Evaluates all formulas in row-major order. -/
def Grid.evaluate (lookup : Lookup) (grid : Grid) : Grid :=
  grid.formulaPlaces.foldl (Grid.compute lookup) grid

end ComputedTables
