import ComputedTables.Text.Word

/-!
# Function calls

A call either aggregates the values of a range of cells or reads a variable that a document
published.  A range is the rest of the row or of the column that the formula stands in.
-/

namespace ComputedTables

/-- The functions over the values of a range. -/
inductive Aggregate where
  | sum
  | average
  | minimum
  | maximum
  deriving DecidableEq, Repr

/-- The name of an aggregate in a formula. -/
def Aggregate.name : Aggregate → String
  | .sum => "SUM"
  | .average => "AVG"
  | .minimum => "MIN"
  | .maximum => "MAX"

/-- The cells a call looks at, as seen from the cell that holds it. -/
inductive Range where
  | row
  | column
  deriving DecidableEq, Repr

/-- A call inside a formula. -/
inductive Call where
  /-- An aggregate over a range; `dataOnly` leaves formula cells out, and `currency` only says how
  the result is displayed. -/
  | aggregate (function : Aggregate) (range : Range) (dataOnly : Bool) (currency : Option String)
  /-- The value that a document published under a name. -/
  | note (document name : String)
  deriving DecidableEq, Repr

/-- A piece of a formula: plain characters or a call. -/
inductive Segment where
  | text (chars : List Char)
  | call (call : Call)
  deriving DecidableEq, Repr

/-- The sum of numbers from left to right; without numbers it is `-0`, which is neutral for
addition also in front of `-0`. -/
def total (values : List Float) : Float :=
  values.foldl (· + ·) (-0.0)

/-- The smallest of numbers, those that are no number left out; the earlier one of equal zeros. -/
def smallest (values : List Float) : Float :=
  values.foldl (fun least value => if value < least then value else least) (1.0 / 0.0)

/-- The largest of numbers, those that are no number left out; the earlier one of equal zeros. -/
def largest (values : List Float) : Float :=
  values.foldl (fun most value => if most < value then value else most) (-1.0 / 0.0)

/-- An aggregate of values; there is none of no values. -/
def Aggregate.apply (function : Aggregate) (values : List Float) : Option Float :=
  if values.isEmpty then none
  else some <|
    match function with
    | .sum => total values
    | .average => total values / Float.ofNat values.length
    | .minimum => smallest values
    | .maximum => largest values

end ComputedTables
