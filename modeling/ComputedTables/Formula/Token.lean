import ComputedTables.Decimal.Layout

/-!
# Tokens of an arithmetic expression

A token is a number, one of the four operators or a parenthesis.  Numbers may be of any type: the
values of literals when a text is read, or whatever else is to stand at the leaves of a tree.
-/

namespace ComputedTables

/-- The four arithmetic operators. -/
inductive Operator where
  | add
  | subtract
  | multiply
  | divide
  deriving DecidableEq, Repr

/-- Whether an operator binds as tightly as a product. -/
def Operator.isProduct : Operator → Bool
  | .multiply | .divide => true
  | .add | .subtract => false

/-- A token of an expression with numbers of type `α`. -/
inductive Token (α : Type) where
  | number (value : α)
  | operator (op : Operator)
  | openParen
  | closeParen
  deriving DecidableEq, Repr

/-- Whether a token ends an operand, so that a minus after it is an operator and not a sign. -/
def Token.endsOperand {α : Type} : Token α → Bool
  | .number _ | .closeParen => true
  | .operator _ | .openParen => false

/-- How a message names an operator. -/
def Operator.label : Operator → String
  | .add => "Plus"
  | .subtract => "Minus"
  | .multiply => "Multiply"
  | .divide => "Divide"

/-- How a message names a token. -/
def Token.label : Token Float → String
  | .number value => "Number(" ++ Decimal.literal.text value ++ ")"
  | .operator op => op.label
  | .openParen => "LeftParen"
  | .closeParen => "RightParen"

end ComputedTables
