import ComputedTables.Formula.Token

/-!
# Expressions, read from tokens

An expression is a binary tree.  Tokens are read from left to right with the usual precedences:
products bind tighter than sums and both associate to the left.  At any point the reader either
wants an operand or has just read one; what still waits for a right operand is at most one sum and
one product at each depth of parentheses (`Pending`), so reading is a fold of `Reading.step` over
the tokens and `Reading.finish` at their end.
-/

namespace ComputedTables

/-- An arithmetic expression with leaves of type `α`. -/
inductive Expr (α : Type) where
  | leaf (value : α)
  | binary (op : Operator) (left right : Expr α)
  deriving DecidableEq, Repr

/-- Why tokens are no expression. -/
inductive SyntaxFault (α : Type) where
  /-- Where an operand should start stands another token, or none. -/
  | unexpected (token : Option (Token α))
  /-- A token is left after a whole expression. -/
  | leftOver (token : Token α)
  /-- A parenthesis is not closed where it should be. -/
  | mismatched
  deriving DecidableEq, Repr

/-- What waits for its right operand at one depth of parentheses: the left side and the operator of
a sum, and those of a product inside it. -/
structure Pending (α : Type) where
  sum : Option (Expr α × Operator) := none
  product : Option (Expr α × Operator) := none
  deriving DecidableEq, Repr

/-- An operand as the right side of whatever waits for it. -/
def Pending.complete {α : Type} : Option (Expr α × Operator) → Expr α → Expr α
  | some (left, op), right => .binary op left right
  | none, right => right

/-- The whole expression of one depth, once its last operand is known. -/
def Pending.close {α : Type} (p : Pending α) (operand : Expr α) : Expr α :=
  complete p.sum (complete p.product operand)

/-- What waits after an operand and an operator. -/
def Pending.extend {α : Type} (p : Pending α) (operand : Expr α) (op : Operator) : Pending α :=
  if op.isProduct then { p with product := some (complete p.product operand, op) }
  else { sum := some (p.close operand, op), product := none }

/-- How far an expression has been read: what waits at the current depth and at the depths around
it, and the operand just read, if the last token ended one. -/
inductive Reading (α : Type) where
  | wanting (here : Pending α) (around : List (Pending α))
  | having (operand : Expr α) (here : Pending α) (around : List (Pending α))
  deriving DecidableEq, Repr

def Reading.start {α : Type} : Reading α :=
  .wanting {} []

/-- The fault of a token after an operand that neither continues nor closes the expression. -/
def SyntaxFault.after {α : Type} (around : List (Pending α)) (token : Token α) : SyntaxFault α :=
  if around.isEmpty then .leftOver token else .mismatched

/-- Reads one token. -/
def Reading.step {α : Type} : Reading α → Token α → Except (SyntaxFault α) (Reading α)
  | .wanting here around, .number value => .ok (.having (.leaf value) here around)
  | .wanting here around, .openParen => .ok (.wanting {} (here :: around))
  | .wanting _ _, token => .error (.unexpected (some token))
  | .having operand here around, .operator op => .ok (.wanting (here.extend operand op) around)
  | .having operand here (outer :: around), .closeParen =>
    .ok (.having (here.close operand) outer around)
  | .having _ _ around, token => .error (.after around token)

/-- The expression that has been read when the tokens end. -/
def Reading.finish {α : Type} : Reading α → Except (SyntaxFault α) (Expr α)
  | .wanting _ _ => .error (.unexpected none)
  | .having operand here [] => .ok (here.close operand)
  | .having _ _ (_ :: _) => .error .mismatched

/-- The expression that tokens write. -/
def Expr.ofTokens {α : Type} (tokens : List (Token α)) : Except (SyntaxFault α) (Expr α) := do
  (← tokens.foldlM Reading.step Reading.start).finish

/-- The value of an operation on two numbers, `none` for a division by a zero of either sign. -/
def Operator.apply (op : Operator) (a b : Float) : Option Float :=
  match op with
  | .add => some (a + b)
  | .subtract => some (a - b)
  | .multiply => some (a * b)
  | .divide => if b == 0 then none else some (a / b)

/-- The value of an expression, the left operand first; `none` once a division by zero is
reached. -/
def Expr.eval : Expr Float → Option Float
  | .leaf value => some value
  | .binary op left right => do
    let a ← left.eval
    let b ← right.eval
    op.apply a b

end ComputedTables
