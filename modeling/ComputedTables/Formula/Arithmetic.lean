import ComputedTables.Formula.Error

/-!
# Arithmetic texts

A text is read as an expression one token at a time, so of two faults the one that comes first in
the text is reported.  One exception is kept: whatever goes wrong right behind a parenthesis that
closes another one is reported as a mismatch of the two.
-/

namespace ComputedTables

/-- The characters an arithmetic text may consist of. -/
def isArithmetic (c : Char) : Bool :=
  c.isDigit || ['+', '-', '*', '/', '.', '(', ')', ' '].contains c

/-- The text without the characters that arithmetic does not use. -/
def keepArithmetic (cs : List Char) : List Char :=
  cs.filter isArithmetic

/-- The expression that a cut text writes. -/
def Lexed.expr (l : Lexed) : Except ParseFault (Expr Float) :=
  match l.tokens.foldlM Reading.step Reading.start, l.fault with
  | .error fault, _ => .error (.structural fault)
  | .ok reading, none =>
    match reading.finish with
    | .error fault => .error (.structural fault)
    | .ok expr => .ok expr
  | .ok _, some fault =>
    if l.tokens.getLast? = some .closeParen then .error (.structural .mismatched)
    else .error (.lexical fault)

/-- The expression that characters write. -/
def Expr.parse (cs : List Char) : Except ParseFault (Expr Float) :=
  (Lexed.ofChars false cs).expr

/-- The value of an expression, or the failure to have one. -/
def Expr.evaluate (expr : Expr Float) : Except FormulaError Float :=
  match expr.eval with
  | some value => .ok value
  | none => .error .divisionByZero

/-- The value of an arithmetic text, whatever arithmetic does not use left out. -/
def calculate (cs : List Char) : Except FormulaError Float :=
  let sanitized := keepArithmetic cs
  if Text.trim sanitized = [] then .error (.parse .empty)
  else
    match Expr.parse sanitized with
    | .error fault => .error (.parse fault)
    | .ok expr => expr.evaluate

end ComputedTables
