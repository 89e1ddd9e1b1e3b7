import ComputedTables.Formula.Call
import ComputedTables.Formula.Lexed

/-!
# Why a formula has no value

Each way to fail is a cause of its own; `FormulaError.message` is the only place that words it.
-/

namespace ComputedTables

/-- Why an arithmetic text is no expression. -/
inductive ParseFault where
  /-- Nothing but blanks is left of the text. -/
  | empty
  | lexical (fault : LexicalFault)
  | structural (fault : SyntaxFault Float)
  deriving DecidableEq, Repr

/-- Why a formula has no value. -/
inductive FormulaError where
  | parse (fault : ParseFault)
  | divisionByZero
  | emptyRange (function : Aggregate)
  | unresolvedNote (document name : String)
  /-- A call that starts inside the arguments of another one, up to where it would close. -/
  | nestedCall (text : String)
  /-- A call that breaks off, up to where it does. -/
  | malformedCall (text : String)
  deriving DecidableEq, Repr

/-- The wording of a fault in the characters. -/
def LexicalFault.message : LexicalFault → String
  | .invalidNumber lexeme => "Invalid number: '" ++ lexeme ++ "'"
  | .unexpectedCharacter c => "Unexpected character: '" ++ c.toString ++ "'"

/-- The wording of a fault in the order of the tokens. -/
def SyntaxFault.message : SyntaxFault Float → String
  | .unexpected (some token) => "Unexpected token: " ++ token.label
  | .unexpected none => "Unexpected token: Eof"
  | .leftOver token => "Unexpected token at end: " ++ token.label
  | .mismatched => "Mismatched parentheses"

/-- The wording of a fault in an arithmetic text. -/
def ParseFault.message : ParseFault → String
  | .empty => "Empty expression"
  | .lexical fault => fault.message
  | .structural fault => fault.message

/-- The wording of a failure. -/
def FormulaError.message : FormulaError → String
  | .parse fault => "Parse error: " ++ fault.message
  | .divisionByZero => "Division by zero"
  | .emptyRange function => function.name ++ " over an empty range"
  | .unresolvedNote document name => "Unresolved NOTE(\"" ++ document ++ "\")." ++ name
  | .nestedCall text => "Nested function call: " ++ text
  | .malformedCall text => "Malformed function call: " ++ text

end ComputedTables
