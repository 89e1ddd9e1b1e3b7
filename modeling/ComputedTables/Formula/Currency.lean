import ComputedTables.Formula.Segments

/-!
# The currency a formula asks for

The currency of a result is looked up in the text of its formula, without reading its calls: it is
the first argument of three letters.  A formula that is nothing but a reference has no currency of
its own and takes that of the variable it reads.
-/

namespace ComputedTables

/-- Three letters that a comma or a closing parenthesis follows, blanks around them aside, as a
currency code. -/
def currencyArgument? (cs : List Char) : Option String :=
  match Text.dropBlanks cs with
  | a :: b :: c :: rest =>
    if [a, b, c].all Char.isAlpha then
      match Text.dropBlanks rest with
      | ',' :: _ | ')' :: _ => some (String.ofList (Text.uppercase [a, b, c]))
      | _ => none
    else none
  | _ => none

/-- The first currency code that stands as an argument behind a comma. -/
def currencyCode? : List Char → Option String
  | [] => none
  | c :: cs =>
    match if c = ',' then currencyArgument? cs else none with
    | some code => some code
    | none => currencyCode? cs

/-- The document and the variable of a formula that is one reference and nothing else. -/
def loneNote? (formula : List Char) : Option (String × String) :=
  match cutFormula (Text.trim formula) with
  | .ok [.call (.note document name)] => some (document, name)
  | _ => none

end ComputedTables
