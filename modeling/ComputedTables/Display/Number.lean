import ComputedTables.Decimal.Fixed
import ComputedTables.Display.Locale
import ComputedTables.Display.Settings

/-!
# Displayed numbers

A value is rounded to the fixed number of places first; grouping, the decimal mark, the sign and the
currency only dress the digits.  Plain numbers lose trailing zeros of the fraction, amounts of money
keep them.  A minus is shown only where a digit that is not zero is.
-/

namespace ComputedTables

/-- The symbol that a currency code is displayed with: its own, or else the code. -/
def symbolOf (code : String) : String :=
  ([("USD", "$"), ("EUR", "€"), ("GBP", "£"), ("JPY", "¥"), ("INR", "₹"), ("CNY", "CN¥"),
    ("CHF", "CHF"), ("CAD", "CA$"), ("AUD", "A$"), ("BRL", "R$")].lookup code).getD code

/-- How numbers are displayed. -/
structure Formatter where
  places : Nat
  conventions : Conventions
  deriving DecidableEq, Repr

/-- The formatter for display settings. -/
def Settings.formatter (s : Settings) : Formatter :=
  { places := s.places, conventions := .ofTag s.locale }

/-- Digits in groups of three from the right, the first group possibly shorter. -/
def grouped (separator : Char) : List Char → List Char
  | [] => []
  | c :: cs =>
    if cs.length % 3 = 0 ∧ cs ≠ [] then c :: separator :: grouped separator cs
    else c :: grouped separator cs

/-- Fraction digits without the zeros at their end. -/
def dropZerosEnd (digits : List Char) : List Char :=
  (digits.reverse.dropWhile (· == '0')).reverse

/-- The digits of a numeral with separators and the decimal mark of a locale. -/
def Conventions.amount (c : Conventions) (n : Decimal.Numeral) : List Char :=
  grouped c.group n.whole ++ (if n.fraction.isEmpty then [] else c.mark :: n.fraction)

/-- Whether all digits of a numeral are zeros. -/
def Decimal.Numeral.isZero (n : Decimal.Numeral) : Bool :=
  (n.whole ++ n.fraction).all (· == '0')

/-- An amount next to the symbol of its currency.  A code that is displayed as it is stands apart
from the digits in every locale. -/
def Conventions.withCurrency (c : Conventions) (code : String) (amount : List Char) : List Char :=
  let symbol := symbolOf code
  let gap := if symbol = code ∧ c.gap = [] then [noBreakSpace] else c.gap
  match c.placement with
  | .before => symbol.toList ++ gap ++ amount
  | .after => amount ++ gap ++ symbol.toList

/-- The displayed characters of a finite value. -/
def Formatter.finiteChars (f : Formatter) (value : Float) (currency : Option String) : List Char :=
  let rounded := Decimal.fixed f.places value
  let sign := if value < 0 ∧ !rounded.isZero then ['-'] else []
  match currency with
  | none =>
    sign ++ f.conventions.amount { rounded with fraction := dropZerosEnd rounded.fraction }
  | some code => sign ++ f.conventions.withCurrency code (f.conventions.amount rounded)

/-- The displayed text of a value, as an amount of money if a currency is given. -/
def Formatter.text (f : Formatter) (value : Float) (currency : Option String) : String :=
  if value.isFinite then String.ofList (f.finiteChars value currency)
  else if value.isNaN then "NaN"
  else if value > 0 then "∞"
  else "-∞"

end ComputedTables
