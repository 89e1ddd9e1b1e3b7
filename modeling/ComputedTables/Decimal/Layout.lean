import ComputedTables.Decimal.Binary
import ComputedTables.Decimal.Shortest

/-!
# Laying out shortest digits

A number is written by its shortest digits, either positionally or with an exponent.  The three
texts this library writes differ in a few decisions, which a `Layout` lists: `plain` is what is
substituted into an expression, `literal` is how an error message names a number, and `json` is how
a number is stored.
-/

namespace ComputedTables.Decimal

/-- The digits of a natural number. -/
def digitChars (n : Nat) : List Char :=
  Nat.toDigits 10 n

/-- How a number's digits are laid out. -/
structure Layout where
  /-- Which orders of magnitude are written positionally: `some (a, b)` stands for the numbers
  from `10 ^ a` on and below `10 ^ b`, `none` for all. -/
  positional : Option (Int × Int)
  /-- Whether a positional text shows at least one digit after the point. -/
  showsFraction : Bool
  /-- Whether an exponent that is not negative has a sign. -/
  signsExponent : Bool

/-- Digits with a decimal point after the first `point` of them, zeros filled in where there are
fewer digits or where the point stands before the first. -/
def positionalText (digits : List Char) (point : Int) (showsFraction : Bool) : List Char :=
  if point ≤ 0 then
    '0' :: '.' :: (List.replicate (-point).toNat '0' ++ digits)
  else if point < digits.length then
    digits.take point.toNat ++ '.' :: digits.drop point.toNat
  else
    digits ++ List.replicate (point.toNat - digits.length) '0'
      ++ (if showsFraction then ['.', '0'] else [])

/-- Digits with the point after the first of them and an exponent of ten. -/
def scientificText (digits : List Char) (order : Int) (signsExponent : Bool) : List Char :=
  let sign := if order < 0 then ['-'] else if signsExponent then ['+'] else []
  let mark := if digits.length ≤ 1 then [] else ['.']
  digits.take 1 ++ mark ++ digits.drop 1 ++ 'e' :: sign ++ digitChars order.natAbs

/-- The text of a finite number without its sign. -/
def Layout.magnitudeText (l : Layout) (mantissa : Nat) (exponent : Int) : List Char :=
  if mantissa = 0 then positionalText ['0'] 1 l.showsFraction
  else
    let s := shortest mantissa exponent
    let digits := digitChars s.digits
    let order := s.exponent + digits.length - 1
    match l.positional with
    | none => positionalText digits (order + 1) l.showsFraction
    | some (a, b) =>
      if a ≤ order ∧ order < b then positionalText digits (order + 1) l.showsFraction
      else scientificText digits order l.signsExponent

/-- The characters of a number. -/
def Layout.chars (l : Layout) (x : Float) : List Char :=
  let b := Binary.ofFloat x
  let sign := if b.negative then ['-'] else []
  match b.magnitude with
  | .nan => "NaN".toList
  | .infinite => sign ++ "inf".toList
  | .finite mantissa exponent => sign ++ l.magnitudeText mantissa exponent

/-- The text of a number. -/
def Layout.text (l : Layout) (x : Float) : String :=
  String.ofList (l.chars x)

/-- Positional at every size, so that a number never brings letters into an expression unless it
is not finite. -/
def plain : Layout :=
  { positional := none, showsFraction := false, signsExponent := false }

/-- A number as an error message names it: positional from `0.0001` on and below `10 ^ 16`. -/
def literal : Layout :=
  { positional := some (-4, 16), showsFraction := true, signsExponent := false }

/-- A finite number as it is stored: positional from `0.00001` on and below `10 ^ 16`. -/
def json : Layout :=
  { positional := some (-5, 16), showsFraction := true, signsExponent := true }

end ComputedTables.Decimal
