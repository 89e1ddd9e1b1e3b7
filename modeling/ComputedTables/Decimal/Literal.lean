import ComputedTables.Text.Blank

/-!
# Reading decimal literals

A literal cell is read by its longest numeric start: a sign, digits with at most one point, and an
exponent, of which at least one digit must stand before the exponent.  What follows is ignored, so
`12 kg` is twelve and `1e` is one.  A literal too large to be finite has no value.
-/

namespace ComputedTables.Decimal

/-- The natural number that digits write. -/
def ofDigits (digits : List Char) : Nat :=
  digits.foldl (fun n c => 10 * n + (c.toNat - '0'.toNat)) 0

/-- An exponent brought into range.  An integer of `digits` digits, not zero, is infinite times
`10 ^ 400` and zero times `10 ^ (-digits - 400)`, so larger exponents of either sign change
nothing. -/
def clampPower (digits : Nat) (power : Int) : Int :=
  max (-(digits + 400 : Nat)) (min 400 power)

/-- The number nearest to the decimal `whole.fraction * 10 ^ exponent`, negated if asked for; a
negated zero keeps its sign. -/
def nearest (negative : Bool) (whole fraction : List Char) (exponent : Int) : Float :=
  let digits := whole ++ fraction
  let power := clampPower digits.length (exponent - fraction.length)
  let size := Float.ofScientific (ofDigits digits) (power < 0) power.natAbs
  if negative then -size else size

/-- A sign at the start: whether it is a minus, and what follows. -/
def takeSign : List Char → Bool × List Char
  | '-' :: cs => (true, cs)
  | '+' :: cs => (false, cs)
  | cs => (false, cs)

/-- The digits at the start, and what follows. -/
def takeDigits (cs : List Char) : List Char × List Char :=
  (cs.takeWhile Char.isDigit, cs.dropWhile Char.isDigit)

/-- The digits after a point at the start, and what follows; no point is like a point with no
digits, except that it stays. -/
def takeFraction : List Char → List Char × List Char
  | '.' :: cs => takeDigits cs
  | cs => ([], cs)

/-- The exponent at the start: a letter `e`, a sign and digits.  Without digits there is none. -/
def takeExponent : List Char → Int
  | e :: cs =>
    if e = 'e' ∨ e = 'E' then
      let (negative, rest) := takeSign cs
      let exponent : Int := ofDigits (takeDigits rest).1
      if negative then -exponent else exponent
    else 0
  | [] => 0

/-- The value of the longest numeric start, if there is one and it is finite. -/
def numericStart? (cs : List Char) : Option Float :=
  let (negative, unsigned) := takeSign cs
  let (whole, afterWhole) := takeDigits unsigned
  let (fraction, afterFraction) := takeFraction afterWhole
  if whole.isEmpty && fraction.isEmpty then none
  else
    let value := nearest negative whole fraction (takeExponent afterFraction)
    if value.isFinite then some value else none

/-- The number that a text starts with, blanks at its ends aside. -/
def leading? (text : String) : Option Float :=
  numericStart? (Text.trim text.toList)

/-- The characters that a literal cell may carry besides its number: the thousands separator and
currency signs. -/
def ornaments : List Char :=
  [',', '$', '€', '£', '¥', '₹']

/-- The value of a literal cell: its ornaments are dropped wherever they stand, then the leading
number is read. -/
def literal? (text : String) : Option Float :=
  numericStart? (Text.trim (text.toList.filter (fun c => !ornaments.contains c)))

end ComputedTables.Decimal
