import ComputedTables.Decimal.Layout

/-!
# Fixed places

A number with a fixed count of fraction digits is the exact binary value, rounded to the nearest
point of that decimal grid; a value half way between two points goes to the even one.
-/

namespace ComputedTables.Decimal

/-- The natural number nearest to `numerator / denominator`, the even one of two that are equally
near. -/
def roundedQuotient (numerator denominator : Nat) : Nat :=
  let quotient := numerator / denominator
  let remainder := numerator % denominator
  if 2 * remainder < denominator then quotient
  else if 2 * remainder = denominator then quotient + quotient % 2
  else quotient + 1

/-- A decimal numeral with its digits before and after the point. -/
structure Numeral where
  whole : List Char
  fraction : List Char
  deriving DecidableEq, Repr

/-- How many units of `10 ^ -places` are nearest to `mantissa * 2 ^ exponent`. -/
def unitsOf (places mantissa : Nat) (exponent : Int) : Nat :=
  roundedQuotient (mantissa * Nat.pow 10 places * Nat.pow 2 exponent.toNat)
    (Nat.pow 2 (-exponent).toNat)

/-- `units * 10 ^ -places` as a numeral with exactly that many fraction digits. -/
def Numeral.ofUnits (places units : Nat) : Numeral :=
  let digits := digitChars units
  let padded := List.replicate (places + 1 - digits.length) '0' ++ digits
  { whole := padded.take (padded.length - places)
    fraction := padded.drop (padded.length - places) }

/-- The size of a finite number with a fixed count of places; its sign is left out, and so is a
number that is not finite. -/
def fixed (places : Nat) (x : Float) : Numeral :=
  match (Binary.ofFloat x).magnitude with
  | .finite mantissa exponent => Numeral.ofUnits places (unitsOf places mantissa exponent)
  | _ => { whole := [], fraction := [] }

end ComputedTables.Decimal
