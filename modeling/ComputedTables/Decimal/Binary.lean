/-!
# Binary64 numbers, taken apart

Every finite binary64 number is a sign, a natural number and a power of two.  What is written about
numbers in this library, shortest digits and fixed places alike, is computed from these in exact
arithmetic.
-/

namespace ComputedTables.Decimal

/-- The size of a binary64 number; a finite one is `mantissa * 2 ^ exponent`. -/
inductive Magnitude where
  | nan
  | infinite
  | finite (mantissa : Nat) (exponent : Int)
  deriving DecidableEq, Repr

/-- A binary64 number as a sign and a size. -/
structure Binary where
  negative : Bool
  magnitude : Magnitude
  deriving DecidableEq, Repr

/-- Takes a number apart by its bits: one for the sign, eleven for the exponent, fifty-two for the
mantissa, whose leading bit is left out except in the subnormal numbers. -/
def Binary.ofFloat (x : Float) : Binary :=
  let bits := x.toBits.toNat
  let exponent : Nat := bits / Nat.pow 2 52 % Nat.pow 2 11
  let fraction : Nat := bits % Nat.pow 2 52
  { negative := bits / Nat.pow 2 63 == 1
    magnitude :=
      if exponent = 2047 then
        if fraction = 0 then .infinite else .nan
      else if exponent = 0 then .finite fraction (-1074)
      else .finite (Nat.pow 2 52 + fraction) ((exponent : Int) - 1075) }

end ComputedTables.Decimal
