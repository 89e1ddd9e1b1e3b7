/-!
# The shortest decimal that reads back

The reals that round to a binary64 number form an interval around it.  The shortest decimal of the
number is the point of the coarsest decimal grid that lies in the interval, and of two such points
the nearer one; the upper one if both are equally near.  If a point of a grid lies in the interval
then so does one of the two points of that grid next to the number, so only those are tried.
-/

namespace ComputedTables.Decimal

/-- The decimal number `digits * 10 ^ exponent`. -/
structure Scaled where
  digits : Nat
  exponent : Int
  deriving DecidableEq, Repr

/-- The interval of reals that round to a number, as multiples of `2 ^ exponent`: its ends, the
number itself, and whether the ends round to it as well. -/
structure Interval where
  lower : Nat
  value : Nat
  upper : Nat
  exponent : Int
  closed : Bool
  deriving DecidableEq, Repr

/-- The interval of `mantissa * 2 ^ exponent`.  Below a power of two the numbers lie half as far
apart; the ends go to the neighbour with an even mantissa. -/
def Interval.of (mantissa : Nat) (exponent : Int) : Interval :=
  { lower :=
      if mantissa = Nat.pow 2 52 ∧ -1074 < exponent then 4 * mantissa - 1 else 4 * mantissa - 2
    value := 4 * mantissa
    upper := 4 * mantissa + 2
    exponent := exponent - 2
    closed := mantissa % 2 == 0 }

/-- The factors that bring points of the grid `10 ^ grid` and multiples of `2 ^ exponent` to a
common denominator. -/
def Interval.scales (i : Interval) (grid : Int) : Nat × Nat :=
  (Nat.pow 10 grid.toNat * Nat.pow 2 (-i.exponent).toNat,
    Nat.pow 2 i.exponent.toNat * Nat.pow 10 (-grid).toNat)

/-- Whether the decimal `digits * 10 ^ grid` lies in the interval. -/
def Interval.contains (i : Interval) (digits : Nat) (grid : Int) : Bool :=
  let (ten, two) := i.scales grid
  let point := digits * ten
  (decide (i.lower * two < point) || (i.closed && i.lower * two == point))
    && (decide (point < i.upper * two) || (i.closed && i.upper * two == point))

/-- The points of the grid `10 ^ grid` at and after the number that lie in the interval, the
nearest one if there is one. -/
def Interval.nearest? (i : Interval) (grid : Int) : Option Scaled :=
  let (ten, two) := i.scales grid
  let below := i.value * two / ten
  let lower := decide (0 < below) && i.contains below grid
  let upper := i.contains (below + 1) grid
  match lower, upper with
  | true, true =>
    if i.value * two - below * ten < (below + 1) * ten - i.value * two then some ⟨below, grid⟩
    else some ⟨below + 1, grid⟩
  | true, false => some ⟨below, grid⟩
  | false, true => some ⟨below + 1, grid⟩
  | false, false => none

/-- Goes through grids from the given one on, each ten times as fine as the one before. -/
def Interval.search (i : Interval) : (grids : Nat) → (grid : Int) → Scaled
  | 0, grid => ⟨i.value * (i.scales grid).2 / (i.scales grid).1, grid⟩
  | grids + 1, grid => (i.nearest? grid).getD (i.search grids (grid - 1))

/-- A grid at least as coarse as any with a point in the interval: `0.30103` is a little more than
the logarithm of two. -/
def coarsestGrid (mantissa : Nat) (exponent : Int) : Int :=
  (exponent + mantissa.log2 + 1) * 30103 / 100000 + 1

/-- The shortest decimal that rounds to `mantissa * 2 ^ exponent`; seventeen digits always
suffice. -/
def shortest (mantissa : Nat) (exponent : Int) : Scaled :=
  if mantissa = 0 then ⟨0, 0⟩
  else (Interval.of mantissa exponent).search 20 (coarsestGrid mantissa exponent)

end ComputedTables.Decimal
