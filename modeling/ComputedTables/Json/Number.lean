import ComputedTables.Decimal.Literal

/-!
# Numbers in JSON

A number is kept as it is written and gets a value where one is needed.  As a binary64 number it is
its leading digits, as many as fit in 64 bits, times or divided by a power of ten; both steps round,
so the last bit may differ from that of the nearest number.  A number whose size is out of range has
no value, even though it is well formed.
-/

namespace ComputedTables.Json

/-- A number as it is written. -/
structure Number where
  negative : Bool
  whole : List Char
  /-- The digits behind the point, if there is one. -/
  fraction : Option (List Char)
  /-- The sign and the digits of the exponent, if there is one. -/
  exponent : Option (Bool × List Char)
  deriving DecidableEq, Repr

/-- Reads the digits behind a point, of which there must be one, if a point stands at the start. -/
def readFraction : List Char → Option (Option (List Char) × List Char)
  | '.' :: cs =>
    let (digits, rest) := Decimal.takeDigits cs
    if digits.isEmpty then none else some (some digits, rest)
  | cs => some (none, cs)

/-- Reads an exponent, of at least one digit, if one stands at the start. -/
def readExponent : List Char → Option (Option (Bool × List Char) × List Char)
  | [] => some (none, [])
  | c :: cs =>
    if c = 'e' ∨ c = 'E' then
      let (negative, unsigned) := Decimal.takeSign cs
      let (digits, rest) := Decimal.takeDigits unsigned
      if digits.isEmpty then none else some (some (negative, digits), rest)
    else some (none, c :: cs)

/-- Reads a number; a zero at the start of its digits must be the only one before the point. -/
def readNumber (cs : List Char) : Option (Number × List Char) := do
  let (negative, unsigned) :=
    match cs with
    | '-' :: rest => (true, rest)
    | rest => (false, rest)
  let (whole, rest) := Decimal.takeDigits unsigned
  if whole.isEmpty || (whole.head? == some '0' && 1 < whole.length) then none
  else
    let (fraction, rest) ← readFraction rest
    let (exponent, rest) ← readExponent rest
    some (⟨negative, whole, fraction, exponent⟩, rest)

namespace Number

/-- Takes digits into a number as long as it stays below `2 ^ 64`: the number, and the digits that
are left. -/
def absorb (n : Nat) : List Char → Nat × List Char
  | [] => (n, [])
  | c :: cs =>
    let next := 10 * n + Decimal.ofDigits [c]
    if next < 2 ^ 64 then absorb next cs else (n, c :: cs)

/-- The power of ten as a binary64 number. -/
def tenTo (n : Nat) : Float :=
  Float.ofScientific 1 false n

/-- `x * 10 ^ exponent`, in as few steps as possible; none if that is not finite. -/
def scaleBy (x : Float) (exponent : Int) : Option Float :=
  if exponent < -308 then
    if x == 0 then some x else scaleBy (x / tenTo 308) (exponent + 308)
  else if exponent < 0 then some (x / tenTo exponent.natAbs)
  else if exponent ≤ 308 then
    let scaled := x * tenTo exponent.natAbs
    if scaled.isInf then none else some scaled
  else if x == 0 then some x
  else none
termination_by exponent.natAbs

/-- The value of the exponent. -/
def exponentValue (n : Number) : Int :=
  match n.exponent with
  | none => 0
  | some (negative, digits) =>
    if negative then -(Decimal.ofDigits digits : Int) else Decimal.ofDigits digits

/-- The value as a binary64 number, if it is in range. -/
def toFloat? (n : Number) : Option Float :=
  let fraction := n.fraction.getD []
  let (significand, wholeLeft) := absorb 0 n.whole
  let (significand, fractionLeft) := absorb significand fraction
  let point : Int := (wholeLeft.length : Int) - (fraction.length - fractionLeft.length : Nat)
  (scaleBy (Float.ofNat significand) (point + n.exponentValue)).map fun size =>
    if n.negative then -size else size

/-- The value as a number below 256, if it is written without sign, point and exponent. -/
def toByte? (n : Number) : Option UInt8 :=
  let value := Decimal.ofDigits n.whole
  if n.negative || n.fraction.isSome || n.exponent.isSome || 256 ≤ value then none
  else some (UInt8.ofNat value)

end Number

end ComputedTables.Json
