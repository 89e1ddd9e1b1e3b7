import ComputedTables.Text.Blank

/-!
# Display settings
-/

namespace ComputedTables

/-- How numbers are displayed: the number of fraction digits and the tag of a locale. -/
structure Settings where
  precision : UInt8 := 2
  locale : String := "en-US"
  deriving DecidableEq, Repr

/-- More fraction digits than this are not displayed. -/
def Settings.maxPrecision : UInt8 := 10

/-- Settings with a precision that is not too large. -/
def Settings.create (precision : UInt8) (locale : String) : Settings :=
  { precision := min precision maxPrecision, locale }

/-- Settings brought back into range: the precision is cut, and a blank locale is replaced. -/
def Settings.inRange (s : Settings) : Settings :=
  { precision := min s.precision maxPrecision
    locale := if Text.trim s.locale.toList = [] then ({} : Settings).locale else s.locale }

/-- The number of fraction digits that numbers are displayed with. -/
def Settings.places (s : Settings) : Nat :=
  (min s.precision maxPrecision).toNat

end ComputedTables
