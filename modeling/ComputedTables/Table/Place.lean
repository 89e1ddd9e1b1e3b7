import Std.Data.ExtTreeMap.Lemmas

/-!
# Places

A cell is found by its row and its column, both counted from zero.  Places are ordered by row first,
so they can be the keys of a map.
-/

namespace ComputedTables

/-- Where a cell stands. -/
structure Place where
  row : Nat
  column : Nat
  deriving DecidableEq, Repr

namespace Place

/-- Compares the rows first, then the columns. -/
def order : Place → Place → Ordering :=
  compareLex (compareOn row) (compareOn column)

instance : Ord Place := ⟨order⟩

instance : Std.TransOrd Place :=
  inferInstanceAs (Std.TransCmp (compareLex (compareOn row) (compareOn column)))

instance : Std.LawfulEqOrd Place where
  eq_of_compare {p q} h := by
    have h : compareLex (compareOn row) (compareOn column) p q = .eq := h
    rw [compareLex_eq_eq] at h
    cases p
    cases q
    simpa [compareOn] using h

end Place

end ComputedTables
