import ComputedTables.Variable.Index

/-!
# Where the index is kept

A store holds one index.  Any save may fail, and a save that fails leaves the contents as they
were.
-/

namespace ComputedTables

/-- What kind of thing went wrong with something stored. -/
inductive StorageError where
  | io
  | json
  deriving DecidableEq, Repr

/-- A store of an index. -/
structure Store where
  contents : Index := ∅
  /-- How many saves have been completed. -/
  saves : Nat := 0
  /-- How many saves have been tried. -/
  attempts : Nat := 0
  /-- Which saves fail, counting the tries from zero. -/
  saveFails : Nat → Bool := fun _ => false
  loadFails : Bool := false

/-- The stored index. -/
def Store.load (s : Store) : Except StorageError Index :=
  if s.loadFails then .error .io else .ok s.contents

/-- Stores an index: whether that worked, and the store after it. -/
def Store.save (s : Store) (index : Index) : Bool × Store :=
  let tried := { s with attempts := s.attempts + 1 }
  if s.saveFails s.attempts then (false, tried)
  else (true, { tried with contents := index, saves := s.saves + 1 })

end ComputedTables
