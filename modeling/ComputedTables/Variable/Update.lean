import ComputedTables.Variable.Index

/-!
# Changes of the index

Every change of the index says whether it changed anything: it gives the new index, or none when
the old one stays as it is.  What counts as a change is judged by `VariableSet.agrees`.
-/

namespace ComputedTables

/-- What happens to the entry of a document that publishes nothing any more. -/
inductive WhenEmpty where
  /-- The entry is removed. -/
  | clear
  /-- The entry stays. -/
  | keep
  deriving DecidableEq, Repr

namespace Index

/-- Removes the entry of a document. -/
def remove? (index : Index) (document : String) : Option Index :=
  if index.contains document then some (index.erase document) else none

/-- Replaces the entry of a document. -/
def replace? (index : Index) (policy : WhenEmpty) (document : String) (set : VariableSet) :
    Option Index :=
  if set.isEmpty then
    match policy with
    | .clear => index.remove? document
    | .keep => none
  else if index[document]?.any set.agrees then none
  else some (index.insert document set)

/-- Adds variables to the entry of a document, each in place of one with the same name. -/
def merge? (index : Index) (document : String) (set : VariableSet) : Option Index :=
  let old := index.getD document ∅
  let changed := set.filter fun name v => !old[name]?.any v.agrees
  if changed.isEmpty then none else some (index.insert document (old ∪ changed))

/-- Moves the entry of a document to another name. -/
def move? (index : Index) (old new : String) : Option Index :=
  index[old]?.map fun set => (index.erase old).insert new set

end Index

end ComputedTables
