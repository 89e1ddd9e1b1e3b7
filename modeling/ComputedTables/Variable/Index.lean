import Std.Data.ExtTreeMap.Lemmas

/-!
# Published variables

A document publishes variables under names, and the index holds the variables of all documents.
Both are ordered by name, so that they are written in one order only.
-/

namespace ComputedTables

open Std (ExtTreeMap)

/-- A published value and the currency it is displayed in. -/
structure Variable where
  value : Float
  currency : Option String := none
  deriving BEq, DecidableEq, Repr

/-- The variables of one document by name. -/
abbrev VariableSet := ExtTreeMap String Variable

/-- The variables of all documents that publish any. -/
abbrev Index := ExtTreeMap String VariableSet

/-- Read access to published variables, by document and name. -/
abbrev Lookup := String → String → Option Variable

/-- The lookup that finds nothing. -/
def Lookup.empty : Lookup :=
  fun _ _ => none

/-- Finds a variable in the index. -/
def Index.lookup (index : Index) : Lookup :=
  fun document name => index[document]?.bind (·[name]?)

/-- Whether two variables are the same by the comparison of numbers, for which zeros of either sign
are equal and what is no number differs from itself. -/
def Variable.agrees (a b : Variable) : Bool :=
  a.value == b.value && a.currency == b.currency

/-- Whether two sets have the same names and agree on each. -/
def VariableSet.agrees (a b : VariableSet) : Bool :=
  a.keys == b.keys && a.keys.all fun name =>
    match a[name]?, b[name]? with
    | some x, some y => x.agrees y
    | _, _ => false

end ComputedTables
