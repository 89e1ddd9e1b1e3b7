import ComputedTables.Engine.Store
import ComputedTables.Json.Value
import ComputedTables.Json.Writer

/-!
# The stored index

The index is stored as an object of documents, each an object of variables.  Of a document or a
variable that occurs more than once the last one counts.  Reading gives back what was written
unless a value is not finite, up to the last bit of a value.
-/

namespace ComputedTables

/-- Reads a text that may be left out. -/
def optionalText? : Json.Value → Option (Option String)
  | .null => some none
  | v => v.toText?.map some

def Variable.ofJson? (v : Json.Value) : Option Variable := do
  let fields ← v.fields? ["value", "currency"]
  let value ← (← fields.lookup "value").toFloat?
  let currency ← ((fields.lookup "currency").map optionalText?).getD (some none)
  some { value, currency }

/-- Reads the variables of a document. -/
def VariableSet.ofJson? (v : Json.Value) : Option VariableSet := do
  let entries ← (← v.members?).mapM fun (name, v) => (Variable.ofJson? v).map (name, ·)
  some (.ofList entries)

def Index.ofJson? (v : Json.Value) : Option Index := do
  let entries ← (← v.members?).mapM fun (name, v) => (VariableSet.ofJson? v).map (name, ·)
  some (.ofList entries)

/-- The members that a variable is written with. -/
def Variable.members (v : Variable) : List (String × String) :=
  ("value", Json.floatText v.value) :: v.currency.toList.map fun code =>
    ("currency", Json.stringText code)

/-- The text of an index. -/
def Index.text (index : Index) : String :=
  Json.objectText 0 <| index.toList.map fun (document, set) =>
    (document, Json.objectText 1 <| set.toList.map fun (name, v) =>
      (name, Json.objectText 2 v.members))

/-- Whether two indexes hold the same documents and agree on each. -/
def Index.agrees (a b : Index) : Bool :=
  a.keys == b.keys && a.keys.all fun document =>
    VariableSet.agrees (a.getD document ∅) (b.getD document ∅)

/-- Reads the contents of an index file; where there is no file the index is empty. -/
def Index.ofFile (contents : Option String) : Except StorageError Index :=
  match contents with
  | none => .ok ∅
  | some text =>
    match (Json.Value.ofText? text).bind Index.ofJson? with
    | some index => .ok index
    | none => .error .json

end ComputedTables
