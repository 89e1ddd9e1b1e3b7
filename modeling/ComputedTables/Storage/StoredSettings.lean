import ComputedTables.Display.Settings
import ComputedTables.Engine.Store
import ComputedTables.Json.Value
import ComputedTables.Json.Writer

/-!
# Stored settings

Settings are stored as an object; a field that is left out has its usual value.  Whoever uses them
brings them into range first, and does without them when they cannot be read.
-/

namespace ComputedTables.Settings

def ofJson? (v : Json.Value) : Option Settings := do
  let fields ← v.fields? ["precision", "locale"]
  let usual : Settings := {}
  let precision ← ((fields.lookup "precision").map (·.toByte?)).getD (some usual.precision)
  let locale ← ((fields.lookup "locale").map (·.toText?)).getD (some usual.locale)
  some { precision, locale }

def text (s : Settings) : String :=
  Json.objectText 0 [("precision", String.ofList (Decimal.digitChars s.precision.toNat)),
    ("locale", Json.stringText s.locale)]

/-- Reads the contents of a settings file, if there is one. -/
def ofFile (contents : Option String) : Except StorageError (Option Settings) :=
  match contents with
  | none => .ok none
  | some text =>
    match (Json.Value.ofText? text).bind ofJson? with
    | some settings => .ok (some settings)
    | none => .error .json

/-- The settings to use, given the contents of a settings file. -/
def fromFile (contents : Option String) : Settings :=
  match ofFile contents with
  | .ok (some settings) => settings.inRange
  | _ => {}

end ComputedTables.Settings
