import ComputedTables.Json.Token

/-!
# JSON values, read from tokens

Reading is a fold over the tokens with a stack of the arrays and objects that are still open, so
values may be nested to any depth.  A key may occur more than once in an object; all members are
kept in their order.
-/

namespace ComputedTables.Json

/-- A JSON value.  Strings and keys that stand for no text are none. -/
inductive Value where
  | null
  | bool (value : Bool)
  | number (value : Number)
  | string (text : Option String)
  | array (items : List Value)
  | object (members : List (Option String × Value))

/-- An array or an object that is still open, with what has been read of it, the last first; an
object also with the key read last. -/
inductive Frame where
  | array (items : List Value)
  | object (members : List (Option String × Value)) (key : Option String)

/-- What may follow. -/
inductive Awaiting where
  /-- A value, or the end of an array that is empty so far. -/
  | value (closable : Bool)
  /-- A key, or the end of an object that is empty so far. -/
  | key (closable : Bool)
  | colon
  /-- A comma or the end of what is open. -/
  | next

/-- How far a value has been read. -/
inductive Reading where
  | open (frames : List Frame) (awaiting : Awaiting)
  | complete (value : Value)

def Reading.start : Reading :=
  .open [] (.value false)

/-- Puts a value that has been read into what is open around it. -/
def Reading.add (frames : List Frame) (v : Value) : Reading :=
  match frames with
  | [] => .complete v
  | .array items :: outer => .open (.array (v :: items) :: outer) .next
  | .object members key :: outer => .open (.object ((key, v) :: members) none :: outer) .next

/-- The value of a token that is one by itself. -/
def Token.value? : Token → Option Value
  | .null => some .null
  | .bool b => some (.bool b)
  | .number n => some (.number n)
  | .string text => some (.string text)
  | _ => none

/-- Reads one token. -/
def Reading.step : Reading → Token → Option Reading
  | .complete _, _ => none
  | .open frames (.value _), .openBracket => some (.open (.array [] :: frames) (.value true))
  | .open frames (.value _), .openBrace => some (.open (.object [] none :: frames) (.key true))
  | .open (.array items :: outer) (.value true), .closeBracket =>
    some (.add outer (.array items.reverse))
  | .open frames (.value _), token => token.value?.map (.add frames)
  | .open (.object members _ :: outer) (.key _), .string text =>
    some (.open (.object members text :: outer) .colon)
  | .open (.object members _ :: outer) (.key true), .closeBrace =>
    some (.add outer (.object members.reverse))
  | .open frames .colon, .colon => some (.open frames (.value false))
  | .open (.array items :: outer) .next, .comma =>
    some (.open (.array items :: outer) (.value false))
  | .open (.object members key :: outer) .next, .comma =>
    some (.open (.object members key :: outer) (.key false))
  | .open (.array items :: outer) .next, .closeBracket => some (.add outer (.array items.reverse))
  | .open (.object members _ :: outer) .next, .closeBrace =>
    some (.add outer (.object members.reverse))
  | .open _ _, _ => none

/-- The value that has been read when the tokens end. -/
def Reading.finish : Reading → Option Value
  | .complete v => some v
  | .open _ _ => none

namespace Value

/-- The value that a text writes. -/
def ofText? (text : String) : Option Value := do
  let reading ← (← tokens text).foldlM Reading.step Reading.start
  reading.finish

/-- The value of a number. -/
def toFloat? : Value → Option Float
  | .number n => n.toFloat?
  | _ => none

/-- The value of a number below 256. -/
def toByte? : Value → Option UInt8
  | .number n => n.toByte?
  | _ => none

/-- The text of a string. -/
def toText? : Value → Option String
  | .string text => text
  | _ => none

/-- The members of an object, if all keys stand for texts. -/
def members? : Value → Option (List (String × Value))
  | .object members => members.mapM fun (key, v) => key.map (·, v)
  | _ => none

/-- The fields of a record.  It is written as an object, in which none of the fields is repeated
and other members do not count, or as an array of some first fields in their order. -/
def fields? (names : List String) (v : Value) : Option (List (String × Value)) :=
  match v with
  | .array items => if items.length ≤ names.length then some (names.zip items) else none
  | v => do
    let fields := (← v.members?).filter fun (name, _) => names.contains name
    if (fields.map Prod.fst).Nodup then some fields else none

end Value

end ComputedTables.Json
