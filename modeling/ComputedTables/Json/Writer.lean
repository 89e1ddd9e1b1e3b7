import ComputedTables.Decimal.Layout

/-!
# Writing JSON

Objects are written with one member to a line, two spaces further in than what is around them; an
empty one on the line it starts on.  Every text that is written can be read again, except that a
number that is not finite is written as `null`.
-/

namespace ComputedTables.Json

/-- Two hexadecimal digits. -/
def hexPair (n : Nat) : List Char :=
  [Nat.digitChar (n / 16), Nat.digitChar (n % 16)]

/-- A character inside a string. -/
def charText (c : Char) : List Char :=
  match c with
  | '"' => ['\\', '"']
  | '\\' => ['\\', '\\']
  | '\x08' => ['\\', 'b']
  | '\x0c' => ['\\', 'f']
  | '\n' => ['\\', 'n']
  | '\r' => ['\\', 'r']
  | '\t' => ['\\', 't']
  | c => if c.val < 0x20 then ['\\', 'u', '0', '0'] ++ hexPair c.toNat else [c]

/-- A string. -/
def stringText (text : String) : String :=
  String.ofList ('"' :: text.toList.flatMap charText ++ ['"'])

/-- A number. -/
def floatText (x : Float) : String :=
  if x.isFinite then Decimal.json.text x else "null"

/-- The start of a line at a depth. -/
def indent (depth : Nat) : String :=
  String.ofList (List.replicate (2 * depth) ' ')

/-- An object at a depth, given the texts of its members one level deeper. -/
def objectText (depth : Nat) (members : List (String × String)) : String :=
  if members.isEmpty then "\x7b\x7d"
  else
    let lines := members.map fun (key, text) =>
      "\n" ++ indent (depth + 1) ++ stringText key ++ ": " ++ text
    "\x7b" ++ ",".intercalate lines ++ "\n" ++ indent depth ++ "\x7d"

end ComputedTables.Json
