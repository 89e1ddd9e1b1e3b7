import ComputedTables.Json.Number

/-!
# Tokens of JSON

Blanks here are four characters only.  A string may hold escapes for halves of surrogate pairs; if
they do not pair up it is well formed but stands for no text.
-/

namespace ComputedTables.Json

/-- What a string is made of: characters, and code units written as four hexadecimal digits. -/
inductive StringPart where
  | char (c : Char)
  | unit (value : Nat)
  deriving DecidableEq, Repr

/-- The value of a hexadecimal digit. -/
def hexValue? (c : Char) : Option Nat :=
  if '0' ≤ c ∧ c ≤ '9' then some (c.toNat - '0'.toNat)
  else if 'a' ≤ c ∧ c ≤ 'f' then some (c.toNat - 'a'.toNat + 10)
  else if 'A' ≤ c ∧ c ≤ 'F' then some (c.toNat - 'A'.toNat + 10)
  else none

/-- The value of hexadecimal digits. -/
def hexNumber? (digits : List Char) : Option Nat :=
  digits.foldlM (fun n c => (hexValue? c).map (16 * n + ·)) 0

/-- The character that a letter behind a backslash stands for. -/
def escaped? : Char → Option Char
  | '"' => some '"'
  | '\\' => some '\\'
  | '/' => some '/'
  | 'b' => some '\x08'
  | 'f' => some '\x0c'
  | 'n' => some '\n'
  | 'r' => some '\r'
  | 't' => some '\t'
  | _ => none

/-- Reads a string behind its opening quote, up to and with the closing one. -/
def readString : List Char → Option (List StringPart × List Char)
  | [] => none
  | '"' :: rest => some ([], rest)
  | '\\' :: 'u' :: a :: b :: c :: d :: rest => do
    let value ← hexNumber? [a, b, c, d]
    let (parts, rest) ← readString rest
    some (.unit value :: parts, rest)
  | '\\' :: c :: rest => do
    let char ← escaped? c
    let (parts, rest) ← readString rest
    some (.char char :: parts, rest)
  | c :: rest =>
    if c.val < 0x20 then none
    else do
      let (parts, rest) ← readString rest
      some (.char c :: parts, rest)

/-- Whether a code unit is the first half of a pair. -/
def isHighHalf (value : Nat) : Bool :=
  0xD800 ≤ value && value < 0xDC00

/-- Whether a code unit is the second half of a pair. -/
def isLowHalf (value : Nat) : Bool :=
  0xDC00 ≤ value && value < 0xE000

/-- The text that the parts of a string stand for, if the halves of pairs pair up. -/
def textOf? : List StringPart → Option (List Char)
  | [] => some []
  | .char c :: parts => (textOf? parts).map (c :: ·)
  | .unit a :: .unit b :: parts =>
    if isHighHalf a then
      if isLowHalf b then
        (textOf? parts).map (Char.ofNat (0x10000 + (a - 0xD800) * 0x400 + (b - 0xDC00)) :: ·)
      else none
    else if isLowHalf a then none
    else (textOf? (.unit b :: parts)).map (Char.ofNat a :: ·)
  | .unit a :: parts =>
    if isHighHalf a || isLowHalf a then none else (textOf? parts).map (Char.ofNat a :: ·)

/-- A token. -/
inductive Token where
  | openBrace
  | closeBrace
  | openBracket
  | closeBracket
  | comma
  | colon
  | null
  | bool (value : Bool)
  | number (value : Number)
  /-- A string with the text that it stands for, if there is one. -/
  | string (text : Option String)
  deriving DecidableEq, Repr

/-- The token that a character is by itself. -/
def punctuation? : Char → Option Token
  | '{' => some .openBrace
  | '}' => some .closeBrace
  | '[' => some .openBracket
  | ']' => some .closeBracket
  | ',' => some .comma
  | ':' => some .colon
  | _ => none

/-- Whether a character may stand between two tokens. -/
def isSpace (c : Char) : Bool :=
  c == ' ' || c == '\n' || c == '\t' || c == '\r'

/-- Reads the token that a text without blanks at its start begins with. -/
def readToken (cs : List Char) : Option (Token × List Char) :=
  match cs with
  | [] => none
  | 'n' :: 'u' :: 'l' :: 'l' :: rest => some (.null, rest)
  | 't' :: 'r' :: 'u' :: 'e' :: rest => some (.bool true, rest)
  | 'f' :: 'a' :: 'l' :: 's' :: 'e' :: rest => some (.bool false, rest)
  | '"' :: rest =>
    (readString rest).map fun (parts, rest) => (.string ((textOf? parts).map String.ofList), rest)
  | c :: rest =>
    match punctuation? c with
    | some token => some (token, rest)
    | none => (readNumber (c :: rest)).map fun (n, rest) => (.number n, rest)

/-- Cuts at most so many tokens off a text, which must hold nothing else. -/
def tokensUpTo : Nat → List Char → Option (List Token)
  | bound, cs =>
    match cs.dropWhile isSpace, bound with
    | [], _ => some []
    | _ :: _, 0 => none
    | c :: rest, bound + 1 => do
      let (token, rest) ← readToken (c :: rest)
      let tokens ← tokensUpTo bound rest
      some (token :: tokens)

/-- The tokens of a text; each has at least one character. -/
def tokens (text : String) : Option (List Token) :=
  tokensUpTo text.toList.length text.toList

end ComputedTables.Json
