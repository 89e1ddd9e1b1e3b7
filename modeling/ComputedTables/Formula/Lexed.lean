import ComputedTables.Text.Blank
import ComputedTables.Decimal.Literal
import ComputedTables.Formula.Expr

/-!
# From characters to tokens

A text is cut into tokens from the left; blanks between them are skipped.  Whether a minus is a
sign or an operator depends on the token before it alone: after a number or a closing parenthesis
it is an operator, otherwise it belongs to the number it starts.  The cut stops at the first fault,
so a text is its tokens up to there and the fault, if there is one.
-/

namespace ComputedTables

/-- Why characters are no token. -/
inductive LexicalFault where
  /-- The characters of a number that has no digit. -/
  | invalidNumber (lexeme : String)
  | unexpectedCharacter (c : Char)
  deriving DecidableEq, Repr

/-- A number as it is written in an expression. -/
structure WrittenNumber where
  negative : Bool
  whole : List Char
  pointed : Bool
  fraction : List Char
  deriving DecidableEq, Repr

/-- The characters of a written number. -/
def WrittenNumber.chars (n : WrittenNumber) : List Char :=
  (if n.negative then ['-'] else []) ++ n.whole ++ (if n.pointed then ['.'] else []) ++ n.fraction

/-- The value of a written number that has a digit before or after its point. -/
def WrittenNumber.value? (n : WrittenNumber) : Option Float :=
  if n.whole.isEmpty && n.fraction.isEmpty then none
  else some (Decimal.nearest n.negative n.whole n.fraction 0)

/-- The longest unsigned number at the start: digits with at most one point. -/
def takeUnsigned (negative : Bool) (cs : List Char) : WrittenNumber × List Char :=
  let (whole, rest) := Decimal.takeDigits cs
  match rest with
  | '.' :: afterPoint =>
    let (fraction, rest) := Decimal.takeDigits afterPoint
    (⟨negative, whole, true, fraction⟩, rest)
  | rest => (⟨negative, whole, false, []⟩, rest)

/-- The longest number at the start, a minus included. -/
def takeNumber : List Char → WrittenNumber × List Char
  | '-' :: cs => takeUnsigned true cs
  | cs => takeUnsigned false cs

/-- Whether a character starts a number, given whether the token before it ends an operand. -/
def startsNumber (afterOperand : Bool) (c : Char) : Bool :=
  c.isDigit || c == '.' || (c == '-' && !afterOperand)

/-- The token that a character is by itself. -/
def Token.ofChar? : Char → Option (Token Float)
  | '+' => some (.operator .add)
  | '-' => some (.operator .subtract)
  | '*' => some (.operator .multiply)
  | '/' => some (.operator .divide)
  | '(' => some .openParen
  | ')' => some .closeParen
  | _ => none

/-- A text cut into tokens, up to the first fault. -/
structure Lexed where
  tokens : List (Token Float) := []
  fault : Option LexicalFault := none
  deriving DecidableEq, Repr

/-- A cut with one more token in front. -/
def Lexed.cons (token : Token Float) (l : Lexed) : Lexed :=
  { l with tokens := token :: l.tokens }

theorem length_dropDigits_le (cs : List Char) : (Decimal.takeDigits cs).2.length ≤ cs.length :=
  (List.dropWhile_sublist _).length_le

theorem length_takeUnsigned_le (negative : Bool) (cs : List Char) :
    (takeUnsigned negative cs).2.length ≤ cs.length := by
  have h := length_dropDigits_le cs
  simp only [takeUnsigned]
  split
  · rename_i afterPoint heq
    have := length_dropDigits_le afterPoint
    simp only [heq, List.length_cons] at h
    dsimp only
    omega
  · exact h

/-- A character that starts a number is taken with it. -/
theorem length_takeNumber_lt {afterOperand : Bool} {c : Char} (cs : List Char)
    (h : startsNumber afterOperand c = true) :
    (takeNumber (c :: cs)).2.length < (c :: cs).length := by
  by_cases hm : c = '-'
  · subst hm
    have := length_takeUnsigned_le true cs
    simp only [takeNumber, List.length_cons]
    omega
  · have hn : takeNumber (c :: cs) = takeUnsigned false (c :: cs) := by
      unfold takeNumber
      split
      · rename_i heq
        simp only [List.cons.injEq] at heq
        exact absurd heq.1 hm
      · rfl
    rw [hn]
    have hd : (Decimal.takeDigits cs).2.length ≤ cs.length := length_dropDigits_le cs
    by_cases hc : c.isDigit = true
    · have h2 : (Decimal.takeDigits (c :: cs)).2 = (Decimal.takeDigits cs).2 := by
        simp [Decimal.takeDigits, hc]
      simp only [takeUnsigned, h2, List.length_cons]
      split
      · rename_i afterPoint heq
        have := length_dropDigits_le afterPoint
        simp only [heq, List.length_cons] at hd
        dsimp only
        omega
      · dsimp only
        omega
    · have hp : c = '.' := by
        simpa [startsNumber, hc, hm] using h
      subst hp
      have h2 : (Decimal.takeDigits ('.' :: cs)).2 = '.' :: cs := by
        simp [Decimal.takeDigits, Char.isDigit]
      simp only [takeUnsigned, h2, List.length_cons]
      omega

/-- Cuts characters into tokens, given whether the token before them ends an operand. -/
def Lexed.ofChars (afterOperand : Bool) (cs : List Char) : Lexed :=
  match cs with
  | [] => {}
  | c :: rest =>
    if Text.isBlank c then ofChars afterOperand rest
    else if _h : startsNumber afterOperand c = true then
      match (takeNumber (c :: rest)).1.value? with
      | some value => (ofChars true (takeNumber (c :: rest)).2).cons (.number value)
      | none => { fault := some (.invalidNumber (String.ofList (takeNumber (c :: rest)).1.chars)) }
    else
      match Token.ofChar? c with
      | some token => (ofChars token.endsOperand rest).cons token
      | none => { fault := some (.unexpectedCharacter c) }
termination_by cs.length
decreasing_by
  · simp
  · exact length_takeNumber_lt rest _h
  · simp

/-- Cuts a text into tokens. -/
def Lexed.ofText (text : String) : Lexed :=
  .ofChars false text.toList

end ComputedTables
