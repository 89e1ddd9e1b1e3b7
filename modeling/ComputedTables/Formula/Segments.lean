import ComputedTables.Text.Blank
import ComputedTables.Formula.Error

/-!
# Finding the calls of a formula

A formula is cut into plain characters and calls.  A call starts where a keyword stands that is not
the tail of a longer word and that an opening parenthesis follows, blanks between them aside.  From
there on its arguments must be well formed: reading stops for good at the first call that is not.
-/

namespace ComputedTables

/-- The words that start a call. -/
inductive Keyword where
  | aggregate (function : Aggregate)
  | note
  deriving DecidableEq, Repr

def Keyword.all : List Keyword :=
  [.aggregate .sum, .aggregate .average, .aggregate .minimum, .aggregate .maximum, .note]

/-- The letters of a keyword; a formula may write them in either case. -/
def Keyword.letters : Keyword → List Char
  | .aggregate function => function.name.toList
  | .note => "NOTE".toList

/-- What follows the opening parenthesis, if the characters start with the keyword and one. -/
def Keyword.opened? (k : Keyword) (cs : List Char) : Option (List Char) :=
  if Text.sameLetters (cs.take k.letters.length) k.letters then
    match Text.dropBlanks (cs.drop k.letters.length) with
    | '(' :: arguments => some arguments
    | _ => none
  else none

/-- The keyword that the characters start a call with, and what follows its parenthesis. -/
def Keyword.at? (cs : List Char) : Option (Keyword × List Char) :=
  all.findSome? fun k => (k.opened? cs).map (k, ·)

/-- Where and why the reading of a call stopped; `rest` is what had not been read. -/
inductive CallFault where
  | malformed (rest : List Char)
  | nested (rest : List Char)
  deriving DecidableEq, Repr

theorem length_dropWord_le (cs : List Char) : (Text.leadingWord cs).2.length ≤ cs.length :=
  (List.dropWhile_sublist _).length_le

/-- Reads one word and the blanks around it; no call may start there. -/
def readWord (cs : List Char) : Except CallFault (List Char × List Char) :=
  let start := Text.dropBlanks cs
  if (Keyword.at? start).isSome then .error (.nested start)
  else
    let (word, rest) := Text.leadingWord start
    if word.isEmpty then .error (.malformed start) else .ok (word, Text.dropBlanks rest)

theorem length_readWord {cs word rest : List Char} (h : readWord cs = .ok (word, rest)) :
    rest.length ≤ cs.length := by
  simp only [readWord] at h
  split at h
  · cases h
  · split at h
    · cases h
    · cases h
      exact Nat.le_trans (Text.length_dropBlanks_le _)
        (Nat.le_trans (length_dropWord_le _) (Text.length_dropBlanks_le _))

/-- Reads words separated by commas up to a closing parenthesis. -/
def readArguments (cs : List Char) : Except CallFault (List (List Char) × List Char) :=
  match _h : readWord cs with
  | .error fault => .error fault
  | .ok (word, ',' :: rest) =>
    match readArguments rest with
    | .error fault => .error fault
    | .ok (words, rest) => .ok (word :: words, rest)
  | .ok (word, ')' :: rest) => .ok ([word], rest)
  | .ok (_, rest) => .error (.malformed rest)
termination_by cs.length
decreasing_by
  have := length_readWord _h
  simp only [List.length_cons] at this
  omega

/-- The range that a word names. -/
def Range.ofWord? (word : List Char) : Option Range :=
  if Text.sameLetters word "row".toList then some .row
  else if Text.sameLetters word "col".toList then some .column
  else none

/-- What the words after the range of an aggregate say. -/
structure Options where
  dataOnly : Bool := false
  currency : Option String := none
  deriving DecidableEq, Repr

/-- Whether a word is a currency code: three ASCII letters. -/
def isCurrencyCode (word : List Char) : Bool :=
  word.length == 3 && word.all Char.isAlpha

/-- Takes in one more word: `data`, or a currency code, of which the first one counts. -/
def Options.add? (o : Options) (word : List Char) : Option Options :=
  if Text.sameLetters word "data".toList then some { o with dataOnly := true }
  else if isCurrencyCode word then
    some { o with currency := o.currency <|> some (String.ofList (Text.uppercase word)) }
  else none

/-- The aggregate call with the given words between its parentheses. -/
def Call.ofWords? (function : Aggregate) : List (List Char) → Option Call
  | [] => none
  | range :: options => do
    let range ← Range.ofWord? range
    let o ← options.foldlM Options.add? ({} : Options)
    return .aggregate function range o.dataOnly o.currency

/-- Reads what follows the opening parenthesis of an aggregate. -/
def readAggregate (function : Aggregate) (cs : List Char) :
    Except CallFault (Call × List Char) := do
  let (words, rest) ← readArguments cs
  match Call.ofWords? function words with
  | some call => .ok (call, rest)
  | none => .error (.malformed rest)

/-- Takes one given character off the start. -/
def expectChar (c : Char) (cs : List Char) : Except CallFault (List Char) :=
  match cs with
  | d :: rest => if d = c then .ok rest else .error (.malformed cs)
  | [] => .error (.malformed cs)

/-- Reads a name that is not empty between two quotes. -/
def readQuoted (cs : List Char) : Except CallFault (List Char × List Char) := do
  let quoted ← expectChar '"' cs
  let name := quoted.takeWhile (· != '"')
  let rest := quoted.dropWhile (· != '"')
  if name.isEmpty then .error (.malformed rest)
  else do
    let rest ← expectChar '"' rest
    .ok (name, rest)

/-- Reads what follows the opening parenthesis of a reference: a document's name in quotes, the
closing parenthesis, a point and the name of a variable. -/
def readNote (cs : List Char) : Except CallFault (Call × List Char) := do
  let (document, rest) ← readQuoted (Text.dropBlanks cs)
  let rest ← expectChar ')' (Text.dropBlanks rest)
  let rest ← expectChar '.' rest
  let (name, rest) := Text.leadingWord rest
  if name.isEmpty then .error (.malformed rest)
  else .ok (.note (String.ofList document) (String.ofList name), rest)

/-- Reads what follows the opening parenthesis of a call. -/
def Keyword.read : Keyword → List Char → Except CallFault (Call × List Char)
  | .aggregate function, cs => readAggregate function cs
  | .note, cs => readNote cs

/-- The failure of a formula at a call that starts `cs`: the call up to where its reading stopped,
a nested one up to the next closing parenthesis. -/
def CallFault.error (cs : List Char) : CallFault → FormulaError
  | .malformed rest => .malformedCall (String.ofList (cs.take (cs.length - rest.length)))
  | .nested rest =>
    let inner := rest.takeWhile (· != ')') ++ (rest.dropWhile (· != ')')).take 1
    .nestedCall (String.ofList (cs.take (cs.length - rest.length) ++ inner))

/-- Segments with one more plain character in front. -/
def Segment.prepend (c : Char) : List Segment → List Segment
  | .text cs :: segments => .text (c :: cs) :: segments
  | segments => .text [c] :: segments

theorem length_expectChar {c : Char} {cs rest : List Char} (h : expectChar c cs = .ok rest) :
    rest.length < cs.length := by
  unfold expectChar at h
  split at h
  · split at h
    · cases h
      simp
    · cases h
  · cases h

theorem ok_bind {ε α β : Type} (a : α) (f : α → Except ε β) : (Except.ok a >>= f) = f a :=
  rfl

theorem bind_eq_ok {ε α β : Type} {x : Except ε α} {f : α → Except ε β} {b : β}
    (h : (x >>= f) = .ok b) : ∃ a, x = .ok a ∧ f a = .ok b := by
  cases x with
  | error e => cases h
  | ok a => exact ⟨a, rfl, h⟩

theorem length_readQuoted {cs name rest : List Char} (h : readQuoted cs = .ok (name, rest)) :
    rest.length < cs.length := by
  obtain ⟨quoted, hq, h⟩ := bind_eq_ok h
  have h1 := length_expectChar hq
  have h2 := (List.dropWhile_sublist (l := quoted) (· != '"')).length_le
  dsimp only at h
  split at h
  · cases h
  · obtain ⟨after, ha, h⟩ := bind_eq_ok h
    have h3 := length_expectChar ha
    cases h
    omega

theorem length_readNote {cs rest : List Char} {call : Call} (h : readNote cs = .ok (call, rest)) :
    rest.length < cs.length := by
  obtain ⟨⟨document, r1⟩, h1, h⟩ := bind_eq_ok h
  obtain ⟨r2, h2, h⟩ := bind_eq_ok h
  obtain ⟨r3, h3, h⟩ := bind_eq_ok h
  have := Text.length_dropBlanks_le cs
  have := length_readQuoted h1
  have := Text.length_dropBlanks_le r1
  have := length_expectChar h2
  have := length_expectChar h3
  have := length_dropWord_le r3
  dsimp only at h
  split at h
  · cases h
  · cases h
    omega

theorem length_readArguments (cs : List Char) {words : List (List Char)} {rest : List Char}
    (h : readArguments cs = .ok (words, rest)) : rest.length < cs.length := by
  fun_induction readArguments cs generalizing words with
  | case1 => cases h
  | case2 => cases h
  | case3 cs word rest' heq words' rest'' hrec ih =>
    cases h
    have := length_readWord heq
    have := ih hrec
    simp only [List.length_cons] at *
    omega
  | case4 cs word rest' heq =>
    cases h
    have := length_readWord heq
    simp only [List.length_cons] at this
    omega
  | case5 => cases h

theorem length_readAggregate {function : Aggregate} {cs rest : List Char} {call : Call}
    (h : readAggregate function cs = .ok (call, rest)) : rest.length < cs.length := by
  obtain ⟨⟨words, after⟩, hr, h⟩ := bind_eq_ok h
  dsimp only at h
  split at h
  · cases h
    exact length_readArguments cs hr
  · cases h

theorem Keyword.length_read {k : Keyword} {cs rest : List Char} {call : Call}
    (h : k.read cs = .ok (call, rest)) : rest.length < cs.length := by
  cases k with
  | aggregate function => exact length_readAggregate h
  | note => exact length_readNote h

theorem Keyword.length_opened? {k : Keyword} {cs arguments : List Char}
    (h : k.opened? cs = some arguments) : arguments.length < cs.length := by
  unfold Keyword.opened? at h
  split at h
  · split at h
    · rename_i heq
      cases h
      have h1 := Text.length_dropBlanks_le (cs.drop k.letters.length)
      have h2 : (cs.drop k.letters.length).length ≤ cs.length := by simp
      rw [heq, List.length_cons] at h1
      omega
    · cases h
  · cases h

theorem Keyword.length_at? {k : Keyword} {cs arguments : List Char}
    (h : Keyword.at? cs = some (k, arguments)) : arguments.length < cs.length := by
  obtain ⟨k', -, h⟩ := List.exists_of_findSome?_eq_some h
  obtain ⟨rest, hr, h⟩ := Option.map_eq_some_iff.1 h
  cases h
  exact length_opened? hr

/-- Cuts a formula into segments, given whether the character before it belongs to a word. -/
def cutFrom (afterWord : Bool) (cs : List Char) : Except FormulaError (List Segment) :=
  match cs with
  | [] => .ok []
  | c :: rest =>
    match _hk : (if afterWord then none else Keyword.at? (c :: rest)) with
    | some (keyword, arguments) =>
      match _hr : keyword.read arguments with
      | .error fault => .error (fault.error (c :: rest))
      | .ok (call, after) => do
        let segments ← cutFrom false after
        .ok (.call call :: segments)
    | none => do
      let segments ← cutFrom (Text.isWord c) rest
      .ok (Segment.prepend c segments)
termination_by cs.length
decreasing_by
  · have h1 := Keyword.length_read _hr
    split at _hk
    · cases _hk
    · have h2 := Keyword.length_at? _hk
      omega
  · simp

/-- Cuts a formula into plain characters and calls. -/
def cutFormula (formula : List Char) : Except FormulaError (List Segment) :=
  cutFrom false formula

end ComputedTables
