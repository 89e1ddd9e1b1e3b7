import ComputedTables.Text.Word

/-!
# Variable names

A row's label becomes a variable's name: inline markup is taken off, letters become small, and every
run of other characters than ASCII letters and digits becomes one underscore, with none at either
end.
-/

namespace ComputedTables

/-- Splits at the first place where a character stands twice: what is before and after. -/
def splitAtPair (mark : Char) : List Char → Option (List Char × List Char)
  | c :: d :: cs =>
    if c = mark ∧ d = mark then some ([], cs)
    else (splitAtPair mark (d :: cs)).map fun (body, rest) => (c :: body, rest)
  | _ => none

/-- The body of a span that opens at the start with a doubled mark and closes with another, and
what follows it; a body has at least one character. -/
def takeSpan (mark : Char) : List Char → Option (List Char × List Char)
  | c :: d :: first :: cs =>
    if c = mark ∧ d = mark then
      (splitAtPair mark cs).map fun (body, rest) => (first :: body, rest)
    else none
  | _ => none

theorem length_splitAtPair {mark : Char} {cs body rest : List Char}
    (h : splitAtPair mark cs = some (body, rest)) : rest.length < cs.length := by
  fun_induction splitAtPair mark cs generalizing body with
  | case1 c d cs hm =>
    cases h
    simp only [List.length_cons]
    omega
  | case2 c d cs hm ih =>
    obtain ⟨⟨body', rest'⟩, hs, h⟩ := Option.map_eq_some_iff.1 h
    cases h
    have := ih hs
    simp only [List.length_cons] at *
    omega
  | case3 => cases h

theorem length_takeSpan {mark : Char} {cs body rest : List Char}
    (h : takeSpan mark cs = some (body, rest)) : rest.length < cs.length := by
  unfold takeSpan at h
  split at h
  · split at h
    · obtain ⟨⟨body', rest'⟩, hs, h⟩ := Option.map_eq_some_iff.1 h
      cases h
      have := length_splitAtPair hs
      simp only [List.length_cons]
      omega
    · cases h
  · cases h

/-- The span of strikethrough or highlight markup at the start. -/
def leadingMarkup (cs : List Char) : Option (List Char × List Char) :=
  ['~', '='].findSome? fun mark => takeSpan mark cs

theorem length_leadingMarkup {cs body rest : List Char} (h : leadingMarkup cs = some (body, rest)) :
    rest.length < cs.length := by
  obtain ⟨mark, -, h⟩ := List.exists_of_findSome?_eq_some h
  exact length_takeSpan h

/-- The label without its markup: asterisks and underscores are dropped, except in the body of a
span, which is kept as it is. -/
def withoutMarkup (cs : List Char) : List Char :=
  match cs with
  | [] => []
  | c :: rest =>
    if c = '*' ∨ c = '_' then withoutMarkup rest
    else
      match _h : leadingMarkup (c :: rest) with
      | some (body, after) => body ++ withoutMarkup after
      | none => c :: withoutMarkup rest
termination_by cs.length
decreasing_by
  · simp
  · exact length_leadingMarkup _h
  · simp

/-- The characters that a letter has in its small form, as far as ASCII characters are among them:
besides the ASCII capitals, the dotted capital I and the Kelvin sign have such forms. -/
def smallForm (c : Char) : List Char :=
  if c = '\u0130' then ['i', '\u0307']
  else if c = '\u212a' then ['k']
  else [c.toLower]

/-- Holds of the characters that a variable's name keeps. -/
def isNameChar (c : Char) : Bool :=
  c.isLower || c.isDigit

/-- The kept characters, with one underscore for each run of others between two of them. -/
def underscored (started pending : Bool) : List Char → List Char
  | [] => []
  | c :: cs =>
    if isNameChar c then
      (if pending && started then ['_'] else []) ++ c :: underscored true false cs
    else underscored started true cs

/-- The name that a label gives. -/
def variableName (label : String) : String :=
  String.ofList (underscored false false ((withoutMarkup label.toList).flatMap smallForm))

end ComputedTables
