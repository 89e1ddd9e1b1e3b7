import ComputedTables.Table.Grid

/-!
# Tables in a document

A table is a run of at least two consecutive lines that start and end with a bar, blanks aside, and
that no such line extends at either end.  All tables of a text are found in one walk over its lines
(`tables`); the one around a given line by going up and down from there (`tableAt?`).
-/

namespace ComputedTables

/-- A table in a document: the number of its first line, and its lines. -/
structure Span where
  start : Nat
  lines : List String
  deriving DecidableEq, Repr

/-- The number of the last line of a table. -/
def Span.last (s : Span) : Nat :=
  s.start + s.lines.length - 1

/-- Whether a line belongs to a table; a single bar is start and end at once. -/
def isBarred (line : String) : Bool :=
  let cs := Text.trim line.toList
  cs.head? == some '|' && cs.getLast? == some '|'

/-- The table that a run of table lines makes before line `next`. -/
def closeRun (next : Nat) (run : List String) : List Span :=
  if 2 ≤ run.length then [⟨next - run.length, run⟩] else []

/-- The tables from line `next` on, given the run of table lines just before it. -/
def tablesFrom (next : Nat) (run : List String) : List String → List Span
  | [] => closeRun next run
  | line :: lines =>
    if isBarred line then tablesFrom (next + 1) (run ++ [line]) lines
    else closeRun next run ++ tablesFrom (next + 1) [] lines

/-- The tables of a text, from top to bottom. -/
def tables (text : String) : List Span :=
  tablesFrom 0 [] (Text.lines text)

/-- The table that line `index` belongs to. -/
def tableAt? (lines : List String) (index : Nat) : Option Span :=
  match lines[index]? with
  | none => none
  | some line =>
    if isBarred line then
      let above := (lines.take index).reverse.takeWhile isBarred
      let below := (lines.drop (index + 1)).takeWhile isBarred
      let run := above.reverse ++ line :: below
      if 2 ≤ run.length then some ⟨index - above.length, run⟩ else none
    else none

/-- Whether an equals sign stands right behind a space or a bar. -/
def marksFormula : List Char → Bool
  | a :: b :: cs => (b == '=' && (a == ' ' || a == '|')) || marksFormula (b :: cs)
  | _ => false

/-- Whether some line looks as if it had a formula cell. -/
def anyMarksFormula (lines : List String) : Bool :=
  lines.any fun line => marksFormula line.toList

/-- The tables of a text that look as if they had formula cells. -/
def formulaTables (text : String) : List Span :=
  (tables text).filter fun span => anyMarksFormula span.lines

/-- The lines with those from `start` on replaced, one for one. -/
def replaceLines (lines : List String) (start : Nat) (replacement : List String) : List String :=
  lines.take start ++ replacement ++ lines.drop (start + replacement.length)

end ComputedTables
