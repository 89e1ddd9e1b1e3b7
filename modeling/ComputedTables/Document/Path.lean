import ComputedTables.Text.Lines

/-!
# Paths

A path is a text that slashes cut into parts.  Doubled slashes, a slash at the end and parts that
name the current directory do not count, except a `.` at the start.  The last part of a path names
a file, unless it leads to a directory by itself; the name is cut at its last point, a point at
the start aside, into a stem and an extension.
-/

namespace ComputedTables

/-- A part of a path. -/
inductive PathPart where
  | root
  | current
  | parent
  | name (text : String)
  deriving DecidableEq, Repr

namespace PathPart

/-- A part that stands behind the first one. -/
def inner? (text : String) : Option PathPart :=
  if text = "" ∨ text = "." then none
  else if text = ".." then some .parent
  else some (.name text)

/-- The parts of a path. -/
def ofPath (path : String) : List PathPart :=
  match Text.pieces '/' path with
  | [] => []
  | first :: others =>
    let start :=
      if first = "" then (if others.isEmpty then [] else [.root])
      else if first = "." then [.current]
      else (inner? first).toList
    start ++ others.filterMap inner?

/-- A text by which parts are ordered: a name comes behind every other part, and names are ordered
among themselves by their characters. -/
def rank : PathPart → String
  | .root => "0"
  | .current => "1"
  | .parent => "2"
  | .name text => "3" ++ text

theorem rank_injective {a b : PathPart} (h : a.rank = b.rank) : a = b := by
  replace h : a.rank.toList = b.rank.toList := congrArg String.toList h
  cases a <;> cases b <;> simp_all [rank, String.toList_append, String.toList_inj]

end PathPart

/-- The name of the file that a path leads to. -/
def fileName? (path : String) : Option String :=
  match (PathPart.ofPath path).getLast? with
  | some (.name text) => some text
  | _ => none

/-- The stem and the extension of a file's name. -/
def splitExtension (name : String) : String × Option String :=
  let reversed := name.toList.reverse
  match reversed.dropWhile (· != '.') with
  | [] | [_] => (name, none)
  | _ :: stem =>
    let extension := reversed.takeWhile (· != '.')
    (String.ofList stem.reverse, some (String.ofList extension.reverse))

end ComputedTables
