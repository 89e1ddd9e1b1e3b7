import ComputedTables.Text.Cluster
import ComputedTables.Text.Columns
import ComputedTables.Text.Lines

/-!
# Drawing with clusters

A picture is a list of rows of cells.  A cluster is drawn in the cell of its first column, and the
cells of its other columns are blank; they are not seen, whatever is drawn there later.  Text is cut
at the right edge of its area, never wrapped.
-/

namespace ComputedTables

/-- One column of one row: the characters drawn there. -/
abbrev ScreenCell := List Char

/-- A row of a picture. -/
abbrev ScreenRow := List ScreenCell

/-- A picture, row by row. -/
abbrev Canvas := List ScreenRow

namespace ScreenRow

def blank : ScreenCell := [' ']

def blanks (width : Nat) : ScreenRow :=
  List.replicate width blank

/-- A row that is widened with blanks. -/
def widened (width : Nat) (row : ScreenRow) : ScreenRow :=
  row ++ blanks (width - row.length)

/-- The row with other cells drawn over it from a column on. -/
def overlaid (row : ScreenRow) (column : Nat) (cells : List ScreenCell) : ScreenRow :=
  row.take column ++ cells ++ row.drop (column + cells.length)

/-- The clusters of a running text that fit a width, of which some columns are taken.  Clusters
without a column are left out, and so are those that are too wide for any row of that width. -/
def fitting (width taken : Nat) : List Text.Cluster → List ScreenCell
  | [] => []
  | cluster :: rest =>
    let n := Text.columns cluster
    if n = 0 ∨ width < n then fitting width taken rest
    else if width < taken + n then []
    else cluster :: blanks (n - 1) ++ fitting width (taken + n) rest

/-- A row of running text. -/
def ofText (width : Nat) (text : String) : ScreenRow :=
  widened width (fitting width 0 (Text.clusters text.toList))

/-- The cells of a label that fit a width, given those drawn so far, the last one first.  A cluster
without a column is added to the cell before it; one at the start is held for the cell of the first
column. -/
def labelCells (width : Nat) (drawn : List ScreenCell) (held : ScreenCell) :
    List Text.Cluster → List ScreenCell
  | [] => if held.isEmpty then drawn.reverse else [held]
  | cluster :: rest =>
    let n := Text.columns cluster
    if width < drawn.length + n then if held.isEmpty then drawn.reverse else [held]
    else
      match n, drawn with
      | 0, [] => labelCells width [] (held ++ cluster) rest
      | 0, cell :: before => labelCells width ((cell ++ cluster) :: before) [] rest
      | n + 1, drawn => labelCells width (blanks n ++ (held ++ cluster) :: drawn) [] rest

/-- The row with a label drawn over it from a column on, as far as the label fits a width. -/
def label (row : ScreenRow) (column width : Nat) (text : String) : ScreenRow :=
  if width = 0 ∨ Text.columns text.toList = 0 then row
  else row.overlaid column (labelCells width [] [] (Text.clusters text.toList))

/-- The characters that are seen, given how many cells are covered by a cluster before them. -/
def seen (covered : Nat) : ScreenRow → List Char
  | [] => []
  | cell :: row =>
    (if covered = 0 then cell else blank) ++ seen (Text.columns cell - 1) row

/-- The row as a text, without the blanks at its end. -/
def text (row : ScreenRow) : String :=
  String.ofList ((row.seen 0).reverse.dropWhile (· == ' ')).reverse

end ScreenRow

namespace Canvas

/-- The lines of a text as they are drawn: a carriage return before a line feed belongs to the line
break, and a line break at the end of the text starts no line. -/
def linesOf (text : String) : List String :=
  let ls := Text.lines text
  let ended := ls.dropLast.map fun line =>
    if line.toList.getLast? = some '\r' then String.ofList line.toList.dropLast else line
  match ls.getLast? with
  | none | some "" => ended
  | some last => ended ++ [last]

/-- An area with rows at its top; rows without room are left out. -/
def area (width height : Nat) (rows : List ScreenRow) : Canvas :=
  let shown := (rows.take height).map (ScreenRow.widened width)
  shown ++ List.replicate (height - shown.length) (ScreenRow.blanks width)

/-- The rows of running text, as many as there is room for. -/
def textRows (width height : Nat) (lines : List String) : List ScreenRow :=
  (lines.take height).map (ScreenRow.ofText width)

/-- The row with a title drawn over it.  Each line of the title is a label of its own; they stand
one behind the other. -/
def titled (row : ScreenRow) (title : String) : ScreenRow :=
  let parts := linesOf title
  let columns := parts.foldl (fun columns part => columns + Text.columns part.toList) 0
  let width := min columns row.length
  (parts.foldl (fun (row, column) part =>
    (row.label column (width - column) part, column + Text.columns part.toList)) (row, 0)).1

/-- A box around an area, with a title in its upper border.  A box too low for both borders keeps
the upper one. -/
def box (width height : Nat) (title : String) (rows : List ScreenRow) : Canvas :=
  let inner := width - 2
  let top := ['┌'] :: titled (List.replicate inner ['─']) title ++ [['┐']]
  let bottom := ['└'] :: List.replicate inner ['─'] ++ [['┘']]
  let body := (area inner (height - 2) rows).map fun row => ['│'] :: row ++ [['│']]
  ((top :: body ++ [bottom]).take height).map (·.take width)

/-- A box around running text. -/
def textBox (width height : Nat) (title : String) (lines : List String) : Canvas :=
  box width height title (textRows (width - 2) (height - 2) lines)

/-- Two pictures side by side. -/
def beside (left right : Canvas) : Canvas :=
  left.zipWith (· ++ ·) right

/-- A picture drawn over another one, at a column and a row. -/
def overlay (under : Canvas) (column row : Nat) (picture : Canvas) : Canvas :=
  under.zipIdx.map fun (cells, r) =>
    match if row ≤ r then picture[r - row]? else none with
    | some drawn => ScreenRow.overlaid cells column drawn
    | none => cells

end Canvas

end ComputedTables
