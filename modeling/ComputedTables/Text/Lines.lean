/-!
# Pieces of a text

A document is cut into lines at the line feeds and nowhere else, and a line into parts at its bars.
A text with no separator is one piece, so a cut never comes back empty, and joining the pieces
again gives the text.
-/

namespace ComputedTables.Text

/-- The pieces of a text between the occurrences of a character. -/
def pieces (separator : Char) (text : String) : List String :=
  (text.toList.splitOn separator).map String.ofList

/-- The pieces with a text between each two of them. -/
def joined (separator : String) (parts : List String) : String :=
  String.ofList (separator.toList.intercalate (parts.map String.toList))

/-- The lines of a text: what stands between its line feeds. -/
def lines (text : String) : List String :=
  pieces '\n' text

/-- The text with the given lines. -/
def unlines (ls : List String) : String :=
  joined "\n" ls

end ComputedTables.Text
