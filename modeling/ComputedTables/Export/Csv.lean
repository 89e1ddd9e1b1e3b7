import ComputedTables.Folder.Files
import ComputedTables.Table.Grid

/-!
# Comma-separated values

A table is exported as records of its cell texts without the row between header and data; rows may
differ in length.  A field is quoted when it has a comma, a quote or a line break in it, and a quote
inside is written twice.  A record that would leave its line empty is written as an empty quoted
field.
-/

namespace ComputedTables.Csv

/-- Whether a field cannot be written as it is. -/
def needsQuotes (field : List Char) : Bool :=
  field.any fun c => c == ',' || c == '"' || c == '\n' || c == '\r'

/-- A field inside quotes. -/
def quoted (field : List Char) : List Char :=
  '"' :: field.flatMap (fun c => if c = '"' then ['"', '"'] else [c]) ++ ['"']

/-- A field as it is written. -/
def fieldText (field : String) : List Char :=
  if needsQuotes field.toList then quoted field.toList else field.toList

/-- A record as it is written, its line feed included. -/
def recordText (fields : List String) : List Char :=
  let text := [','].intercalate (fields.map fieldText)
  (if text.isEmpty then ['"', '"'] else text) ++ ['\n']

/-- The text of records. -/
def text (records : List (List String)) : String :=
  String.ofList (records.flatMap recordText)

/-- The records of table lines. -/
def recordsOf (lines : List String) : List (List String) :=
  let rows := lines.map lineCells
  if (Grid.ofTexts rows).hasSeparator then rows.eraseIdx 1 else rows

/-- Exports table lines to a file of a directory. -/
def exportTo (f : Folder) (directory : List String) (file : String) (lines : List String) :
    Except PathFailure Folder :=
  f.write directory file { text := some (text (recordsOf lines)) }

end ComputedTables.Csv
