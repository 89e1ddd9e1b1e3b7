import ComputedTables.Table.Computed
import ComputedTables.Text.Digest

/-!
# What is remembered about a document

For each document the engine remembers the digest of its text, the tables it has computed, each with
the digest of the lines it was computed from, and the formula and the displayed text of every cell
it has seen as a formula.  Digests and tables save work and can be dropped at any time; the texts of
the cells are a record of what was seen.
-/

namespace ComputedTables

open Std (ExtTreeMap)

/-- The digest of the lines of a table. -/
def Span.digest (span : Span) (digest : Text.Digest) : UInt64 :=
  digest (Text.unlines span.lines)

/-- A table that has been computed. -/
structure RememberedTable where
  /-- The digest of the lines it was computed from. -/
  source : UInt64
  lines : List String
  published : VariableSet

/-- What is remembered about a document. -/
structure DocumentMemory where
  /-- The digest of the text that was recalculated last. -/
  text : Option UInt64 := none
  /-- Computed tables by the number of their first line. -/
  tables : ExtTreeMap Nat RememberedTable := ∅
  /-- The formulas of cells, by line and column. -/
  formulas : ExtTreeMap Place String := ∅
  /-- The displayed texts of cells, by line and column. -/
  displayed : ExtTreeMap Place String := ∅

/-- The cell texts of table lines with their places in the document. -/
def placedCells (start : Nat) (lines : List String) : List (Place × String) :=
  (lines.zipIdx start).flatMap fun (line, row) =>
    (lineCells line).zipIdx.map fun (text, column) => (⟨row, column⟩, text)

namespace DocumentMemory

/-- Drops what saves work, so that the next pass computes every table. -/
def invalidated (m : DocumentMemory) : DocumentMemory :=
  { m with text := none, tables := ∅ }

/-- Drops the texts of the cells. -/
def withoutCells (m : DocumentMemory) : DocumentMemory :=
  { m with formulas := ∅, displayed := ∅ }

/-- The remembered result for a table, if it was computed from the same lines. -/
def current? (m : DocumentMemory) (digest : Text.Digest) (span : Span) : Option RememberedTable :=
  m.tables[span.start]?.filter (·.source == span.digest digest)

/-- Keeps only the tables that start at one of the given lines. -/
def keepTables (m : DocumentMemory) (starts : List Nat) : DocumentMemory :=
  { m with tables := m.tables.filter fun start _ => starts.contains start }

/-- Notes the formula of one cell. -/
def noteFormula (m : DocumentMemory) (place : Place) (formula : String) : DocumentMemory :=
  { m with formulas := m.formulas.insert place formula }

/-- Notes the displayed text of one cell. -/
def noteDisplayed (m : DocumentMemory) (place : Place) (text : String) : DocumentMemory :=
  { m with displayed := m.displayed.insert place text }

/-- Notes the formulas of a table. -/
def noteFormulas (m : DocumentMemory) (span : Span) : DocumentMemory :=
  ((placedCells span.start span.lines).filter fun (_, text) => isFormulaText text).foldl
    (fun m (place, text) => m.noteFormula place text) m

/-- Notes the displayed texts of a computed table at all places where a formula is known. -/
def noteDisplayedLines (m : DocumentMemory) (start : Nat) (lines : List String) : DocumentMemory :=
  ((placedCells start lines).filter fun (place, _) => m.formulas.contains place).foldl
    (fun m (place, text) => m.noteDisplayed place text) m

/-- Computes a table and remembers it. -/
def compute (m : DocumentMemory) (digest : Text.Digest) (lookup : Lookup) (formatter : Formatter)
    (span : Span) : RememberedTable × DocumentMemory :=
  let computed := computeTable lookup formatter span.lines
  let cached : RememberedTable :=
    { source := span.digest digest, lines := computed.lines, published := computed.published }
  let noted := (m.noteFormulas span).noteDisplayedLines span.start computed.lines
  (cached, { noted with tables := noted.tables.insert span.start cached })

end DocumentMemory

end ComputedTables
