import ComputedTables.Engine.Recalculate

/-!
# Operations on the engine

Besides recalculating, the engine renders a document with its computed tables, follows documents
that are renamed or removed, and takes new display settings.  Only what a pass published is ever
saved; what is remembered about documents is not.
-/

namespace ComputedTables.Engine

/-- Changes what is remembered about a document. -/
def modifyMemory (engine : Engine) (document : String) (f : DocumentMemory → DocumentMemory) :
    Engine :=
  engine.remember document (f (engine.memoryOf document))

/-- Makes the next pass over a document compute every table. -/
def invalidate (engine : Engine) (document : String) : Engine :=
  engine.modifyMemory document DocumentMemory.invalidated

/-- Drops the cell texts of a document. -/
def dropCells (engine : Engine) (document : String) : Engine :=
  engine.modifyMemory document DocumentMemory.withoutCells

/-- Takes new settings; whatever was rendered with the old ones is dropped. -/
def withSettings (engine : Engine) (settings : Settings) : Engine :=
  { engine with settings, memory := engine.memory.map fun _ m => m.invalidated }

/-- The lines of a computed table, by the number of its first line. -/
def computedLines? (engine : Engine) (document : String) (start : Nat) : Option (List String) :=
  (engine.memoryOf document).tables[start]?.map (·.lines)

/-- The formula that was seen at a place of a document. -/
def formulaAt? (engine : Engine) (document : String) (place : Place) : Option String :=
  (engine.memoryOf document).formulas[place]?

/-- The text that a formula cell of a document was displayed with. -/
def displayedAt? (engine : Engine) (document : String) (place : Place) : Option String :=
  (engine.memoryOf document).displayed[place]?

/-- The text with every table in it that has been computed replaced by its computed lines. -/
def withComputedTables (engine : Engine) (document text : String) : String :=
  Text.unlines <| (tables text).foldl
    (fun lines span =>
      match engine.computedLines? document span.start with
      | some computed => replaceLines lines span.start computed
      | none => lines)
    (Text.lines text)

/-- Recalculates a document and gives its text with computed tables. -/
def render (engine : Engine) (document text : String) : String × Engine :=
  let (_, engine) := engine.recalculate document text none false
  (engine.withComputedTables document text, engine)

/-- Replaces the entry of a document without saving the index, and says whether that changed it. -/
def setIndex (engine : Engine) (changed : Option Index) : Bool × Engine :=
  match changed with
  | some index => (true, { engine with index })
  | none => (false, engine)

/-- Takes the entry of a document out of the index and drops its cell texts. -/
def removeEntry (engine : Engine) (document : String) : Bool × Engine :=
  (engine.dropCells document).setIndex (engine.index.remove? document)

/-- Moves the entry of a document to another name and drops the cell texts of the old one. -/
def moveEntry (engine : Engine) (old new : String) : Bool × Engine :=
  (engine.dropCells old).setIndex (engine.index.move? old new)

/-- Drops everything known about a document, and says whether it had an entry. -/
def forget (engine : Engine) (document : String) : Bool × Engine :=
  let (removed, engine) := (engine.invalidate document).removeEntry document
  (removed, if removed then engine.persist.2 else engine)

/-- Carries the entry of a document over to its new name and recalculates it there. -/
def rename (engine : Engine) (old new text : String) : Outcome × Engine :=
  let (moved, engine) := (engine.invalidate old).moveEntry old new
  let (outcome, engine) := engine.recalculate new text none false
  if moved && !outcome.persisted then
    let (persisted, engine) := engine.persist
    ({ outcome with persisted }, engine)
  else (outcome, engine)

/-- Reads the stored index; one that cannot be read counts as empty. -/
def load (engine : Engine) : Engine :=
  { engine with index := engine.store.load.toOption.getD ∅ }

end ComputedTables.Engine
