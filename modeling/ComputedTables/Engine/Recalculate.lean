import ComputedTables.Engine.Memory
import ComputedTables.Engine.Store
import ComputedTables.Variable.Update

/-!
# Recalculating a document

The engine owns the index of published variables, its store, and what is remembered about each
document.  A pass over a text visits its tables with formulas from top to bottom; a table whose
lines have not changed is reused.  All formulas of a pass see the index as it was before it.  What
the tables publish then replaces the document's entry, and the index is saved if it changed.

A quiet pass stops early when the text has not changed, and while the cursor stands in a table it
computes that table only.  Tables out of its scope still count with what is remembered of them; if
one has changed since, the pass is not complete and its variables are merged into the entry.
-/

namespace ComputedTables

open Std (ExtTreeMap)

/-- The engine and everything it keeps. -/
structure Engine where
  settings : Settings := {}
  policy : WhenEmpty := .clear
  index : Index := ∅
  memory : ExtTreeMap String DocumentMemory := ∅
  store : Store := {}
  /-- How digests of texts and tables are taken. -/
  digest : Text.Digest := hash

/-- Summary of a recalculation. -/
structure Outcome where
  /-- The pass was quiet and found the text unchanged. -/
  unchanged : Bool := false
  processed : Nat := 0
  reused : Nat := 0
  /-- Tables left alone because only the cursor's table was computed. -/
  outOfScope : Nat := 0
  published : Nat := 0
  indexChanged : Bool := false
  persisted : Bool := false
  deriving DecidableEq, Repr

/-- How far a pass over a document has got. -/
structure Pass where
  memory : DocumentMemory
  collected : VariableSet := ∅
  /-- Whether all variables of the tables seen so far are among the collected ones. -/
  complete : Bool := true
  processed : Nat := 0
  reused : Nat := 0
  outOfScope : Nat := 0

/-- Adds the variables of a table; they count in place of those with the same names. -/
def Pass.collect (pass : Pass) (table : RememberedTable) : Pass :=
  { pass with collected := pass.collected ∪ table.published }

/-- Whether a table is to be computed; without a scope every table is. -/
def inScope (scope : Option Span) (span : Span) : Bool :=
  scope.all fun s => s.start ≤ span.start && span.start ≤ s.last

/-- Visits one table. -/
def Pass.visit (digest : Text.Digest) (lookup : Lookup) (formatter : Formatter)
    (scope : Option Span) (pass : Pass) (span : Span) : Pass :=
  match inScope scope span, pass.memory.current? digest span with
  | true, some table => { pass.collect table with reused := pass.reused + 1 }
  | true, none =>
    let (table, memory) := pass.memory.compute digest lookup formatter span
    { pass.collect table with memory, processed := pass.processed + 1 }
  | false, some table => { pass.collect table with outOfScope := pass.outOfScope + 1 }
  | false, none => { pass with complete := false, outOfScope := pass.outOfScope + 1 }

namespace Engine

/-- How the engine displays numbers. -/
def formatter (engine : Engine) : Formatter :=
  engine.settings.formatter

/-- What is remembered about a document. -/
def memoryOf (engine : Engine) (document : String) : DocumentMemory :=
  engine.memory.getD document {}

/-- Replaces what is remembered about a document. -/
def remember (engine : Engine) (document : String) (m : DocumentMemory) : Engine :=
  { engine with memory := engine.memory.insert document m }

/-- Tries to save the index, and says whether that worked. -/
def persist (engine : Engine) : Bool × Engine :=
  let (saved, store) := engine.store.save engine.index
  (saved, { engine with store })

/-- Takes in a changed index, if there is one, and tries to save it: whether the index changed, and
whether it was saved. -/
def adopt (engine : Engine) : Option Index → (Bool × Bool) × Engine
  | none => ((false, false), engine)
  | some index =>
    let (saved, engine) := { engine with index }.persist
    ((true, saved), engine)

/-- The table that a pass is restricted to. -/
def scopeOf (text : String) (cursor : Option Nat) (quiet : Bool) : Option Span :=
  if quiet then cursor.bind (tableAt? (Text.lines text)) else none

/-- The pass over a text. -/
def pass (engine : Engine) (document text : String) (scope : Option Span) : Pass :=
  let memory := { engine.memoryOf document with text := some (engine.digest text) }
  let spans := formulaTables text
  let pass := spans.foldl
    (Pass.visit engine.digest engine.index.lookup engine.formatter scope) { memory }
  if scope.isNone then { pass with memory := pass.memory.keepTables (spans.map Span.start) }
  else pass

/-- Ends a pass: its memory is kept and its variables are published. -/
def publish (engine : Engine) (document : String) (pass : Pass) : Outcome × Engine :=
  let changed :=
    if pass.complete then engine.index.replace? engine.policy document pass.collected
    else engine.index.merge? document pass.collected
  let ((indexChanged, persisted), engine) := (engine.remember document pass.memory).adopt changed
  ({ processed := pass.processed
     reused := pass.reused
     outOfScope := pass.outOfScope
     published := pass.collected.size
     indexChanged
     persisted }, engine)

/-- Recalculates a document with the given text.  The cursor is the number of a line. -/
def recalculate (engine : Engine) (document text : String) (cursor : Option Nat) (quiet : Bool) :
    Outcome × Engine :=
  if quiet && (engine.memoryOf document).text == some (engine.digest text) then
    ({ unchanged := true }, engine)
  else engine.publish document (engine.pass document text (scopeOf text cursor quiet))

end Engine

end ComputedTables
