import ComputedTables.Document.Source
import ComputedTables.Engine.Operations

/-!
# Indexing all documents

A bulk pass goes through a list of documents in batches.  Documents that look as if they had
formulas are recalculated; those with references are recalculated once more when the list is done,
so that a reference to a document later in the list is resolved too.  Between two steps the source
may change in any way.
-/

namespace ComputedTables

/-- The starts of formulas by which a document is picked. -/
def formulaMarks : List String :=
  ["=SUM(", "=AVG(", "=MIN(", "=MAX(", "=NOTE("]

/-- Whether a text holds another one. -/
def mentions (text part : String) : Bool :=
  Text.holds part.toList text.toList

/-- Whether a text looks as if it had a table with a formula. -/
def mayHoldFormulas (text : String) : Bool :=
  mentions text "|" && mentions text "=" && formulaMarks.any (mentions text)

/-- Whether a text looks as if it referred to other documents. -/
def hasReferences (text : String) : Bool :=
  mentions text "NOTE("

/-- The counters of a bulk pass. -/
structure Progress where
  /-- Documents looked at in the first round, of `total`. -/
  visited : Nat := 0
  total : Nat := 0
  /-- Documents that were recalculated in the first round. -/
  indexed : Nat := 0
  /-- Documents that could not be read in the first round. -/
  failed : Nat := 0
  /-- Documents for the second round, and how many of them it has gone through. -/
  againTotal : Nat := 0
  revisited : Nat := 0
  deriving DecidableEq, Repr

/-- Whether both rounds are over. -/
def Progress.finished (p : Progress) : Bool :=
  p.total ≤ p.visited && p.againTotal ≤ p.revisited

structure Bulk where
  /-- Documents that the first round has still to visit. -/
  ahead : List Document
  /-- Documents that the second round has still to visit. -/
  again : List Document := []
  batch : Nat
  batch_pos : 0 < batch
  progress : Progress := {}
  deriving DecidableEq, Repr

namespace Bulk

/-- The number of documents a batch has unless told otherwise. -/
def defaultBatch : Nat := 50

/-- The bulk pass over a list of documents, in batches of at least one. -/
def create (queue : List Document) (batch : Nat) : Bulk :=
  { ahead := queue, batch := max batch 1, batch_pos := by omega
    progress := { total := queue.length } }

/-- Counts a document that was recalculated in the first round, and queues it for the second one if
it has references. -/
def indexed (b : Bulk) (id : Document) (text : String) : Bulk :=
  let p := { b.progress with indexed := b.progress.indexed + 1 }
  if hasReferences text then
    { b with again := b.again ++ [id], progress := { p with againTotal := p.againTotal + 1 } }
  else { b with progress := p }

/-- Visits a document in the first round. -/
def visit (source : Source) : Bulk × Engine → Document → Bulk × Engine
  | (b, engine), id =>
    match source.read id with
    | .ok text =>
      if mayHoldFormulas text then
        (b.indexed id text, (engine.recalculate id.name text none true).2)
      else (b, engine)
    | .error _ =>
      ({ b with progress := { b.progress with failed := b.progress.failed + 1 } }, engine)

/-- Visits a document in the second round. -/
def revisit (source : Source) (engine : Engine) (id : Document) : Engine :=
  match source.read id with
  | .ok text => ((engine.invalidate id.name).recalculate id.name text none true).2
  | .error _ => engine

/-- Goes through the next batch: of the first round as long as it lasts, then of the second. -/
def step (b : Bulk) (source : Source) (engine : Engine) : Bulk × Engine :=
  if b.ahead.isEmpty then
    let batch := b.again.take b.batch
    ({ b with
        again := b.again.drop b.batch
        progress := { b.progress with revisited := b.progress.revisited + batch.length } },
      batch.foldl (revisit source) engine)
  else
    let batch := b.ahead.take b.batch
    let start :=
      { b with
        ahead := b.ahead.drop b.batch
        progress := { b.progress with visited := b.progress.visited + batch.length } }
    batch.foldl (visit source) (start, engine)

/-- No more steps than this are needed: a document is visited at most once in each round. -/
def stepBound (b : Bulk) : Nat :=
  2 * b.ahead.length + b.again.length

/-- Steps until the pass is finished, or so many times. -/
def steps (source : Source) : Nat → Bulk → Engine → Bulk × Engine
  | 0, b, engine => (b, engine)
  | n + 1, b, engine =>
    if b.progress.finished then (b, engine)
    else
      let (b, engine) := b.step source engine
      steps source n b engine

/-- Steps until the pass is finished, while the source does not change. -/
def run (b : Bulk) (source : Source) (engine : Engine) : Bulk × Engine :=
  steps source b.stepBound b engine

end Bulk

end ComputedTables
