import ComputedTables.Export.Csv
import ComputedTables.Indexing.Bulk
import ComputedTables.Table.Preview
import ComputedTables.Watch.Deadlines

/-!
# The watcher

The watcher owns an engine, shows the documents that have tables, and acts on what it is told about
the source.  Edits are acted on once a document has been left alone for a while; removals and
renamings at once.  At the start all documents are queued for bulk indexing, which goes on with
every tick.  The watcher does not hold the source: every event is given the source as it is then.
-/

namespace ComputedTables

/-- Whether a document can be read and has a table. -/
def Source.hasTables (source : Source) (id : Document) : Bool :=
  match source.read id with
  | .ok text => !(tables text).isEmpty
  | .error _ => false

/-- What has the attention. -/
inductive Mode where
  | normal
  | help
  deriving DecidableEq, Repr

/-- The state of the watcher. -/
structure Watcher where
  engine : Engine
  /-- The documents that have tables. -/
  documents : List Document
  /-- The number of the selected one among them. -/
  selected : Nat := 0
  mode : Mode := .normal
  helpScroll : Nat := 0
  previewScroll : Nat := 0
  /-- What the last command or event has to say. -/
  status : Option String := none
  /-- The name of the document that was recalculated last, and how that went. -/
  last : Option (String × Outcome) := none
  exportDirectory : String := "."
  /-- What has been exported to that directory. -/
  exports : Folder := {}
  pending : Deadlines Document := {}
  bulk : Option Bulk := none

namespace Watcher

/-- Lists the documents of a source and queues all of them for bulk indexing. -/
def create (engine : Engine) (source : Source) : Watcher :=
  { engine
    documents := source.list.filter source.hasTables
    bulk := some (.create source.list Bulk.defaultBatch) }

def current? (w : Watcher) : Option Document :=
  w.documents[w.selected]?

/-- Selects the next document, if there is one. -/
def selectBelow (w : Watcher) : Watcher :=
  if w.selected + 1 < w.documents.length then
    { w with selected := w.selected + 1, previewScroll := 0 }
  else w

/-- Selects the document before, if there is one. -/
def selectAbove (w : Watcher) : Watcher :=
  if 0 < w.selected then { w with selected := w.selected - 1, previewScroll := 0 } else w

/-- The preview does not scroll beyond the largest number of 64 bits. -/
def maxScroll : Int := UInt64.size - 1

def scrollBy (w : Watcher) (lines : Int) : Watcher :=
  { w with previewScroll := (max 0 (min maxScroll (w.previewScroll + lines))).toNat }

/-- Sets what there is to say. -/
def say (w : Watcher) (status : String) : Watcher :=
  { w with status := some status }

/-- Notes the outcome of a recalculation. -/
def record (w : Watcher) (document : String) (outcome : Outcome) : Watcher :=
  { w with last := some (document, outcome) }

/-- How far bulk indexing has got, unless it is over. -/
def progress? (w : Watcher) : Option Progress :=
  w.bulk.map Bulk.progress

/-- Indexes the next batch, if bulk indexing is not over. -/
def indexNext (w : Watcher) (source : Source) : Watcher :=
  match w.bulk with
  | none => w
  | some bulk =>
    let (bulk, engine) := bulk.step source w.engine
    let p := bulk.progress
    if p.finished then
      { w with engine, bulk := none }.say
        ("Indexed " ++ toString p.indexed ++ " of " ++ toString p.total ++ " documents")
    else { w with engine, bulk := some bulk }

/-- Indexes so many batches. -/
def indexTimes (source : Source) : Nat → Watcher → Watcher
  | 0, w => w
  | n + 1, w => indexTimes source n (w.indexNext source)

/-- Ends bulk indexing at once. -/
def indexAll (w : Watcher) (source : Source) : Watcher :=
  match w.bulk with
  | none => w
  | some bulk => indexTimes source (bulk.stepBound + 1) w

/-- Takes a document off the list; the selection stays on the list. -/
def delist (w : Watcher) (id : Document) : Watcher :=
  let documents := w.documents.filter fun known => !known.same id
  { w with
    documents
    selected := if documents.length ≤ w.selected then documents.length - 1 else w.selected }

/-- Puts a document on the list or takes it off, by whether it has tables now. -/
def enlist (w : Watcher) (source : Source) (id : Document) : Watcher :=
  match source.hasTables id, w.documents.any id.same with
  | true, false =>
    { w with documents := (w.documents ++ [id]).mergeSort fun a b => (compare a b).isLE }
  | false, true => w.delist id
  | _, _ => w

/-- Takes in one change of the source. -/
def notice (w : Watcher) (source : Source) (now : Nat) : Change → Watcher
  | .created id | .modified id =>
    let w := w.enlist source id
    { w with pending := w.pending.restart id now }
  | .removed id =>
    let w := { w with pending := (w.pending.drop id).2 }.delist id
    { w with engine := (w.engine.forget id.name).2 }
  | .renamed old new =>
    let w := ({ w with pending := (w.pending.drop old).2 }.delist old).enlist source new
    let w :=
      match source.read new with
      | .ok text =>
        let (outcome, engine) := w.engine.rename old.name new.name text
        { w with engine }.record new.name outcome
      | .error _ => w
    w.say ("Renamed " ++ old.name ++ " to " ++ new.name)

/-- Takes in changes of the source. -/
def noticeAll (w : Watcher) (source : Source) (now : Nat) (changes : List Change) : Watcher :=
  changes.foldl (fun w change => w.notice source now change) w

/-- Recalculates a document whose edits have come to an end. -/
def settle (source : Source) (w : Watcher) (id : Document) : Watcher :=
  match source.read id with
  | .ok text =>
    let (outcome, engine) := w.engine.recalculate id.name text none true
    let w := { w with engine }
    if outcome.unchanged then w else w.record id.name outcome
  | .error _ => w

/-- Recalculates the documents whose wait is over, then indexes one batch. -/
def tick (w : Watcher) (source : Source) (now : Nat) : Watcher :=
  let (due, pending) := w.pending.takeExpired now
  (due.foldl (settle source) { w with pending }).indexNext source

/-- Recalculates the selected document from scratch. -/
def refreshSelected (w : Watcher) (source : Source) : Watcher :=
  match w.current? with
  | none => w
  | some id =>
    match source.read id with
    | .ok text =>
      let (outcome, engine) := (w.engine.invalidate id.name).recalculate id.name text none false
      ({ w with engine }.say ("Recalculated " ++ id.name ++ ": " ++ toString outcome.processed
        ++ " tables, " ++ toString outcome.published ++ " variables")).record id.name outcome
    | .error failure => w.say ("Error: " ++ failure.message)

/-- The selected document with computed tables. -/
def preview (w : Watcher) (source : Source) : String :=
  match w.current? with
  | none => ""
  | some id =>
    match source.read id with
    | .ok text => previewText w.engine.index.lookup w.engine.formatter text
    | .error failure => "Error reading " ++ id.path ++ ": " ++ failure.message

/-- The computed lines of the first table with formulas in the selected document, and the name of
that document. -/
def tableToExport (w : Watcher) (source : Source) :
    Option (String × List String) × Watcher :=
  match w.current? with
  | none => (none, w)
  | some id =>
    match source.read id with
    | .error _ => (none, w)
    | .ok text =>
      let (_, engine) := w.engine.recalculate id.name text none false
      let found := (formulaTables text).head?.bind fun span =>
        engine.computedLines? id.name span.start
      (found.map (id.name, ·), { w with engine })

/-- Exports the first table with formulas in the selected document to a file named after it. -/
def writeExport (w : Watcher) (source : Source) : Watcher :=
  match w.tableToExport source with
  | (none, w) => w.say "No formula table to export"
  | (some (name, lines), w) =>
    let file := name ++ ".csv"
    match Csv.exportTo w.exports [] file lines with
    | .ok exports =>
      { w with exports }.say ("Exported to " ++ Folder.pathBelow w.exportDirectory [file])
    | .error failure => w.say ("Error: CSV error: " ++ failure.message)

end Watcher

end ComputedTables
