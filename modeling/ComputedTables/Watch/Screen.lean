import ComputedTables.Watch.Canvas
import ComputedTables.Watch.Help
import ComputedTables.Watch.Watcher

/-!
# The screen

The screen shows a header, the documents beside a preview of the selected one, and a status box;
the help is drawn over all of it.  Where room runs out, the list and the preview give way first,
then the header, and the status box last.
-/

namespace ComputedTables.Watcher

/-- The line at the top. -/
def headerText (w : Watcher) : String :=
  "tablemath | " ++ toString w.documents.length ++ " documents with tables | "
    ++ toString w.engine.index.size ++ " indexed | precision "
    ++ toString w.engine.settings.precision.toNat ++ " | " ++ w.engine.settings.locale

/-- How a document is listed: with the number of variables it publishes, if it does. -/
def documentLabel (w : Watcher) (id : Document) : String :=
  let published := (w.engine.index.getD id.name ∅).size
  if 0 < published then id.name ++ " (" ++ toString published ++ ")" else id.name

/-- The first entries of a list that fit a height together. -/
def fittingEntries {α : Type} (height : Nat) : List (List α) → List (List α)
  | [] => []
  | entry :: rest =>
    if height < entry.length then []
    else entry :: fittingEntries (height - entry.length) rest

/-- The entries that are shown: those from the top, or, if the selected one is not among them, those
that end with it.  An entry that is too high is not shown. -/
def shownEntries {α : Type} (height selected : Nat) (entries : List (List α)) : List (List α) :=
  let first := fittingEntries height entries
  if selected < first.length then first
  else (fittingEntries height (entries.take (selected + 1)).reverse).reverse

/-- The rows of a document in the list; its label can have more than one line, or none. -/
def documentRows (w : Watcher) (width : Nat) (id : Document) : List ScreenRow :=
  let label := w.documentLabel id
  (if label = "" then [""] else Canvas.linesOf label).map fun line =>
    (ScreenRow.blanks width).label 0 width line

/-- The list of documents, scrolled just as far as it takes to show the selected one. -/
def documentsBox (w : Watcher) (width height : Nat) : Canvas :=
  let entries := w.documents.map (w.documentRows (width - 2))
  .box width height "Documents" (shownEntries (height - 2) w.selected entries).flatten

/-- The preview does not scroll on the screen beyond the largest number of 16 bits. -/
def maxPreviewScroll : Nat := 65535

/-- The preview of the selected document. -/
def previewBox (w : Watcher) (source : Source) (width height : Nat) : Canvas :=
  let title := (w.current?.map Document.name).getD "Preview"
  let lines := Canvas.linesOf (w.preview source)
  .textBox width height title (lines.drop (min w.previewScroll maxPreviewScroll))

/-- What the status box says in the list. -/
def statusLine (w : Watcher) : String :=
  match w.progress?, w.status, w.last with
  | some p, _, _ =>
    "Indexing " ++ toString p.visited ++ "/" ++ toString p.total ++ " documents..."
  | none, some status, _ => status
  | none, none, some (document, o) =>
    "Last recompute: " ++ document ++ " (" ++ toString o.processed ++ " tables, "
      ++ toString o.reused ++ " reused, " ++ toString o.published ++ " variables)"
  | none, none, none => "j/k: select | r: recompute | e: export CSV | ?: help | q: quit"

/-- What the status box says while the help is shown. -/
def helpStatus : String :=
  "↑↓/jk: scroll | PgUp/PgDn: fast scroll | Home: top | Esc/q: close help"

def statusBox (w : Watcher) (width height : Nat) : Canvas :=
  let text :=
    match w.mode with
    | .normal => w.statusLine
    | .help => helpStatus
  .textBox width height "Status" (Canvas.linesOf text)

/-- The help, scrolled no further than it takes to show its last line. -/
def helpBox (w : Watcher) (width height : Nat) : Canvas :=
  let start := min w.helpScroll (Help.lineCount - (height - 2))
  let title := "tablemath Formula Help (Line " ++ toString (start + 1) ++ "/"
    ++ toString Help.lineCount ++ ")"
  .textBox width height title (Help.lines.drop start)

/-- The screen of a terminal of the given size. -/
def screen (w : Watcher) (source : Source) (width height : Nat) : List String :=
  let header := min 1 (height - 3)
  let middle := height - 4
  let left := width * 3 / 10
  let shown :=
    Canvas.area width header (Canvas.textRows width header (Canvas.linesOf w.headerText))
      ++ Canvas.beside (w.documentsBox left middle) (w.previewBox source (width - left) middle)
      ++ w.statusBox width (min 3 height)
  let shown :=
    match w.mode with
    | .normal => shown
    | .help =>
      Canvas.overlay shown (width / 10) (height / 10) (w.helpBox (width * 4 / 5) (height * 4 / 5))
  shown.map ScreenRow.text

end ComputedTables.Watcher
