import ComputedTables.CommandLine.Usage
import ComputedTables.Folder.Files
import ComputedTables.Indexing.Bulk
import ComputedTables.Storage.StoredIndex
import ComputedTables.Storage.StoredSettings

/-!
# Running a command

A command is run on what it finds around it: stored settings, the stored index, and documents.
What comes out is what is printed, and the index to store if it was saved.  A failure is reported
with the exit code one, arguments that cannot be understood with two.
-/

namespace ComputedTables.CommandLine

/-- What a command finds around it. -/
structure Surroundings where
  settings : Settings := {}
  index : Except StorageError Index := .ok ∅
  source : Source
  /-- Why watching cannot even begin, if it cannot. -/
  obstacle : Option String := none
  /-- Reads the file that a path leads to, if it leads to one. -/
  file? : String → Option (Except ReadFailure String)
  /-- How digests are taken. -/
  digest : Text.Digest := hash

/-- What a run leaves behind. -/
structure Report where
  code : UInt32 := 0
  output : String := ""
  error : String := ""
  /-- The index that was saved last, if any was. -/
  saved : Option Index := none

/-- The report of a failure. -/
def Report.failure (message : String) : Report :=
  { code := 1, error := "Error: " ++ message }

/-- The report that the arguments cannot be understood; it is not worded here. -/
def Report.misuse : Report :=
  { code := 2 }

/-- What an engine has saved. -/
def savedBy (engine : Engine) : Option Index :=
  if engine.store.saves = 0 then none else some engine.store.contents

/-- The directory that is searched for documents unless another one is named. -/
def defaultDirectory : String := "."

/-- The directory of the documents. -/
def Options.root (o : Options) : String :=
  o.directory.getD defaultDirectory

/-- The settings to use: the stored ones, unless the options say otherwise. -/
def Options.settings (o : Options) (stored : Settings) : Settings :=
  Settings.inRange
    { precision := o.precision.getD stored.precision, locale := o.locale.getD stored.locale }

/-- The engine that a command starts with. -/
def Surroundings.engine (s : Surroundings) (o : Options) : Engine :=
  let store : Store :=
    { contents := s.index.toOption.getD ∅, loadFails := s.index.toOption.isNone }
  Engine.load { settings := o.settings s.settings, store, digest := s.digest }

/-- What was done when something failed, and why it failed. -/
def because (what reason : String) : String :=
  what ++ "\n\nCaused by:\n    " ++ reason

/-- Why a file or a document could not be read. -/
def unreadable (what : String) (failure : ReadFailure) : String :=
  because ("reading " ++ what) failure.message

/-- Finds a document by the path of any file, or else by its name: its name and its text. -/
def Surroundings.find (s : Surroundings) (o : Options) (document : String) :
    Except String (String × String) :=
  match s.file? document with
  | some (.ok text) => .ok ((Document.mk document).name, text)
  | some (.error failure) => .error (unreadable document failure)
  | none =>
    match s.source.list.find? fun id => id.name == document with
    | none => .error ("no document named " ++ document ++ " in " ++ o.root)
    | some id =>
      match s.source.read id with
      | .ok text => .ok (id.name, text)
      | .error failure => .error (unreadable id.path failure)

/-- Indexes all documents and prints the index. -/
def runIndex (s : Surroundings) (o : Options) : Report :=
  let bulk := Bulk.create s.source.list Bulk.defaultBatch
  let (_, engine) := bulk.run s.source (s.engine o)
  { output := engine.index.text ++ "\n", saved := savedBy engine }

/-- Prints a document with its tables computed. -/
def runRender (s : Surroundings) (o : Options) (document : String) : Report :=
  match s.find o document with
  | .error message => .failure message
  | .ok (name, text) =>
    let (output, engine) := (s.engine o).render name text
    { output, saved := savedBy engine }

/-- Evaluates a formula outside of any table; its mark may be left out. -/
def runEval (s : Surroundings) (o : Options) (formula : String) : Report :=
  let formula := if isFormulaText formula then formula else "=" ++ formula
  let engine := s.engine o
  let lookup := engine.index.lookup
  match evalFormula lookup [] ⟨0, 0⟩ formula with
  | .ok value =>
    { output := engine.formatter.text value (resultCurrency lookup formula) ++ "\n" }
  | .error e => .failure (formula ++ ": " ++ e.message)

/-- Watching needs a terminal; this is what is said where there is none. -/
def noTerminal : String :=
  "No such device or address (os error 6)"

def Command.run (s : Surroundings) (o : Options) : Command → Report
  | .watch => .failure (s.obstacle.getD noTerminal)
  | .index => runIndex s o
  | .render document => runRender s o document
  | .eval formula => runEval s o formula

/-- The directory of what is stored, as seen from the directory of the documents. -/
def dataDirectory : String := ".tablemath"

/-- Where the index is stored, as seen from the directory of the documents. -/
def indexPath : List String :=
  [dataDirectory, "index.json"]

/-- Where the settings are stored, as seen from the directory of the documents. -/
def settingsPath : List String :=
  [dataDirectory, "settings.json"]

/-- Where watching is logged, as seen from the directory of the documents. -/
def logPath : List String :=
  [dataDirectory, "tablemath.log"]

/-- The contents of what a path leads to, if it leads to anything. -/
def contents? (folder : Folder) (path : String) : Option (Except ReadFailure String) :=
  match folder.find [] path with
  | .ok (_, some _) => some (folder.read ⟨path⟩)
  | _ => none

/-- What a command finds in a folder, its documents being in a directory of it. -/
def Surroundings.ofFolder (folder : Folder) (directory : String) : Surroundings :=
  { settings :=
      match contents? folder (Folder.pathBelow directory settingsPath) with
      | some (.ok text) => Settings.fromFile (some text)
      | _ => {}
    index :=
      match contents? folder (Folder.pathBelow directory indexPath) with
      | none => .ok ∅
      | some (.ok text) => Index.ofFile (some text)
      | some (.error _) => .error .io
    source := folder.source directory
    file? := fun path => (folder.file? path).map fun _ => folder.read ⟨path⟩ }

/-- A folder after a run, in which the index has been stored if that is possible. -/
def store (folder : Folder) (directory : String) (index : Index) : Folder :=
  match folder.store (Folder.pathBelow directory indexPath) { text := some index.text } with
  | .ok folder => folder
  | .error _ => folder

/-- A folder in which a log has been begun, or why that cannot be. -/
def beginLog (folder : Folder) (directory : String) : Except String Folder := do
  let place := Folder.pathBelow directory [dataDirectory]
  let folder ← (folder.makeDirectory place).mapError fun failure =>
    because ("creating " ++ place) failure.message
  let log := Folder.pathBelow directory logPath
  match folder.file? log with
  | some _ => return folder
  | none =>
    (folder.write [] log { text := some "" }).mapError fun failure =>
      because "opening log file" failure.message

/-- Runs a command with its options in a folder: the report and the folder after it. -/
def Command.runIn (folder : Folder) (o : Options) (command : Command) : Report × Folder :=
  match command with
  | .watch =>
    match beginLog folder o.root with
    | .ok folder => (command.run (.ofFolder folder o.root) o, folder)
    | .error obstacle =>
      (command.run { Surroundings.ofFolder folder o.root with obstacle := some obstacle } o, folder)
  | _ =>
    let report := command.run (.ofFolder folder o.root) o
    (report, (report.saved.map (store folder o.root)).getD folder)

/-- Answers a request in a folder: the report and the folder after it. -/
def Request.answer (folder : Folder) : Request → Report × Folder
  | .help topic => ({ output := topic.text }, folder)
  | .version => ({ output := versionText }, folder)
  | .run o command => command.runIn folder o

/-- Runs the program on its arguments in a folder: the report and the folder after it. -/
def run (folder : Folder) (arguments : List String) : Report × Folder :=
  match read arguments with
  | none => (.misuse, folder)
  | some request => request.answer folder

end ComputedTables.CommandLine
