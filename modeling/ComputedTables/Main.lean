import ComputedTables.CommandLine.Run

/-!
# The program

All that the program decides is decided by `CommandLine.Command.run`; here is only what it takes to
gather the files it looks at, to write the index and to print.
-/

namespace ComputedTables.Program

open Std (ExtTreeMap)

/-- Whether a path leads to anything. -/
def isThere (path : String) : IO Bool := do
  try
    (← IO.FS.realPath path).pathExists
  catch _ =>
    return false

/-- Whether a path leads to a file. -/
def isFile (path : String) : IO Bool := do
  try
    return (← isThere path) && !(← (← IO.FS.realPath path).isDir)
  catch _ =>
    return false

/-- Reads a file, if there is one. -/
def readText? (path : String) : IO (Option (Except ReadFailure String)) := do
  if ← isFile path then
    try
      return some (.ok (← IO.FS.readFile path))
    catch _ =>
      return some (.error .notText)
  else
    return none

/-- The names that lead to the documents below a directory, in any order. -/
partial def listDocuments (directory : String) (above : List String) : IO (List (List String)) := do
  let mut found := []
  try
    let place ← IO.FS.realPath directory
    for entry in ← place.readDir do
      let names := above ++ [entry.fileName]
      if ← entry.path.isDir then
        if !Folder.isHidden entry.fileName then
          found := found ++ (← listDocuments (Folder.pathBelow directory [entry.fileName]) names)
      else if Folder.isDocument names then
        found := found ++ [names]
    return found
  catch _ =>
    return found

/-- Reads the documents below a directory. -/
def readDocuments (directory : String) : IO Source := do
  let names ← listDocuments directory []
  let ids := (names.mergeSort fun a b => (compare a b).isLE).map fun names =>
    Document.mk (Folder.pathBelow directory names)
  let mut texts : ExtTreeMap Document (Except ReadFailure String) := ∅
  for id in ids do
    if let some text ← readText? id.path then
      texts := texts.insert id text
  let read := texts
  return { list := ids, read := fun id => read.getD id (.error (.unreachable .missing)) }

/-- The text of a stored file that can be read, and whether there is something that cannot. -/
def readStored (directory : String) (names : List String) : IO (Option String × Bool) := do
  let path := Folder.pathBelow directory names
  try
    return (some (← IO.FS.readFile path), false)
  catch _ =>
    return (none, ← isThere path)

/-- Begins a log, or says why that cannot be. -/
def beginLog (directory : String) : IO (Option String) := do
  let place := Folder.pathBelow directory [CommandLine.dataDirectory]
  try
    IO.FS.createDirAll place
  catch e =>
    return some (CommandLine.because ("creating " ++ place) (toString e))
  try
    let log ← IO.FS.Handle.mk (Folder.pathBelow directory CommandLine.logPath) .append
    log.flush
    return none
  catch e =>
    return some (CommandLine.because "opening log file" (toString e))

/-- Gathers what a command looks at. -/
def gather (o : CommandLine.Options) (command : CommandLine.Command) :
    IO CommandLine.Surroundings := do
  let (settings, _) ← readStored o.root CommandLine.settingsPath
  let (index, damaged) ← readStored o.root CommandLine.indexPath
  let named ←
    match command with
    | .render document => readText? document
    | _ => pure none
  let obstacle ← if command = .watch then beginLog o.root else pure none
  return {
    settings := Settings.fromFile settings
    index := if damaged then .error .io else Index.ofFile index
    source := ← readDocuments o.root
    obstacle
    file? := fun _ => named
    digest := hash }

/-- Stores the index, if that is possible. -/
def store (directory : String) (index : Index) : IO Unit := do
  try
    IO.FS.createDirAll (Folder.pathBelow directory CommandLine.indexPath.dropLast)
    IO.FS.writeFile (Folder.pathBelow directory CommandLine.indexPath) index.text
  catch _ =>
    pure ()

/-- Runs the program on its arguments, and gives its exit code. -/
def run (arguments : List String) : IO UInt32 := do
  match CommandLine.read arguments with
  | none =>
    IO.eprintln CommandLine.misuseText
    return CommandLine.Report.misuse.code
  | some (.help topic) =>
    IO.print topic.text
    return 0
  | some .version =>
    IO.print CommandLine.versionText
    return 0
  | some (.run o command) =>
    let report := command.run (← gather o command) o
    if let some index := report.saved then
      store o.root index
    IO.print report.output
    if !report.error.isEmpty then
      IO.eprintln report.error
    return report.code

end ComputedTables.Program

def main (arguments : List String) : IO UInt32 :=
  ComputedTables.Program.run arguments
