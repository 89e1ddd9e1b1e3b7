import ComputedTables.Document.Source

/-!
# Folders

A folder is the directories and files in it, by the names that lead to them; whatever is above a
file or a directory is a directory.  A path is followed part by part: each part but the last has to
be a directory, also when the next part leads back out of it.  A folder's documents are its markdown
files, those below a hidden directory left out.  They are ordered by their paths, name by name.
-/

namespace ComputedTables

open Std (ExtTreeMap)

/-- A file: when it was modified, in any unit, and its text, if its contents are one. -/
structure StoredFile where
  modified : Nat := 0
  text : Option String
  deriving DecidableEq, Repr

/-- What stands at a place in a folder. -/
inductive Entry where
  | directory
  | file (file : StoredFile)
  deriving DecidableEq, Repr

/-- Directories and files by the names that lead to them. -/
structure Folder where
  entries : ExtTreeMap (List String) Entry := ∅

namespace Folder

/-- How many bytes a name can have. -/
def maxNameSize : Nat := 255

/-- How many bytes a path can have. -/
def maxPathSize : Nat := 4095

/-- Follows the parts of a path, from a place at which an entry stands: the names that lead to its
end, and what stands there, if anything does.  Only the last part may name what is not there.
Nothing is known of what is outside the folder. -/
def follow (f : Folder) (names : List String) (entry : Entry) :
    List String → Except PathFailure (List String × Option Entry)
  | [] => .ok (names, some entry)
  | part :: rest =>
    match entry with
    | .file _ => .error .notDirectory
    | .directory =>
      if part = "" ∨ part = "." then f.follow names .directory rest
      else if part = ".." then
        if names.isEmpty then .error .missing else f.follow names.dropLast .directory rest
      else if maxNameSize < part.utf8ByteSize then .error .tooLong
      else
        match f.entries[names ++ [part]]? with
        | some entry => f.follow (names ++ [part]) entry rest
        | none => if rest.isEmpty then .ok (names ++ [part], none) else .error .missing

/-- The parts of a path that does not lead out of the folder from the start. -/
def parts (path : String) : Except PathFailure (List String) :=
  if path.toList.contains '\x00' then .error .notPath
  else if maxPathSize < path.utf8ByteSize then .error .tooLong
  else if path.toList.head? = some '/' then .error .missing
  else .ok (Text.pieces '/' path)

/-- Where a path leads from a directory, and what stands there. -/
def find (f : Folder) (directory : List String) (path : String) :
    Except PathFailure (List String × Option Entry) := do
  f.follow directory .directory (← parts path)

/-- The file that a path leads to. -/
def file? (f : Folder) (path : String) : Option StoredFile :=
  match f.find [] path with
  | .ok (_, some (.file file)) => some file
  | _ => none

/-- The directory that a path leads to. -/
def directory? (f : Folder) (path : String) : Option (List String) :=
  match f.find [] path with
  | .ok (names, some .directory) => some names
  | _ => none

/-- Puts an entry at a place, in place of what stands there. -/
def put (f : Folder) (names : List String) (entry : Entry) : Folder :=
  { entries := f.entries.insert names entry }

/-- Writes a file to a path from a directory. -/
def write (f : Folder) (directory : List String) (path : String) (file : StoredFile) :
    Except PathFailure Folder := do
  match ← f.find directory path with
  | (_, some .directory) => .error .directory
  | (names, _) => .ok (f.put names (.file file))

/-- Makes the directories that the parts of a path lead through from a place, as far as they are
missing: the place at their end and the folder with them. -/
def enter (f : Folder) (names : List String) :
    List String → Except PathFailure (List String × Folder)
  | [] => .ok (names, f)
  | part :: rest =>
    if part = "" ∨ part = "." then f.enter names rest
    else if part = ".." then
      if names.isEmpty then .error .missing else f.enter names.dropLast rest
    else if maxNameSize < part.utf8ByteSize then .error .tooLong
    else
      match f.entries[names ++ [part]]? with
      | some .directory => f.enter (names ++ [part]) rest
      | some (.file _) => .error (if rest.isEmpty then .taken else .notDirectory)
      | none => (f.put (names ++ [part]) .directory).enter (names ++ [part]) rest

/-- Makes a directory and those above it, as far as they are missing. -/
def makeDirectory (f : Folder) (path : String) : Except PathFailure Folder := do
  return (← f.enter [] (← parts path)).2

/-- Writes a file to a path, and makes the directories above it as far as they are missing. -/
def store (f : Folder) (path : String) (file : StoredFile) : Except PathFailure Folder := do
  let parts ← parts path
  let (names, f) ← f.enter [] parts.dropLast
  f.write names (parts.getLast?.getD "") file

/-- Removes a file, or a directory with everything below it. -/
def remove (f : Folder) (path : String) : Folder :=
  match f.find [] path with
  | .ok (names, some _) => { entries := f.entries.filter fun key _ => !names.isPrefixOf key }
  | _ => f

/-- Moves a file, or a directory with everything below it, to a path, above which directories are
made as far as they are missing. -/
def move (f : Folder) (old new : String) : Folder :=
  match f.find [] old with
  | .ok (source, some _) =>
    let moved := f.entries.toList.filter fun (key, _) => source.isPrefixOf key
    let target : Except PathFailure (List String × Folder) := do
      let parts ← parts new
      let (names, f) ← (f.remove old).enter [] parts.dropLast
      return (names ++ parts.getLast?.toList, f)
    match target with
    | .ok (names, f) =>
      moved.foldl (fun f (key, entry) => f.put (names ++ key.drop source.length) entry) f
    | .error _ => f
  | _ => f

/-- Whether a name is that of something hidden. -/
def isHidden (name : String) : Bool :=
  name.toList.head? == some '.'

/-- Whether names lead to a document: a markdown file that is not below a hidden directory. -/
def isDocument (names : List String) : Bool :=
  match names.getLast? with
  | none => false
  | some file => (splitExtension file).2 == some "md" && !names.dropLast.any isHidden

/-- The documents below a directory, by the names that lead to them from there, in order. -/
def documentsBelow (f : Folder) (directory : List String) : List (List String × StoredFile) :=
  f.entries.toList.filterMap fun (key, entry) =>
    let names := key.drop directory.length
    match entry with
    | .file file =>
      if directory.isPrefixOf key && isDocument names then some (names, file) else none
    | .directory => none

/-- The path that leads through a directory to a file below it. -/
def pathBelow (directory : String) (names : List String) : String :=
  let path := Text.joined "/" names
  if directory.isEmpty then path
  else if directory.toList.getLast? = some '/' then directory ++ path
  else directory ++ "/" ++ path

/-- The document that names lead to. -/
def documentAt (names : List String) : Document :=
  ⟨pathBelow "" names⟩

/-- The documents of a folder. -/
def documents (f : Folder) : List Document :=
  (f.documentsBelow []).map fun (names, _) => documentAt names

/-- Reads the file that a path leads to. -/
def read (f : Folder) (id : Document) : Except ReadFailure String :=
  match f.find [] id.path with
  | .ok (_, some (.file { text := some text, .. })) => .ok text
  | .ok (_, some (.file { text := none, .. })) => .error .notText
  | .ok (_, some .directory) => .error (.unreachable .directory)
  | .ok (_, none) => .error (.unreachable .missing)
  | .error failure => .error (.unreachable failure)

/-- The documents below a directory, as a source. -/
def source (f : Folder) (directory : String) : Source :=
  { list :=
      match f.directory? directory with
      | none => []
      | some names =>
        (f.documentsBelow names).map fun (below, _) => ⟨pathBelow directory below⟩
    read := f.read }

end Folder

end ComputedTables
