import ComputedTables.Document.Basic
import ComputedTables.Document.PathFailure

/-!
# Where documents come from

A source lists documents and reads them, as they are at one moment.  Reading may fail.  A shelf is a
source held in memory, in which any document can be made to fail.
-/

namespace ComputedTables

open Std (ExtTreeMap)

/-- Why a document could not be read. -/
inductive ReadFailure where
  | missing (name : String)
  /-- The contents are no text. -/
  | notText
  | unreachable (failure : PathFailure)
  | fault (reason : String)
  deriving DecidableEq, Repr

/-- The wording of a failure to read. -/
def ReadFailure.message : ReadFailure → String
  | .missing name => "no document " ++ name
  | .notText => "stream did not contain valid UTF-8"
  | .unreachable failure => failure.message
  | .fault reason => reason

/-- The documents there are, and how to read them. -/
structure Source where
  list : List Document
  read : Document → Except ReadFailure String

/-- What has changed in a source. -/
inductive Change where
  | created (id : Document)
  | modified (id : Document)
  | removed (id : Document)
  | renamed (old new : Document)
  deriving DecidableEq, Repr

/-- The documents that a change mentions. -/
def Change.documents : Change → List Document
  | .created id => [id]
  | .modified id => [id]
  | .removed id => [id]
  | .renamed old new => [old, new]

/-- Documents held in memory. -/
structure Shelf where
  /-- The texts of the documents by name. -/
  texts : ExtTreeMap String String := ∅
  /-- Why documents cannot be read that cannot. -/
  faults : ExtTreeMap String String := ∅

namespace Shelf

/-- The document with a name. -/
def idOf (name : String) : Document :=
  ⟨name ++ ".md"⟩

/-- Puts a document on the shelf, in place of the one with that name. -/
def put (s : Shelf) (name text : String) : Shelf :=
  { s with texts := s.texts.insert name text }

/-- Takes a document off the shelf. -/
def remove (s : Shelf) (name : String) : Shelf :=
  { s with texts := s.texts.erase name }

/-- Makes reading a document fail. -/
def damage (s : Shelf) (name reason : String) : Shelf :=
  { s with faults := s.faults.insert name reason }

/-- Makes reading a document work again. -/
def repair (s : Shelf) (name : String) : Shelf :=
  { s with faults := s.faults.erase name }

/-- Reads the document that has the name of the given one. -/
def read (s : Shelf) (id : Document) : Except ReadFailure String :=
  match s.faults[id.name]?, s.texts[id.name]? with
  | some reason, _ => .error (.fault reason)
  | none, some text => .ok text
  | none, none => .error (.missing id.name)

/-- The shelf as a source, with its documents in the order of their names. -/
def source (s : Shelf) : Source :=
  { list := s.texts.keys.map idOf, read := s.read }

end Shelf

end ComputedTables
