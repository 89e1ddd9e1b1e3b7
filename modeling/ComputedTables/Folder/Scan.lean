import ComputedTables.Folder.Files
import ComputedTables.Text.Digest

/-!
# Scanning a folder for changes

A scan compares the documents of a folder with what is known of them from the scan before.  A
document counts as changed when its time of modification has; one that cannot be read stays as it
was known.  A new document with the digest of one that has gone is that one renamed.
-/

namespace ComputedTables

open Folder (documentAt)
open Std (ExtTreeMap)

/-- What is known of a document. -/
structure Snapshot where
  modified : Nat
  digest : UInt64
  deriving DecidableEq, Repr

/-- What is known of the documents of a folder, by the names that lead to them. -/
abbrev Snapshots := ExtTreeMap (List String) Snapshot

/-- How far the documents that are there have been compared. -/
structure Comparison where
  current : Snapshots := ∅
  /-- The documents that were known and have changed. -/
  modified : List (List String) := []
  /-- The documents that were not known, with their digests. -/
  created : List (List String × UInt64) := []

/-- Compares one document with what is known of it. -/
def Comparison.compare (digest : Text.Digest) (known : Snapshots) (c : Comparison)
    (document : List String × StoredFile) : Comparison :=
  let (names, file) := document
  let keep (snapshot : Snapshot) : Comparison :=
    { c with current := c.current.insert names snapshot }
  match known[names]?, file.text with
  | some old, text? =>
    if old.modified = file.modified then keep old
    else
      match text? with
      | none => keep old
      | some text =>
        { keep ⟨file.modified, digest text⟩ with modified := c.modified ++ [names] }
  | none, some text =>
    { keep ⟨file.modified, digest text⟩ with created := c.created ++ [(names, digest text)] }
  | none, none => c

/-- A list without the item at a position; the last item takes its place. -/
def takeOut {α : Type} (items : List α) (position : Nat) : List α :=
  match items.getLast? with
  | none => []
  | some last => (items.set position last).dropLast

/-- Tells the renamed documents from the created ones: the changes, and the documents that have gone
for good. -/
def matchRenamed (gone : List (List String × UInt64)) :
    List (List String × UInt64) → List Change × List (List String × UInt64)
  | [] => ([], gone)
  | (new, digest) :: created =>
    let position := gone.findIdx fun (_, old) => old == digest
    match gone[position]? with
    | some (old, _) =>
      let (changes, gone) := matchRenamed (takeOut gone position) created
      (.renamed (documentAt old) (documentAt new) :: changes, gone)
    | none =>
      let (changes, gone) := matchRenamed gone created
      (.created (documentAt new) :: changes, gone)

/-- Scans a folder: the changes since what is known, and what is known now. -/
def Folder.scan (f : Folder) (known : Snapshots) (digest : Text.Digest := hash) :
    List Change × Snapshots :=
  let c := (f.documentsBelow []).foldl (Comparison.compare digest known) {}
  let gone := (known.toList.filter fun (names, _) => !c.current.contains names).map
    fun (names, snapshot) => (names, snapshot.digest)
  let (changes, gone) := matchRenamed gone c.created
  (c.modified.map (.modified ∘ documentAt) ++ changes
    ++ gone.map fun (names, _) => .removed (documentAt names), c.current)

end ComputedTables
