import Std.Data.ExtTreeMap.Lemmas
import ComputedTables.Document.Path

/-!
# Which document

A document is known by its path.  Two paths with the same parts are those of one document, however
they are written.  Other documents refer to it by its name, which is the stem of its file's name.
Documents are ordered by the parts of their paths, so that a folder's documents stand together.
-/

namespace ComputedTables

/-- A document, known by its path. -/
structure Document where
  path : String
  deriving DecidableEq, Repr

namespace Document

/-- The name that other documents use. -/
def name (id : Document) : String :=
  ((fileName? id.path).map fun file => (splitExtension file).1).getD ""

/-- The parts of the path. -/
def parts (id : Document) : List PathPart :=
  PathPart.ofPath id.path

/-- Whether two paths lead to one document. -/
def same (a b : Document) : Bool :=
  a.parts == b.parts

/-- The parts of the path, as they are ordered. -/
def ranks (id : Document) : List String :=
  id.parts.map PathPart.rank

instance : Ord Document := ⟨compareOn ranks⟩

instance : Std.TransOrd Document :=
  inferInstanceAs (Std.TransCmp (compareOn ranks))

theorem compare_eq_iff_same {a b : Document} : compare a b = .eq ↔ a.same b = true := by
  have ordered : compare a b = compare a.ranks b.ranks := rfl
  rw [ordered, Std.LawfulEqOrd.compare_eq_iff_eq, same, beq_iff_eq, ranks, ranks]
  exact List.map_inj_right fun _ _ => PathPart.rank_injective

theorem name_eq_of_same {a b : Document} (h : a.same b = true) : a.name = b.name := by
  rw [same, beq_iff_eq, parts, parts] at h
  rw [name, name, fileName?, fileName?, h]

end Document

end ComputedTables
