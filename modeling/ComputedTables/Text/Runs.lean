/-!
# Runs

A run is the longest start of a list whose elements all have a property.  It ends in front of the
first element that does not have it.
-/

namespace ComputedTables

variable {α : Type} {p : α → Bool} {run rest : List α}

theorem takeWhile_append_of_stop (hrun : ∀ x ∈ run, p x = true)
    (hrest : ∀ x ∈ rest.head?, p x = false) : (run ++ rest).takeWhile p = run := by
  rw [List.takeWhile_append_of_pos hrun]
  rcases rest with _ | ⟨x, rest⟩
  · simp
  · simp [hrest x rfl]

theorem dropWhile_append_of_stop (hrun : ∀ x ∈ run, p x = true)
    (hrest : ∀ x ∈ rest.head?, p x = false) : (run ++ rest).dropWhile p = rest := by
  rw [List.dropWhile_append_of_pos hrun]
  rcases rest with _ | ⟨x, rest⟩
  · simp
  · simp [hrest x rfl]

/-- Every list is a run and what stops it. -/
theorem takeWhile_spec (p : α → Bool) (l : List α) : (∀ x ∈ l.takeWhile p, p x = true) ∧
    (∀ x ∈ (l.dropWhile p).head?, p x = false) ∧ l.takeWhile p ++ l.dropWhile p = l := by
  refine ⟨List.all_eq_true.1 List.all_takeWhile, fun x hx => ?_, List.takeWhile_append_dropWhile⟩
  have hnot := List.head?_dropWhile_not p l
  rw [Option.mem_def.1 hx] at hnot
  exact hnot

end ComputedTables
