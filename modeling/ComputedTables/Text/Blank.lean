import ComputedTables.Text.Runs

/-!
# Blank characters

White space is the Unicode property `White_Space`, the same set everywhere in this library: between
the tokens of a formula, around the text of a cell, inside the parentheses of a call.  Trimming
takes blanks off both ends and nothing else.
-/

namespace ComputedTables.Text

/-- Holds of the characters with the Unicode property `White_Space`. -/
def isBlank (c : Char) : Bool :=
  (9 ≤ c.val && c.val ≤ 13) || c.val == 0x20 || c.val == 0x85 || c.val == 0xA0 || c.val == 0x1680
    || (0x2000 ≤ c.val && c.val ≤ 0x200A) || c.val == 0x2028 || c.val == 0x2029
    || c.val == 0x202F || c.val == 0x205F || c.val == 0x3000

/-- The characters from the first one on that is not blank. -/
def dropBlanks (cs : List Char) : List Char :=
  cs.dropWhile isBlank

/-- The characters up to the last one that is not blank. -/
def dropBlanksEnd (cs : List Char) : List Char :=
  (dropBlanks cs.reverse).reverse

/-- The characters without the blanks at either end. -/
def trim (cs : List Char) : List Char :=
  dropBlanksEnd (dropBlanks cs)

/-- A text without the blanks at either end. -/
def trimmed (text : String) : String :=
  String.ofList (trim text.toList)

theorem length_dropBlanks_le (cs : List Char) : (dropBlanks cs).length ≤ cs.length :=
  (List.dropWhile_sublist _).length_le

/-- Blanks and nothing else. -/
def IsGap (cs : List Char) : Prop :=
  ∀ c ∈ cs, isBlank c = true

theorem dropBlanks_gap_append {gap cs : List Char} (hg : IsGap gap)
    (hcs : ∀ c ∈ cs.head?, isBlank c = false) : dropBlanks (gap ++ cs) = cs :=
  dropWhile_append_of_stop hg hcs

theorem dropBlanks_gap_cons {gap cs : List Char} {c : Char} (hg : IsGap gap)
    (hc : isBlank c = false) : dropBlanks (gap ++ c :: cs) = c :: cs :=
  dropBlanks_gap_append hg (by simpa using hc)

theorem exists_gap_append (cs : List Char) : ∃ gap, IsGap gap ∧ gap ++ dropBlanks cs = cs :=
  ⟨cs.takeWhile isBlank, List.all_eq_true.1 List.all_takeWhile, List.takeWhile_append_dropWhile⟩

theorem exists_append_gap (cs : List Char) : ∃ gap, IsGap gap ∧ dropBlanksEnd cs ++ gap = cs := by
  obtain ⟨gap, hgap, h⟩ := exists_gap_append cs.reverse
  refine ⟨gap.reverse, fun c hc => hgap c (List.mem_reverse.1 hc), ?_⟩
  rw [dropBlanksEnd, ← List.reverse_append, h, List.reverse_reverse]

/-! ### Trimming -/

theorem mem_of_mem_trim {cs : List Char} {c : Char} (h : c ∈ trim cs) : c ∈ cs := by
  unfold trim dropBlanksEnd dropBlanks at h
  exact (List.dropWhile_sublist _).subset
    (List.mem_reverse.1 ((List.dropWhile_sublist _).subset (List.mem_reverse.1 h)))

theorem trim_eq_self {cs : List Char} (hfirst : ∀ c ∈ cs.head?, isBlank c = false)
    (hlast : ∀ c ∈ cs.getLast?, isBlank c = false) : trim cs = cs := by
  have hgap : IsGap [] := nofun
  have hstart : dropBlanks cs = cs := dropBlanks_gap_append hgap hfirst
  have hend : dropBlanks cs.reverse = cs.reverse :=
    dropBlanks_gap_append hgap (by simpa using hlast)
  rw [trim, hstart, dropBlanksEnd, hend, List.reverse_reverse]

theorem not_blank_of_mem_head?_dropBlanks {cs : List Char} {c : Char}
    (h : c ∈ (dropBlanks cs).head?) : isBlank c = false := by
  have hnot := List.head?_dropWhile_not isBlank cs
  have hc : (cs.dropWhile isBlank).head? = some c := h
  rw [hc] at hnot
  exact hnot

theorem not_blank_of_mem_head?_trim {cs : List Char} {c : Char} (h : c ∈ (trim cs).head?) :
    isBlank c = false := by
  obtain ⟨gap, -, hsplit⟩ := exists_append_gap (dropBlanks cs)
  have hhead : c ∈ (dropBlanks cs).head? := by
    rw [← hsplit, List.head?_append]
    exact Option.or_eq_some_iff.2 (.inl h)
  exact not_blank_of_mem_head?_dropBlanks hhead

theorem not_blank_of_mem_getLast?_trim {cs : List Char} {c : Char} (h : c ∈ (trim cs).getLast?) :
    isBlank c = false := by
  unfold trim dropBlanksEnd at h
  rw [List.getLast?_reverse] at h
  exact not_blank_of_mem_head?_dropBlanks h

@[simp]
theorem trim_trim (cs : List Char) : trim (trim cs) = trim cs :=
  trim_eq_self (fun _ => not_blank_of_mem_head?_trim) fun _ => not_blank_of_mem_getLast?_trim

/-- Trimming takes the blanks around a text away again. -/
theorem trim_between_gaps {gap cs gap' : List Char} (hgap : IsGap gap) (hgap' : IsGap gap')
    (h : trim cs = cs) : trim (gap ++ (cs ++ gap')) = cs := by
  rcases cs with _ | ⟨c, cs⟩
  · have hall : IsGap (gap ++ gap') := fun x hx => (List.mem_append.1 hx).elim (hgap x) (hgap' x)
    have hnil : dropBlanks (gap ++ gap' ++ []) = [] := dropBlanks_gap_append hall nofun
    rw [List.append_nil] at hnil
    rw [trim, List.nil_append, hnil]
    rfl
  · have hhead : c ∈ (trim (c :: cs)).head? := h.symm ▸ List.head?_cons
    have hfirst : isBlank c = false := not_blank_of_mem_head?_trim hhead
    have hlast : ∀ x ∈ (c :: cs).reverse.head?, isBlank x = false := by
      intro x hx
      rw [List.head?_reverse, ← h] at hx
      exact not_blank_of_mem_getLast?_trim hx
    have hreverse : IsGap gap'.reverse := fun x hx => hgap' x (List.mem_reverse.1 hx)
    rw [trim, List.cons_append, dropBlanks_gap_cons hgap hfirst, ← List.cons_append, dropBlanksEnd,
      List.reverse_append, dropBlanks_gap_append hreverse hlast, List.reverse_reverse]

end ComputedTables.Text
