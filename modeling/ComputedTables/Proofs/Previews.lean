import ComputedTables.Proofs.Spans
import ComputedTables.Proofs.SeparatorRow
import ComputedTables.Table.Preview

/-!
# Previews agree with computed tables

A preview evaluates a table without its separator row and may take the values out of the first row.
When the first row has none to lose (`KeepsFirstRow`), the preview of a table has the lines of the
computed table, except that the separator row stays as it was written (`previewTable_eq`), and that
is what stands in the previewed text in place of the table (`previewLines_of_table`).  Every other
line of the text stays (`previewLines_outside`).
-/

namespace ComputedTables

/-- The lines of a text with all its tables replaced by their previews. -/
def previewLines (lookup : Lookup) (formatter : Formatter) (text : String) : List String :=
  (tables text).foldl
    (fun lines span => replaceLines lines span.start (previewTable lookup formatter span.lines))
    (Text.lines text)

/-- Taking the first row for a header takes no number out of it: it has none outside its formulas,
or it is no header because at least half of its texts start with a number. -/
def KeepsFirstRow (rows : List (List String)) : Prop :=
  ∀ first ∈ rows.head?,
    (∀ cell ∈ first.map Cell.ofText, cell.isFormula = false → Decimal.literal? cell.content = none)
      ∨ first.length ≤ 2 * (first.filter fun text => (Decimal.leading? text).isSome).length

variable (lookup : Lookup) (formatter : Formatter)

/-! ### The grid of a preview -/

theorem withoutValues_eq_self {row : List Cell} (h : ∀ cell ∈ row, cell.value = none) :
    withoutValues row = row := by
  unfold withoutValues
  conv_rhs => rw [← List.map_id row]
  refine List.map_congr_left fun cell hc => ?_
  rcases cell with ⟨content, value⟩
  have : value = none := h _ hc
  subst this
  rfl

theorem Grid.ofPreview_eq_ofTexts {rows : List (List String)} (h : KeepsFirstRow rows) :
    Grid.ofPreview rows = Grid.ofTexts rows := by
  rcases rows with _ | ⟨first, others⟩
  · rfl
  · have hfirst : (if isMostlyText first then withoutValues (first.map Cell.ofText)
        else first.map Cell.ofText) = first.map Cell.ofText := by
      rcases h first rfl with h | h
      · rw [withoutValues_eq_self, ite_self]
        intro cell hc
        obtain ⟨text, -, rfl⟩ := List.mem_map.1 hc
        exact Cell.value_ofText_eq_none (h _ hc)
      · rw [if_neg]
        unfold isMostlyText
        rw [decide_eq_true_eq]
        omega
    show (if isMostlyText first then _ else _) :: Grid.ofTexts others = _
    rw [hfirst]
    rfl

theorem Grid.length_ofPreview (rows : List (List String)) :
    (Grid.ofPreview rows).length = rows.length := by
  rcases rows with _ | ⟨first, others⟩
  · rfl
  · unfold Grid.ofPreview Grid.ofTexts
    simp only [List.length_cons, List.length_map]

theorem length_previewRows (rows : List (List String)) :
    (previewRows lookup formatter rows).length = rows.length := by
  unfold previewRows Grid.displayTexts
  rw [List.length_map, Grid.length_evaluate, Grid.length_ofPreview]

/-! ### One table -/

theorem Grid.hasSeparator_lines {lines : List String}
    (h : (Grid.ofTexts (lines.map lineCells)).hasSeparator = true) :
    ∃ first second others, lines = first :: second :: others ∧
      ∀ cell ∈ (lineCells second).map Cell.ofText, cell.isRule = true := by
  rcases lines with _ | ⟨first, _ | ⟨second, others⟩⟩
  · cases h
  · cases h
  · exact ⟨first, second, others, rfl, fun cell hc => List.all_eq_true.1 h cell hc⟩

theorem length_previewTable (lines : List String) :
    (previewTable lookup formatter lines).length = lines.length := by
  unfold previewTable
  simp only []
  split
  · obtain ⟨first, second, others, rfl, -⟩ := Grid.hasSeparator_lines ‹_›
    simp only [List.map_cons, List.eraseIdx_cons_succ, List.eraseIdx_cons_zero, List.length_append,
      List.length_take, List.length_drop, List.length_map, length_previewRows, List.length_cons]
    omega
  · rw [List.length_map, length_previewRows, List.length_map]

/-- The preview of a table is the computed table with the separator row as it was written. -/
theorem previewTable_eq {lines : List String} (h : KeepsFirstRow (lines.map lineCells)) :
    previewTable lookup formatter lines =
      if (Grid.ofLines lines).hasSeparator then
        (computeTable lookup formatter lines).lines.set 1 (lines[1]?.getD "")
      else (computeTable lookup formatter lines).lines := by
  unfold previewTable computeTable previewRows Grid.ofLines
  simp only []
  split
  · obtain ⟨first, second, others, rfl, hrule⟩ := Grid.hasSeparator_lines ‹_›
    have hsilent := Grid.rulesSilent_ofTexts ((first :: others).map lineCells)
    have hnone : ∀ cell ∈ (lineCells second).map Cell.ofText, cell.value = none := by
      intro cell hc
      obtain ⟨text, -, rfl⟩ := List.mem_map.1 hc
      exact Cell.value_ofText_of_isRule (hrule _ hc)
    have hgrid : Grid.ofTexts ((first :: second :: others).map lineCells)
        = (Grid.ofTexts ((first :: others).map lineCells)).withRow
            ((lineCells second).map Cell.ofText) := rfl
    have hfirst : KeepsFirstRow ((first :: others).map lineCells) := h
    have hpreview : ((first :: second :: others).map lineCells).eraseIdx 1
        = (first :: others).map lineCells := rfl
    rw [hgrid, Grid.evaluate_withRow lookup hsilent hrule hnone, hpreview,
      Grid.ofPreview_eq_ofTexts hfirst]
    have hlen := Grid.length_evaluate lookup (Grid.ofTexts ((first :: others).map lineCells))
    rcases he : (Grid.ofTexts ((first :: others).map lineCells)).evaluate lookup with
      _ | ⟨row, rows⟩
    · rw [he] at hlen
      cases hlen
    · rfl
  · rw [Grid.ofPreview_eq_ofTexts h]

/-! ### All tables of a text -/

theorem previewText_eq (text : String) :
    previewText lookup formatter text = Text.unlines (previewLines lookup formatter text) :=
  rfl

theorem previewLines_table {text : String} {span : Span} (hs : span ∈ tables text) {r : Nat}
    (hr : r < span.lines.length) :
    (previewLines lookup formatter text)[span.start + r]?
      = (previewTable lookup formatter span.lines)[r]? :=
  (getElem?_foldl_replaceLines (fun span => previewTable lookup formatter span.lines) (tables text)
    (Text.lines text) (fun _ hs => (stands_of_mem_tables hs).end_le)
    (fun _ _ => length_previewTable lookup formatter _) (tables_pairwise text)).1 span hs r hr

/-- A preview leaves the lines outside the tables. -/
theorem previewLines_outside {text : String} {i : Nat}
    (hi : ∀ span ∈ tables text, i < span.start ∨ span.start + span.lines.length ≤ i) :
    (previewLines lookup formatter text)[i]? = (Text.lines text)[i]? :=
  (getElem?_foldl_replaceLines (fun span => previewTable lookup formatter span.lines) (tables text)
    (Text.lines text) (fun _ hs => (stands_of_mem_tables hs).end_le)
    (fun _ _ => length_previewTable lookup formatter _) (tables_pairwise text)).2 i hi

/-- Line by line a preview writes what the computed table has, and the separator row as it stood. -/
theorem previewLines_of_table (text : String) {span : Span} (hs : span ∈ tables text)
    (h : KeepsFirstRow (span.lines.map lineCells)) :
    previewText lookup formatter text = Text.unlines (previewLines lookup formatter text) ∧
    ∀ r < span.lines.length, (previewLines lookup formatter text)[span.start + r]? =
      if r = 1 ∧ (Grid.ofLines span.lines).hasSeparator = true then span.lines[1]?
      else (computeTable lookup formatter span.lines).lines[r]? := by
  refine ⟨previewText_eq lookup formatter text, fun r hr => ?_⟩
  have hlen : (computeTable lookup formatter span.lines).lines.length = span.lines.length := by
    unfold computeTable Grid.displayTexts Grid.ofLines Grid.ofTexts
    simp only [List.length_map, Grid.length_evaluate]
  rw [previewLines_table lookup formatter hs hr, previewTable_eq lookup formatter h]
  by_cases hsep : (Grid.ofLines span.lines).hasSeparator = true
  · rw [if_pos hsep]
    by_cases h1 : r = 1
    · subst h1
      rw [if_pos ⟨rfl, hsep⟩, List.getElem?_set_self (by omega), List.getElem?_eq_getElem hr]
      rfl
    · rw [if_neg fun h => h1 h.1, List.getElem?_set_ne fun h => h1 h.symm]
  · rw [if_neg hsep, if_neg fun h => hsep h.2]

theorem previewLines_of_sums :
    let text := "Sums:\n| item | sum |\n|---|---|\n| 1 | 2 |\n| x | =SUM(col) |"
    let span : Span := ⟨1, ["| item | sum |", "|---|---|", "| 1 | 2 |", "| x | =SUM(col) |"]⟩
    span ∈ tables text ∧ KeepsFirstRow (span.lines.map lineCells) ∧
      ∀ r < 4, (previewLines Lookup.empty ({} : Settings).formatter text)[1 + r]? =
        if r = 1 ∧ (Grid.ofLines span.lines).hasSeparator = true then some "|---|---|"
        else (computeTable Lookup.empty ({} : Settings).formatter span.lines).lines[r]? := by
  intro text span
  have hs : span ∈ tables text := by decide
  have hk : KeepsFirstRow (span.lines.map lineCells) := by
    intro first hf
    cases hf
    exact .inl (by decide)
  exact ⟨hs, hk, (previewLines_of_table _ _ text hs hk).2⟩

end ComputedTables
