import ComputedTables.Export.Csv
import ComputedTables.Proofs.PublishedShape
import ComputedTables.Proofs.ShownNumbers

/-!
# Computed tables read back

The lines of a computed table are split into the texts that its cells are displayed with.  A
displayed result is neither a formula nor a rule, so a table is written with a separator row if and
only if it was read with one, and a table in which every formula has a result stays as it is when it
is computed again (`computeTable_reads_back`).
-/

namespace ComputedTables

/-- A variable that is in a currency is in one of three letters. -/
def Lookup.CodesCurrencies (lookup : Lookup) : Prop :=
  ∀ document name v, lookup document name = some v →
    ∀ code ∈ v.currency, isCurrencyCode code.toList = true

theorem IsCurrency.isCurrencyCode {code : String} (h : IsCurrency code) :
    isCurrencyCode code.toList = true := by
  refine Bool.and_eq_true_iff.2 ⟨beq_iff_eq.2 h.1, List.all_eq_true.2 fun c hc => ?_⟩
  rw [Char.isAlpha, h.2 c hc, Bool.true_or]

theorem Lookup.CodesCurrencies.of_resultCurrency {lookup : Lookup} (h : lookup.CodesCurrencies)
    {formula code : String} (hcode : code ∈ resultCurrency lookup formula) :
    isCurrencyCode code.toList = true := by
  rcases resultCurrency_cases hcode with hc | ⟨document, name, v, hv, hc⟩
  · exact hc.isCurrencyCode
  · exact h document name v hv code hc

/-! ### The lines of a computed table -/

section Lines

variable (lookup : Lookup) (formatter : Formatter) (lines : List String)

theorem lines_computeTable : (computeTable lookup formatter lines).lines
    = ((computeTable lookup formatter lines).grid.displayTexts lookup formatter).map rowLine :=
  rfl

theorem contents_computeTable :
    (computeTable lookup formatter lines).grid.contents = lines.map lineCells :=
  (Grid.contents_evaluate lookup (Grid.ofLines lines)).trans (contents_ofLines lines)

theorem exists_line_of_mem_computeTable {row : List Cell} {cell : Cell}
    (hr : row ∈ (computeTable lookup formatter lines).grid) (hc : cell ∈ row) :
    ∃ line ∈ lines, cell.content ∈ lineCells line := by
  have hrow : row.map Cell.content ∈ lines.map lineCells :=
    contents_computeTable lookup formatter lines ▸ List.mem_map_of_mem hr
  obtain ⟨line, hline, htexts⟩ := List.mem_map.1 hrow
  exact ⟨line, hline, htexts ▸ List.mem_map_of_mem hc⟩

/-- Lines without formulas are written back with the texts between their bars. -/
theorem lines_computeTable_of_no_formula
    (hlines : ∀ line ∈ lines, ∀ text ∈ lineCells line, isFormulaText text = false) :
    (computeTable lookup formatter lines).lines = (lines.map lineCells).map rowLine := by
  rw [lines_computeTable, ← contents_computeTable lookup formatter lines]
  refine congrArg (List.map rowLine) ?_
  refine List.map_congr_left fun row hr => List.map_congr_left fun cell hc => ?_
  obtain ⟨line, hline, hcell⟩ := exists_line_of_mem_computeTable lookup _ lines hr hc
  have hplain : cell.isFormula = false := hlines line hline cell.content hcell
  rw [Cell.shownText, hplain]

end Lines

section Reading

variable {lookup : Lookup} (h : lookup.CodesCurrencies) (settings : Settings)

include h

/-! ### Displayed cells -/

namespace Cell

/-- A cell is displayed with its own text, or with a number if it is a formula with a value. -/
theorem shownText_cases (cell : Cell) :
    ((cell.isFormula = false ∨ cell.value = none) ∧
      cell.shownText lookup settings.formatter = cell.content) ∨
    (cell.isFormula = true ∧ cell.value ≠ none ∧
      IsShown (cell.shownText lookup settings.formatter).toList) := by
  unfold shownText
  rcases hf : cell.isFormula with _ | _
  · exact .inl ⟨.inl rfl, rfl⟩
  · rcases hv : cell.value with _ | value
    · exact .inl ⟨.inr rfl, rfl⟩
    · exact .inr ⟨rfl, Option.some_ne_none value,
        Formatter.isShown_text settings value fun code hcode => h.of_resultCurrency hcode⟩

theorem isCellText_shownText {cell : Cell} (hcell : IsCellText cell.content) :
    IsCellText (cell.shownText lookup settings.formatter) := by
  rcases cell.shownText_cases h settings with ⟨-, hown⟩ | ⟨-, -, hshown⟩
  · rwa [hown]
  · exact ⟨hshown.bar, hshown.trim_eq⟩

theorem all_isRule_shownText (cell : Cell) :
    (cell.shownText lookup settings.formatter).toList.all Grid.isRule = cell.isRule := by
  rcases cell.shownText_cases h settings with ⟨-, hown⟩ | ⟨hf, -, hshown⟩
  · rw [hown, Cell.isRule]
  · have hrule : cell.isRule = false := by
      rw [← Bool.not_eq_true]
      intro hrule
      rw [isFormula_of_isRule hrule] at hf
      cases hf
    obtain ⟨c, hc, hnot⟩ := hshown.notRule
    rw [hrule, List.all_eq_false]
    exact ⟨c, hc, by simp [hnot]⟩

theorem isFormulaText_shownText {cell : Cell} (hvalue : cell.isFormula = true → cell.value ≠ none) :
    isFormulaText (cell.shownText lookup settings.formatter) = false := by
  rcases cell.shownText_cases h settings with ⟨hplain, hown⟩ | ⟨-, -, hshown⟩
  · rw [hown]
    exact hplain.elim id fun hnone => Bool.eq_false_iff.2 fun hf => hvalue hf hnone
  · obtain ⟨c, hc, -, hmark⟩ := hshown.first
    unfold isFormulaText
    rw [Option.mem_def.1 hc]
    simpa using hmark

end Cell

/-! ### Written tables -/

variable (lines : List String)

/-- The lines are split into the texts that the cells are displayed with. -/
theorem lineCells_computeTable : (computeTable lookup settings.formatter lines).lines.map lineCells
    = ((computeTable lookup settings.formatter lines).grid.displayTexts lookup
        settings.formatter).map readBack := by
  rw [lines_computeTable, List.map_map]
  refine List.map_congr_left fun texts ht => lineCells_rowLine fun text htext => ?_
  obtain ⟨row, hr, rfl⟩ := List.mem_map.1 ht
  obtain ⟨cell, hc, rfl⟩ := List.mem_map.1 htext
  obtain ⟨line, -, hcell⟩ := exists_line_of_mem_computeTable lookup _ lines hr hc
  exact Cell.isCellText_shownText h settings (isCellText_of_mem_lineCells hcell)

/-- A cell is read back with the text that it is displayed with. -/
theorem shownText_cell?_computeTable {p : Place} {cell : Cell}
    (hcell : (computeTable lookup settings.formatter lines).grid.cell? p = some cell) :
    ((Grid.ofLines (computeTable lookup settings.formatter lines).lines).cell? p).map Cell.content
      = some (cell.shownText lookup settings.formatter) := by
  obtain ⟨row, hr, hc⟩ := Grid.cell?_eq_some.1 hcell
  rw [Grid.content_cell?, contents_ofLines, lineCells_computeTable h, List.getElem?_map,
    Grid.displayTexts, List.getElem?_map, hr, Option.map_some, Option.map_some, Option.bind_some,
    readBack, if_neg, List.getElem?_map, hc, Option.map_some]
  rw [List.map_eq_nil_iff]
  exact List.ne_nil_of_mem (List.mem_of_getElem? hc)

theorem content_cell?_computeTable {p : Place} {cell : Cell}
    (hcell : (computeTable lookup settings.formatter lines).grid.cell? p = some cell)
    (hplain : cell.isFormula = false ∨ cell.value = none) :
    ((Grid.ofLines (computeTable lookup settings.formatter lines).lines).cell? p).map Cell.content
      = some cell.content := by
  rw [shownText_cell?_computeTable h settings lines hcell]
  rcases cell.shownText_cases h settings with ⟨-, hown⟩ | ⟨hf, hv, -⟩
  · rw [hown]
  · exact (hplain.elim (fun hnot => by simp [hnot] at hf) hv).elim

theorem hasSeparator_computeTable :
    (Grid.ofLines (computeTable lookup settings.formatter lines).lines).hasSeparator
      = (Grid.ofLines lines).hasSeparator := by
  have hcontents : (computeTable lookup settings.formatter lines).grid.contents
      = (Grid.ofLines lines).contents := Grid.contents_evaluate lookup _
  rw [Grid.hasSeparator_eq_contents, contents_ofLines, lineCells_computeTable h,
    ← Grid.hasSeparator_congr hcontents, Grid.hasSeparator, Grid.displayTexts, List.getElem?_map,
    List.getElem?_map]
  rcases (computeTable lookup settings.formatter lines).grid[1]? with _ | row
  · rfl
  · rw [Option.map_some, Option.map_some, Option.map_some, Option.getD_some, all_readBack rfl,
      List.all_map]
    exact congrArg row.all (funext fun cell => cell.all_isRule_shownText h settings)

/-! ### Computing again -/

theorem isFormulaText_of_mem_computeTable
    (hvalues : ∀ row ∈ (computeTable lookup settings.formatter lines).grid, ∀ cell ∈ row,
      cell.isFormula = true → cell.value ≠ none) :
    ∀ line ∈ (computeTable lookup settings.formatter lines).lines, ∀ text ∈ lineCells line,
      isFormulaText text = false := by
  intro line hline text htext
  have hread := List.mem_map_of_mem (f := lineCells) hline
  rw [lineCells_computeTable h] at hread
  obtain ⟨texts, ht, hline⟩ := List.mem_map.1 hread
  obtain ⟨row, hr, rfl⟩ := List.mem_map.1 ht
  rw [← hline, readBack] at htext
  split at htext
  · rw [List.mem_singleton.1 htext]
    rfl
  · obtain ⟨cell, hc, rfl⟩ := List.mem_map.1 htext
    exact Cell.isFormulaText_shownText h settings (hvalues row hr cell hc)

/-- A table whose formulas all have results stays as it was written when it is computed again. -/
theorem lines_computeTable_twice
    (hvalues : ∀ row ∈ (computeTable lookup settings.formatter lines).grid, ∀ cell ∈ row,
      cell.isFormula = true → cell.value ≠ none) (other : Lookup) (formatter : Formatter) :
    (computeTable other formatter (computeTable lookup settings.formatter lines).lines).lines
      = (computeTable lookup settings.formatter lines).lines := by
  rw [lines_computeTable_of_no_formula _ _ _ (isFormulaText_of_mem_computeTable h settings lines
      hvalues), lineCells_computeTable h, List.map_map]
  exact List.map_congr_left fun texts _ => rowLine_readBack texts

end Reading

/-- A computed table has one line for each of the lines it was read from, and the lines read back
as the displayed texts of its cells. -/
theorem computeTable_reads_back {lookup : Lookup} (h : lookup.CodesCurrencies)
    (settings : Settings) (lines : List String) :
    let table := computeTable lookup settings.formatter lines
    let texts := table.grid.displayTexts lookup settings.formatter
    let separator := (Grid.ofLines lines).hasSeparator
    table.lines.length = lines.length ∧
    table.grid.contents = lines.map lineCells ∧
    table.lines.map lineCells = texts.map readBack ∧
    (∀ p cell, table.grid.cell? p = some cell → (cell.isFormula = false ∨ cell.value = none) →
      ((Grid.ofLines table.lines).cell? p).map Cell.content = some cell.content) ∧
    (Grid.ofLines table.lines).hasSeparator = separator ∧
    Csv.recordsOf table.lines
      = (if separator then (texts.map readBack).eraseIdx 1 else texts.map readBack) ∧
    ((∀ row ∈ table.grid, ∀ cell ∈ row, cell.isFormula = true → cell.value ≠ none) →
      ∀ other formatter, (computeTable other formatter table.lines).lines = table.lines) := by
  intro table texts separator
  have hread : table.lines.map lineCells = texts.map readBack :=
    lineCells_computeTable h settings lines
  have hseparator : (Grid.ofLines table.lines).hasSeparator = separator :=
    hasSeparator_computeTable h settings lines
  have hrecords : Csv.recordsOf table.lines
      = if separator then (texts.map readBack).eraseIdx 1 else texts.map readBack := by
    rw [← hseparator, ← hread]
    rfl
  exact ⟨length_computeTable lookup _ lines, contents_computeTable lookup _ lines, hread,
    fun p cell => content_cell?_computeTable h settings lines, hseparator, hrecords,
    lines_computeTable_twice h settings lines⟩

theorem computeTable_reads_back_in_euros :
    let lookup : Lookup := fun _ _ => some ⟨1500, some "EUR"⟩
    let settings : Settings := { locale := "de-DE" }
    let table := computeTable lookup settings.formatter
      ["| a | =NOTE(\"Z\").z |", "|---|", "|", "| =1/4 | x |"]
    lookup.CodesCurrencies ∧
      table.lines = ["| a | 1.500,00\u00a0€ |", "| --- |", "|  |", "| 0,25 | x |"] ∧
      table.lines.map lineCells = [["a", "1.500,00\u00a0€"], ["---"], [""], ["0,25", "x"]] ∧
      Csv.recordsOf table.lines = [["a", "1.500,00\u00a0€"], [""], ["0,25", "x"]] ∧
      (computeTable .empty settings.formatter table.lines).lines = table.lines := by
  intro lookup settings table
  have hlookup : lookup.CodesCurrencies := by
    rintro document name v hv code hcode
    cases hv
    cases hcode
    decide
  obtain ⟨-, -, hread, -, -, hrecords, htwice⟩ := computeTable_reads_back hlookup settings
    ["| a | =NOTE(\"Z\").z |", "|---|", "|", "| =1/4 | x |"]
  refine ⟨hlookup, by decide +kernel, hread.trans (by decide +kernel),
    hrecords.trans (by decide +kernel), htwice (by decide +kernel) _ _⟩

end ComputedTables
