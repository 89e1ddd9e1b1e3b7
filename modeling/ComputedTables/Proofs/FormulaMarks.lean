import ComputedTables.Proofs.Idempotence
import ComputedTables.Proofs.LineCells
import ComputedTables.Proofs.TableRuns

/-!
# Which tables are taken to have formulas

Whether a table has formulas is decided without cutting its lines into cells, by the character in
front of each equals sign.  Bars separate the cells, so this comes to looking at each cell with its
own bar in front (`marksFormula_line`).  A formula whose mark stands right behind a bar or a space
is always seen, and its table is computed (`computedLines?_of_flush`); one that stands behind
another blank may be missed (`not_mem_formulaTables_behind_tab`).
-/

namespace ComputedTables

open Text

/-! ### Marks -/

theorem marksFormula_eq_false : ∀ {cs : List Char}, '=' ∉ cs → marksFormula cs = false
  | [], _ => rfl
  | [_], _ => rfl
  | a :: b :: cs, h => by
    have hb : b ≠ '=' := fun hb => h (hb ▸ List.mem_cons_of_mem a List.mem_cons_self)
    rw [marksFormula, marksFormula_eq_false fun hm => h (List.mem_cons_of_mem a hm)]
    simp [hb]

theorem marksFormula_cons {b : Char} (hb : b ≠ '=') (a : Char) (cs : List Char) :
    marksFormula (a :: b :: cs) = marksFormula (b :: cs) := by
  rw [marksFormula]
  simp [hb]

/-- A character that is no mark itself separates what stands before it from what it starts. -/
theorem marksFormula_append {b : Char} (hb : b ≠ '=') (ds : List Char) : ∀ cs : List Char,
    marksFormula (cs ++ b :: ds) = (marksFormula cs || marksFormula (b :: ds))
  | [] => rfl
  | [a] => marksFormula_cons hb a ds
  | a :: c :: cs => by
    have ih := marksFormula_append hb ds (c :: cs)
    rw [List.cons_append] at ih
    rw [List.cons_append, List.cons_append, marksFormula, ih, marksFormula, Bool.or_assoc]

theorem marksFormula_intercalate : ∀ (first : List Char) (others : List (List Char)),
    marksFormula (['|'].intercalate (first :: others))
      = (marksFormula first || others.any fun piece => marksFormula ('|' :: piece))
  | first, [] => by simp [List.intercalate]
  | first, next :: others => by
    have ih := marksFormula_intercalate ('|' :: next) others
    have hbar : '|' :: ['|'].intercalate (next :: others)
        = ['|'].intercalate (('|' :: next) :: others) := by
      rcases others with _ | ⟨piece, others⟩
      · simp [List.intercalate]
      · rw [List.intercalate_cons_cons, List.intercalate_cons_cons]
        simp
    rw [List.intercalate_cons_cons, List.append_assoc, List.singleton_append,
      marksFormula_append (by decide), hbar, ih, List.any_cons]

/-! ### Cells -/

namespace Text

/-- The blanks in front of a text. -/
def margin (cs : List Char) : List Char :=
  cs.takeWhile isBlank

theorem isGap_margin (cs : List Char) : IsGap (margin cs) :=
  List.all_eq_true.1 List.all_takeWhile

theorem exists_gap_behind_trim (cs : List Char) :
    ∃ gap, IsGap gap ∧ cs = margin cs ++ (trim cs ++ gap) := by
  obtain ⟨gap, hgap, htrim⟩ := exists_append_gap (dropBlanks cs)
  refine ⟨gap, hgap, ?_⟩
  rw [trim, htrim]
  exact List.takeWhile_append_dropWhile.symm

theorem IsGap.mark_not_mem {gap : List Char} (h : IsGap gap) : '=' ∉ gap :=
  fun hm => absurd (h _ hm) (by decide)

theorem IsGap.bar_not_mem {gap : List Char} (h : IsGap gap) : '|' ∉ gap :=
  fun hm => absurd (h _ hm) (by decide)

end Text

theorem marksFormula_append_gap {gap : List Char} (h : IsGap gap) (cs : List Char) :
    marksFormula (cs ++ gap) = marksFormula cs := by
  rcases gap with _ | ⟨b, gap⟩
  · rw [List.append_nil]
  · have hb : b ≠ '=' := fun hb => h.mark_not_mem (hb ▸ List.mem_cons_self)
    rw [marksFormula_append hb, marksFormula_eq_false h.mark_not_mem, Bool.or_false]

theorem marksFormula_bar_gap {gap : List Char} (h : IsGap gap) :
    marksFormula ('|' :: gap) = false :=
  marksFormula_eq_false (by simpa using h.mark_not_mem)

/-- Whether a mark stands right behind the bar or a space in the text between two bars. -/
def cellMarksFormula (raw : String) : Bool :=
  marksFormula ('|' :: raw.toList)

/-- Whether the text between two bars begins right behind the bar or right behind a space. -/
def isFlush (raw : String) : Bool :=
  (margin raw.toList).getLast?.all (· == ' ')

theorem marksFormula_margin {gap : List Char} (h : IsGap gap) (cs : List Char) :
    marksFormula ('|' :: (gap ++ '=' :: cs))
      = (gap.getLast?.all (· == ' ') || marksFormula ('=' :: cs)) := by
  rcases gap.eq_nil_or_concat with rfl | ⟨front, a, rfl⟩
  · rfl
  · have ha : isBlank a = true := h a (by simp)
    have hmark : a ≠ '=' := by rintro rfl; exact absurd ha (by decide)
    have hbar : a ≠ '|' := by rintro rfl; exact absurd ha (by decide)
    have hfront : IsGap front := fun c hc => h c (by simp [hc])
    rw [List.concat_eq_append, List.append_assoc, List.singleton_append, ← List.cons_append,
      marksFormula_append hmark, marksFormula_bar_gap hfront, List.getLast?_concat, marksFormula,
      Option.all_some, beq_false_of_ne hbar, Bool.or_false, beq_self_eq_true, Bool.true_and,
      Bool.false_or]

/-- The mark of a formula counts if it stands flush; any other mark counts within the text of its
cell. -/
theorem cellMarksFormula_eq (raw : String) : cellMarksFormula raw
    = ((Cell.ofText raw).isFormula && isFlush raw || marksFormula (trim raw.toList)) := by
  have hformula : (Cell.ofText raw).isFormula = ((trim raw.toList).head? == some '=') := by
    show ((String.ofList (trim raw.toList)).toList.head? == some '=') = _
    rw [String.toList_ofList]
  obtain ⟨gap, hgap, hraw⟩ := exists_gap_behind_trim raw.toList
  have hmargin := isGap_margin raw.toList
  have hfront := marksFormula_bar_gap hmargin
  rw [hformula, isFlush, cellMarksFormula]
  conv_lhs => rw [hraw]
  rcases trim raw.toList with _ | ⟨b, cs⟩
  · rw [List.nil_append, ← List.cons_append, marksFormula_append_gap hgap, hfront]
    rfl
  · by_cases hb : b = '='
    · subst hb
      rw [List.cons_append, marksFormula_margin hmargin, ← List.cons_append,
        marksFormula_append_gap hgap]
      rfl
    · have hnot : ((b :: cs).head? == some '=') = false := by simpa using hb
      rw [List.cons_append, ← List.cons_append, marksFormula_append hb, hfront, ← List.cons_append,
        marksFormula_append_gap hgap, hnot, Bool.false_and]

/-! ### Lines -/

/-- The texts between the bars of a table line as they stand there, with the blanks around them. -/
def rawCells (line : String) : List String :=
  ((pieces '|' line).drop 1).dropLast

/-- The text between the bars at a place of table lines. -/
def rawText? (lines : List String) (p : Place) : Option String :=
  lines[p.row]?.bind fun line => (rawCells line)[p.column]?

theorem cell?_ofLines (lines : List String) (p : Place) :
    (Grid.ofLines lines).cell? p = (rawText? lines p).map Cell.ofText := by
  have hcell : Cell.ofText ∘ trimmed = Cell.ofText := by
    funext raw
    have htrimmed : trimmed (trimmed raw) = trimmed raw := by
      rw [trimmed, trimmed, String.toList_ofList, trim_trim]
    simp only [Function.comp_apply, Cell.ofText, htrimmed]
  unfold Grid.cell? Grid.ofLines Grid.ofTexts rawText?
  rw [List.getElem?_map, List.getElem?_map]
  rcases lines[p.row]? with _ | line
  · rfl
  · show (((rawCells line).map trimmed).map Cell.ofText)[p.column]? = (rawCells line)[p.column]?.map _
    rw [List.map_map, hcell, List.getElem?_map]

/-- A table line begins with a bar and ends with one, except for blanks. -/
theorem exists_gaps_of_isBarred {line : String} (h : isBarred line = true) :
    (∃ gap rest, IsGap gap ∧ line.toList = gap ++ '|' :: rest) ∧
      ∃ gap front, IsGap gap ∧ line.toList = front ++ '|' :: gap := by
  obtain ⟨hfirst, hlast⟩ := Bool.and_eq_true_iff.1 h
  obtain ⟨gap, hgap, hline⟩ := exists_gap_behind_trim line.toList
  obtain ⟨rest, hrest⟩ := List.head?_eq_some_iff.1 (beq_iff_eq.1 hfirst)
  obtain ⟨front, hfront⟩ := List.getLast?_eq_some_iff.1 (beq_iff_eq.1 hlast)
  refine ⟨⟨margin line.toList, rest ++ gap, isGap_margin _, ?_⟩,
    gap, margin line.toList ++ front, hgap, ?_⟩
  · rw [← List.cons_append, ← hrest]
    exact hline
  · rw [List.append_assoc, ← List.singleton_append, ← List.append_assoc front, ← hfront]
    exact hline

/-- The marks of a table line are those of its cells. -/
theorem marksFormula_line {line : String} (h : isBarred line = true) :
    marksFormula line.toList = (rawCells line).any cellMarksFormula := by
  obtain ⟨⟨gap, rest, hgap, hfirst⟩, gap', front, hgap', hlast⟩ := exists_gaps_of_isBarred h
  have hsplit : line.toList.splitOn '|' = gap :: rest.splitOn '|' := by
    rw [hfirst, List.splitOn_append_cons_self_of_not_mem hgap.bar_not_mem]
  have hend : gap' ∈ (rest.splitOn '|').getLast? := by
    rw [Option.mem_def, ← List.getLast?_cons_of_ne_nil (List.splitOn_ne_nil '|' rest), ← hsplit,
      hlast, List.splitOn_append_cons_self, List.splitOn_eq_singleton hgap'.bar_not_mem,
      List.getLast?_concat]
  have hraw : rawCells line = (rest.splitOn '|').dropLast.map String.ofList := by
    rw [rawCells, pieces, hsplit, List.map_cons, List.drop_one, List.tail_cons, List.map_dropLast]
  have hjoin : ['|'].intercalate (line.toList.splitOn '|') = line.toList :=
    List.intercalate_splitOn '|'
  conv_lhs => rw [← hjoin, hsplit, marksFormula_intercalate,
    ← List.dropLast_append_getLast? gap' hend, List.any_append]
  rw [marksFormula_eq_false hgap.mark_not_mem, Bool.false_or, List.any_cons, List.any_nil,
    marksFormula_bar_gap hgap', Bool.or_false, Bool.or_false, hraw, List.any_map]
  refine congrArg (List.any _) (funext fun piece => ?_)
  rw [Function.comp_apply, cellMarksFormula, String.toList_ofList]

/-! ### Tables -/

theorem rawText?_eq_some {lines : List String} {p : Place} {raw : String} :
    rawText? lines p = some raw ↔
      ∃ line, lines[p.row]? = some line ∧ (rawCells line)[p.column]? = some raw :=
  Option.bind_eq_some_iff

/-- A table is taken to have formulas if and only if one of its cells is a formula whose mark stands
right behind a bar or a space, or has a mark behind a space within its text. -/
theorem mem_formulaTables_iff {text : String} {span : Span} (hs : span ∈ tables text) :
    span ∈ formulaTables text ↔ ∃ p raw, rawText? span.lines p = some raw ∧
      ((Cell.ofText raw).isFormula = true ∧ isFlush raw = true ∨
        marksFormula (trim raw.toList) = true) := by
  obtain ⟨before, after, hmaximal⟩ := maximal_of_mem_tables hs
  have hcell : ∀ raw, cellMarksFormula raw = true ↔
      ((Cell.ofText raw).isFormula = true ∧ isFlush raw = true ∨
        marksFormula (trim raw.toList) = true) := by
    intro raw
    rw [cellMarksFormula_eq, Bool.or_eq_true, Bool.and_eq_true]
  unfold formulaTables anyMarksFormula
  rw [List.mem_filter, and_iff_right hs, List.any_eq_true]
  constructor
  · rintro ⟨line, hl, hmarks⟩
    rw [marksFormula_line (hmaximal.barred line hl)] at hmarks
    obtain ⟨raw, hraw, hmark⟩ := List.any_eq_true.1 hmarks
    obtain ⟨r, hr⟩ := List.mem_iff_getElem?.1 hl
    obtain ⟨c, hc⟩ := List.mem_iff_getElem?.1 hraw
    exact ⟨⟨r, c⟩, raw, rawText?_eq_some.2 ⟨line, hr, hc⟩, (hcell raw).1 hmark⟩
  · rintro ⟨p, raw, hraw, hmark⟩
    obtain ⟨line, hr, hc⟩ := rawText?_eq_some.1 hraw
    have hl := List.mem_of_getElem? hr
    refine ⟨line, hl, ?_⟩
    rw [marksFormula_line (hmaximal.barred line hl), List.any_eq_true]
    exact ⟨raw, List.mem_of_getElem? hc, (hcell raw).2 hmark⟩

/-- A table with a formula that stands right behind a bar or a space is taken to have formulas, and
a pass with the table in its scope leaves it computed. -/
theorem computedLines?_of_flush {text : String} {span : Span} (hs : span ∈ tables text) {p : Place}
    {cell : Cell} (hcell : (Grid.ofLines span.lines).cell? p = some cell)
    (hformula : cell.isFormula = true) {raw : String} (hraw : rawText? span.lines p = some raw)
    (hflush : isFlush raw = true) :
    anyMarksFormula span.lines = true ∧
    ∀ (engine : Engine) (document : String) (cursor : Option Nat) (quiet : Bool),
      engine.skips document text quiet = false →
      inScope (Engine.scopeOf text cursor quiet) span = true →
      (engine.recalculate document text cursor quiet).2.computedLines? document span.start
        = some (((engine.memoryOf document).current? engine.digest span).getD
            (span.computed engine.digest engine.index.lookup engine.formatter)).lines := by
  rw [cell?_ofLines, hraw, Option.map_some, Option.some.injEq] at hcell
  have hmem : span ∈ formulaTables text :=
    (mem_formulaTables_iff hs).2 ⟨p, raw, hraw, .inl ⟨hcell ▸ hformula, hflush⟩⟩
  exact ⟨(List.mem_filter.1 hmem).2, fun engine document cursor quiet hskips =>
    Engine.computedLines?_recalculate hskips hmem⟩

theorem computedLines?_of_flush_wide_margin :
    let text := "|  1 |\n| a |\u00a0 =1+1|"
    let span : Span := ⟨0, ["|  1 |", "| a |\u00a0 =1+1|"]⟩
    span ∈ tables text ∧ anyMarksFormula span.lines = true ∧
      (({} : Engine).recalculate "d" text none true).2.computedLines? "d" 0
        = some ["| 1 |", "| a | 2 |"] := by
  intro text span
  have hs : span ∈ tables text := by decide +kernel
  have hcell : (Grid.ofLines span.lines).cell? ⟨1, 1⟩ = some ⟨"=1+1", none⟩ := by decide +kernel
  have hraw : rawText? span.lines ⟨1, 1⟩ = some "\u00a0 =1+1" := by decide +kernel
  obtain ⟨hmarks, hcomputed⟩ := computedLines?_of_flush hs hcell (by decide) hraw
    (by decide +kernel)
  refine ⟨hs, hmarks, (hcomputed {} "d" none true (by decide +kernel) (by decide +kernel)).trans ?_⟩
  decide +kernel

/-- A formula behind a tab is not seen: its table is taken to have no formulas, and is not
computed. -/
theorem not_mem_formulaTables_behind_tab :
    let text := "|\t=1+1|\n| 2 |"
    ∃ span ∈ tables text,
      (∃ p cell, (Grid.ofLines span.lines).cell? p = some cell ∧ cell.isFormula = true) ∧
      anyMarksFormula span.lines = false ∧
      (({} : Engine).recalculate "d" text none false).2.computedLines? "d" span.start = none := by
  intro text
  refine ⟨⟨0, ["|\t=1+1|", "| 2 |"]⟩, by decide +kernel, ⟨⟨0, 0⟩, ⟨"=1+1", none⟩, ?_⟩, ?_⟩
  · decide +kernel
  · decide +kernel

end ComputedTables
