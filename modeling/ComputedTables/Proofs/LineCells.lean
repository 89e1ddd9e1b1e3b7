import Mathlib.Data.List.Basic
import ComputedTables.Proofs.Evaluation
import ComputedTables.Proofs.Spans

/-!
# Cells of a written line

A cell holds any text without bars and without blanks at its ends (`IsCellText`).  A line written
from such texts is split into the same texts again (`lineCells_rowLine`).  Only a line without any
cannot be told from one with a single empty cell: it is read back with that cell (`readBack`).
-/

namespace ComputedTables

open Text

/-- A text that a cell can hold as it is. -/
structure IsCellText (text : String) : Prop where
  bar : '|' ∉ text.toList
  trimmed : trim text.toList = text.toList

theorem exists_piece_of_mem_lineCells {line text : String} (h : text ∈ lineCells line) :
    ∃ piece ∈ line.toList.splitOn '|', text.toList = trim piece := by
  unfold lineCells pieces at h
  obtain ⟨_, hpiece, rfl⟩ := List.mem_map.1 h
  have hdropped := (List.dropLast_sublist _).subset hpiece
  obtain ⟨cs, hcs, rfl⟩ := List.mem_map.1 (List.mem_of_mem_drop hdropped)
  exact ⟨cs, hcs, by simp [trimmed]⟩

theorem isCellText_of_mem_lineCells {line text : String} (h : text ∈ lineCells line) :
    IsCellText text := by
  obtain ⟨piece, hpiece, ht⟩ := exists_piece_of_mem_lineCells h
  constructor
  · rw [ht]
    exact fun hbar => not_mem_of_mem_splitOn '|' line.toList hpiece (mem_of_mem_trim hbar)
  · rw [ht, trim_trim]

theorem mem_of_mem_lineCells {line text : String} (h : text ∈ lineCells line) {c : Char}
    (hc : c ∈ text.toList) : c ∈ line.toList := by
  obtain ⟨piece, hpiece, ht⟩ := exists_piece_of_mem_lineCells h
  rw [ht] at hc
  rw [← @List.intercalate_splitOn _ line.toList _ _ '|']
  exact mem_intercalate_of_mem hpiece (mem_of_mem_trim hc)

theorem IsCellText.trimmed_eq {text : String} (h : IsCellText text) : Text.trimmed text = text := by
  rw [Text.trimmed, h.trimmed, String.ofList_toList]

theorem IsCellText.content_ofText {text : String} (h : IsCellText text) :
    (Cell.ofText text).content = text :=
  h.trimmed_eq

theorem contents_ofLines (lines : List String) :
    (Grid.ofLines lines).contents = lines.map lineCells := by
  unfold Grid.contents Grid.ofLines Grid.ofTexts
  rw [List.map_map, List.map_map]
  refine List.map_congr_left fun line _ => ?_
  rw [Function.comp_apply, Function.comp_apply, List.map_map]
  conv_rhs => rw [← List.map_id (lineCells line)]
  exact List.map_congr_left fun text ht => (isCellText_of_mem_lineCells ht).content_ofText

/-! ### Writing and reading -/

/-- The texts that a line with the given texts is read back with. -/
def readBack (texts : List String) : List String :=
  if texts = [] then [""] else texts

theorem rowLine_readBack (texts : List String) : rowLine (readBack texts) = rowLine texts := by
  unfold readBack
  split
  · rename_i h
    subst h
    rfl
  · rfl

theorem all_readBack {p : String → Bool} (h : p "" = true) (texts : List String) :
    (readBack texts).all p = texts.all p := by
  unfold readBack
  split
  · rename_i hnil
    rw [hnil, List.all_cons, List.all_nil, h]
    rfl
  · rfl

/-- What stands between two bars of a written line. -/
def padded (cs : List Char) : List Char :=
  ' ' :: (cs ++ [' '])

theorem trim_padded {text : String} (h : IsCellText text) : trim (padded text.toList) = text.toList :=
  have hspace : IsGap [' '] := by simp [IsGap, isBlank]
  trim_between_gaps hspace hspace h.trimmed

theorem intercalate_padded : ∀ (cs : List Char) (rest : List (List Char)),
    ['|'].intercalate ((cs :: rest).map padded ++ [[]])
      = ' ' :: ([' ', '|', ' '].intercalate (cs :: rest) ++ [' ', '|'])
  | cs, [] => by simp [padded, List.intercalate]
  | cs, ds :: rest => by
    have ih := intercalate_padded ds rest
    rw [List.map_cons, List.cons_append] at ih ⊢
    rw [List.map_cons, List.cons_append, List.intercalate_cons_cons, ih,
      List.intercalate_cons_cons]
    simp [padded]

theorem toList_rowLine {texts : List String} (h : texts ≠ []) : (rowLine texts).toList
    = ['|'].intercalate ([] :: (texts.map fun text => padded text.toList) ++ [[]]) := by
  obtain ⟨text, rest, rfl⟩ := List.exists_cons_of_ne_nil h
  have hrest := intercalate_padded text.toList (rest.map String.toList)
  rw [List.map_cons, List.map_map] at hrest
  have hpieces : (text :: rest).map (fun text => padded text.toList) ++ [[]]
      = padded text.toList :: (rest.map (padded ∘ String.toList) ++ [[]]) := rfl
  rw [List.cons_append, hpieces, List.intercalate_cons_cons, ← List.cons_append, hrest]
  simp [rowLine, joined]

theorem newline_not_mem_rowLine {texts : List String} (h : ∀ text ∈ texts, '\n' ∉ text.toList) :
    '\n' ∉ (rowLine texts).toList := by
  have hjoined : '\n' ∉ [' ', '|', ' '].intercalate (texts.map String.toList) := by
    intro hn
    rcases mem_intercalate hn with hn | ⟨cs, hcs, hn⟩
    · exact absurd hn (by decide)
    · obtain ⟨text, ht, rfl⟩ := List.mem_map.1 hcs
      exact h text ht hn
  simpa [rowLine, joined] using hjoined

/-- A written line is split into the texts it was written from. -/
theorem lineCells_rowLine {texts : List String} (h : ∀ text ∈ texts, IsCellText text) :
    lineCells (rowLine texts) = readBack texts := by
  unfold readBack
  split
  · rename_i hnil
    subst hnil
    decide
  · rename_i hne
    have hbar : ∀ cs ∈ [] :: (texts.map fun text => padded text.toList) ++ [[]], '|' ∉ cs := by
      intro cs hcs
      simp only [List.cons_append, List.mem_cons, List.mem_append, List.mem_map, List.not_mem_nil,
        or_false] at hcs
      rcases hcs with rfl | ⟨text, ht, rfl⟩ | rfl
      · exact List.not_mem_nil
      · simp [padded, (h text ht).bar]
      · exact List.not_mem_nil
    unfold lineCells pieces
    rw [toList_rowLine hne, List.splitOn_intercalate _ hbar (List.cons_ne_nil _ _), List.cons_append,
      List.map_cons, List.drop_one, List.tail_cons, List.map_append, List.map_singleton,
      List.dropLast_concat, List.map_map, List.map_map]
    conv_rhs => rw [← List.map_id texts]
    refine List.map_congr_left fun text ht => ?_
    show Text.trimmed (String.ofList (padded text.toList)) = text
    rw [Text.trimmed, String.toList_ofList, trim_padded (h text ht), String.ofList_toList]

end ComputedTables
