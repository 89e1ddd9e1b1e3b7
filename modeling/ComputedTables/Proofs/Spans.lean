import Mathlib.Data.List.Basic
import ComputedTables.Engine.Memory

/-!
# Where the tables of a text stand

A table is a piece of the lines of its text (`stands_of_mem_tables`), and the tables of a text
follow each other with at least one line between them (`tables_pairwise`).  So replacing each table
by as many lines as it has changes its own lines and no others (`getElem?_foldl_replaceLines`).  No
line of a table holds a line feed, hence the lines can be told from the text that a digest is taken
of (`lines_eq_of_unlines_eq`).
-/

namespace ComputedTables

/-! ### Lines -/

namespace Text

/-- A digest that mixes in one character after the other.  No theorem is about this one, but it is
one that examples can be worked out with. -/
def rolling : Digest :=
  fun text => text.toList.foldl (fun digest c => 31 * digest + c.val.toUInt64) 7

theorem not_mem_of_mem_splitOn (a : Char) : ∀ (cs : List Char) {piece : List Char},
    piece ∈ cs.splitOn a → a ∉ piece
  | [], piece, h => by
    rw [List.splitOn_nil, List.mem_singleton] at h
    subst h
    exact List.not_mem_nil
  | c :: cs, piece, h => by
    rw [List.splitOn_cons_eq_if_modifyHead] at h
    split at h
    · rcases List.mem_cons.1 h with rfl | h
      · exact List.not_mem_nil
      · exact not_mem_of_mem_splitOn a cs h
    · rename_i hc
      rcases hs : cs.splitOn a with _ | ⟨first, others⟩
      · exact absurd hs (List.splitOn_ne_nil a cs)
      · rw [hs, List.modifyHead_cons] at h
        rcases List.mem_cons.1 h with rfl | h
        · have hfirst := not_mem_of_mem_splitOn a cs (hs ▸ List.mem_cons_self : first ∈ _)
          intro hm
          rcases List.mem_cons.1 hm with rfl | hm
          · exact hc (beq_self_eq_true a)
          · exact hfirst hm
        · exact not_mem_of_mem_splitOn a cs (hs ▸ List.mem_cons_of_mem _ h)

theorem mem_intercalate {sep : List Char} {c : Char} : ∀ {parts : List (List Char)},
    c ∈ sep.intercalate parts → c ∈ sep ∨ ∃ part ∈ parts, c ∈ part
  | [], h => by simp at h
  | [part], h => .inr ⟨part, List.mem_singleton_self part, by simpa using h⟩
  | part :: next :: parts, h => by
    rw [List.intercalate_cons_cons, List.append_assoc, List.mem_append, List.mem_append] at h
    rcases h with h | h | h
    · exact .inr ⟨part, List.mem_cons_self, h⟩
    · exact .inl h
    · exact (mem_intercalate h).imp_right fun ⟨p, hp, hc⟩ => ⟨p, List.mem_cons_of_mem _ hp, hc⟩

theorem mem_intercalate_of_mem {sep : List Char} {c : Char} : ∀ {parts : List (List Char)}
    {part : List Char}, part ∈ parts → c ∈ part → c ∈ sep.intercalate parts
  | [_], _, h, hc => by simpa [List.mem_singleton.1 h] using hc
  | first :: next :: parts, part, h, hc => by
    rw [List.intercalate_cons_cons, List.append_assoc, List.mem_append, List.mem_append]
    rcases List.mem_cons.1 h with rfl | h
    · exact .inl hc
    · exact .inr (.inr (mem_intercalate_of_mem h hc))

theorem lines_ne_nil (text : String) : lines text ≠ [] :=
  mt List.map_eq_nil_iff.1 (List.splitOn_ne_nil '\n' text.toList)

theorem newline_not_mem {text line : String} (h : line ∈ lines text) : '\n' ∉ line.toList := by
  obtain ⟨piece, hp, rfl⟩ := List.mem_map.1 h
  rw [String.toList_ofList]
  exact not_mem_of_mem_splitOn '\n' _ hp

theorem lines_unlines {ls : List String} (hne : ls ≠ []) (h : ∀ l ∈ ls, '\n' ∉ l.toList) :
    lines (unlines ls) = ls := by
  unfold lines pieces unlines joined
  have hsep : "\n".toList = ['\n'] := rfl
  rw [String.toList_ofList, hsep, List.splitOn_intercalate, List.map_map]
  · have : String.ofList ∘ String.toList = id := by
      funext s
      exact String.ofList_toList
    rw [this, List.map_id]
  · intro cs hcs
    obtain ⟨l, hl, rfl⟩ := List.mem_map.1 hcs
    exact h l hl
  · simpa using hne

end Text

/-! ### Spans -/

/-- A table stands where its span says: its lines are those of the text from its start on. -/
structure Span.StandsIn (s : Span) (lines : List String) : Prop where
  two_le : 2 ≤ s.lines.length
  line : ∀ r < s.lines.length, lines[s.start + r]? = s.lines[r]?

theorem mem_closeRun {next : Nat} {run : List String} {s : Span} (h : s ∈ closeRun next run) :
    s = ⟨next - run.length, run⟩ ∧ 2 ≤ run.length := by
  unfold closeRun at h
  split at h
  · exact ⟨List.mem_singleton.1 h, ‹_›⟩
  · cases h

theorem stands_of_mem_tablesFrom : ∀ (lines : List String) (next : Nat) (run before : List String),
    before.length + run.length = next → ∀ {s : Span}, s ∈ tablesFrom next run lines →
      s.StandsIn (before ++ run ++ lines)
  | [], next, run, before, hn, s, hs => by
    obtain ⟨rfl, h2⟩ := mem_closeRun hs
    have hstart : next - run.length = before.length := by omega
    refine ⟨h2, fun r hr => ?_⟩
    simp only [hstart] at hr ⊢
    rw [List.append_nil, List.getElem?_append_right (by omega), Nat.add_sub_cancel_left]
  | line :: lines, next, run, before, hn, s, hs => by
    unfold tablesFrom at hs
    split at hs
    · have := stands_of_mem_tablesFrom lines (next + 1) (run ++ [line]) before
        (by simp only [List.length_append, List.length_singleton]; omega) hs
      simpa using this
    · rcases List.mem_append.1 hs with hs | hs
      · obtain ⟨rfl, h2⟩ := mem_closeRun hs
        have hstart : next - run.length = before.length := by omega
        refine ⟨h2, fun r hr => ?_⟩
        simp only [hstart] at hr ⊢
        rw [List.append_assoc, List.getElem?_append_right (by omega), Nat.add_sub_cancel_left,
          List.getElem?_append_left hr]
      · have := stands_of_mem_tablesFrom lines (next + 1) [] (before ++ run ++ [line])
          (by simp only [List.length_append, List.length_singleton, List.length_nil]; omega) hs
        simpa using this

theorem stands_of_mem_tables {text : String} {s : Span} (h : s ∈ tables text) :
    s.StandsIn (Text.lines text) :=
  stands_of_mem_tablesFrom (Text.lines text) 0 [] [] rfl h

theorem start_of_mem_tablesFrom : ∀ (lines : List String) (next : Nat) (run : List String)
    {s : Span}, s ∈ tablesFrom next run lines → next - run.length ≤ s.start
  | [], next, run, s, hs => by
    obtain ⟨rfl, -⟩ := mem_closeRun hs
    exact Nat.le_refl _
  | line :: lines, next, run, s, hs => by
    unfold tablesFrom at hs
    split at hs
    · have := start_of_mem_tablesFrom lines (next + 1) (run ++ [line]) hs
      simp only [List.length_append, List.length_singleton] at this
      omega
    · rcases List.mem_append.1 hs with hs | hs
      · obtain ⟨rfl, -⟩ := mem_closeRun hs
        exact Nat.le_refl _
      · have := start_of_mem_tablesFrom lines (next + 1) [] hs
        simp only [List.length_nil] at this
        omega

theorem tablesFrom_pairwise : ∀ (lines : List String) (next : Nat) (run : List String),
    run.length ≤ next →
      (tablesFrom next run lines).Pairwise fun a b => a.start + a.lines.length < b.start
  | [], next, run, _ => by
    unfold tablesFrom closeRun
    split
    · exact List.pairwise_singleton _ _
    · exact List.Pairwise.nil
  | line :: lines, next, run, hr => by
    unfold tablesFrom
    split
    · exact tablesFrom_pairwise lines (next + 1) (run ++ [line])
        (by simp only [List.length_append, List.length_singleton]; omega)
    · refine List.pairwise_append.2 ⟨?_, tablesFrom_pairwise lines (next + 1) [] (by simp), ?_⟩
      · unfold closeRun
        split
        · exact List.pairwise_singleton _ _
        · exact List.Pairwise.nil
      · intro a ha b hb
        obtain ⟨rfl, -⟩ := mem_closeRun ha
        have := start_of_mem_tablesFrom lines (next + 1) [] hb
        simp only [List.length_nil] at this
        show next - run.length + run.length < b.start
        omega

theorem tables_pairwise (text : String) :
    (tables text).Pairwise fun a b => a.start + a.lines.length < b.start :=
  tablesFrom_pairwise _ 0 [] (Nat.le_refl 0)

theorem tables_starts_nodup (text : String) : ((tables text).map Span.start).Nodup := by
  unfold List.Nodup
  rw [List.pairwise_map]
  exact (tables_pairwise text).imp fun h => by omega

theorem formulaTables_pairwise (text : String) :
    (formulaTables text).Pairwise fun a b => a.start + a.lines.length < b.start :=
  (tables_pairwise text).filter _

theorem formulaTables_starts_nodup (text : String) :
    ((formulaTables text).map Span.start).Nodup :=
  (tables_starts_nodup text).sublist (List.filter_sublist.map _)

theorem Span.StandsIn.mem_lines {s : Span} {lines : List String} (h : s.StandsIn lines)
    {line : String} (hl : line ∈ s.lines) : line ∈ lines := by
  obtain ⟨r, hr, rfl⟩ := List.mem_iff_getElem.1 hl
  have := h.line r hr
  rw [List.getElem?_eq_getElem hr] at this
  exact List.mem_of_getElem? this

/-- Tables are equal line by line when the texts of their lines are equal. -/
theorem lines_eq_of_unlines_eq {text text' : String} {s s' : Span} (hs : s ∈ tables text)
    (hs' : s' ∈ tables text') (h : Text.unlines s.lines = Text.unlines s'.lines) :
    s.lines = s'.lines := by
  have key : ∀ {text : String} {s : Span}, s ∈ tables text →
      Text.lines (Text.unlines s.lines) = s.lines := by
    intro text s hs
    have hst := stands_of_mem_tables hs
    refine Text.lines_unlines ?_ fun l hl => Text.newline_not_mem (hst.mem_lines hl)
    intro hnil
    have := hst.two_le
    rw [hnil] at this
    cases this
  rw [← key hs, ← key hs', h]

/-! ### Replacing tables -/

theorem getElem?_replaceLines {lines replacement : List String} {start : Nat}
    (h : start + replacement.length ≤ lines.length) (i : Nat) :
    (replaceLines lines start replacement)[i]? =
      if start ≤ i ∧ i < start + replacement.length then replacement[i - start]?
      else lines[i]? := by
  unfold replaceLines
  have htake : (lines.take start).length = start := by
    rw [List.length_take]
    omega
  rw [List.append_assoc]
  by_cases h1 : i < start
  · rw [List.getElem?_append_left (by omega), List.getElem?_take_of_lt h1, if_neg (by omega)]
  · rw [List.getElem?_append_right (by omega), htake]
    by_cases h2 : i < start + replacement.length
    · rw [List.getElem?_append_left (by omega), if_pos ⟨by omega, h2⟩]
    · rw [List.getElem?_append_right (by omega), if_neg (by omega), List.getElem?_drop]
      congr 1
      omega

theorem length_replaceLines {lines replacement : List String} {start : Nat}
    (h : start + replacement.length ≤ lines.length) :
    (replaceLines lines start replacement).length = lines.length := by
  unfold replaceLines
  simp only [List.length_append, List.length_take, List.length_drop]
  omega

theorem Span.StandsIn.end_le {s : Span} {lines : List String} (h : s.StandsIn lines) :
    s.start + s.lines.length ≤ lines.length := by
  have h2 := h.two_le
  have hl := h.line (s.lines.length - 1) (by omega)
  rw [List.getElem?_eq_getElem (l := s.lines) (by omega)] at hl
  have := (List.getElem?_eq_some_iff.1 hl).1
  omega

theorem length_foldl_replaceLines (f : Span → List String) :
    ∀ (spans : List Span) (lines : List String),
      (∀ s ∈ spans, s.start + s.lines.length ≤ lines.length) →
      (∀ s ∈ spans, (f s).length = s.lines.length) →
      (spans.foldl (fun ls s => replaceLines ls s.start (f s)) lines).length = lines.length
  | [], _, _, _ => rfl
  | t :: spans, lines, hend, hlen => by
    have hte : (replaceLines lines t.start (f t)).length = lines.length := length_replaceLines <| by
      rw [hlen t List.mem_cons_self]
      exact hend t List.mem_cons_self
    rw [List.foldl_cons, length_foldl_replaceLines f spans _ (fun s hs => ?_)
      fun s hs => hlen s (List.mem_cons_of_mem _ hs), hte]
    rw [hte]
    exact hend s (List.mem_cons_of_mem _ hs)

/-- Replacing every table by as many lines leaves the lines outside the tables, and gives each table
the lines that are made of it. -/
theorem getElem?_foldl_replaceLines (f : Span → List String) :
    ∀ (spans : List Span) (lines : List String),
      (∀ s ∈ spans, s.start + s.lines.length ≤ lines.length) →
      (∀ s ∈ spans, (f s).length = s.lines.length) →
      (spans.Pairwise fun a b => a.start + a.lines.length < b.start) →
      (∀ s ∈ spans, ∀ r < s.lines.length,
        (spans.foldl (fun ls s => replaceLines ls s.start (f s)) lines)[s.start + r]? = (f s)[r]?) ∧
      ∀ i, (∀ s ∈ spans, i < s.start ∨ s.start + s.lines.length ≤ i) →
        (spans.foldl (fun ls s => replaceLines ls s.start (f s)) lines)[i]? = lines[i]?
  | [], _, _, _, _ => ⟨fun _ hs => (List.not_mem_nil hs).elim, fun _ _ => rfl⟩
  | t :: spans, lines, hend, hlen, hpair => by
    have htf := hlen t List.mem_cons_self
    have hte : t.start + (f t).length ≤ lines.length := by
      rw [htf]
      exact hend t List.mem_cons_self
    obtain ⟨hfirst, hrest⟩ := List.pairwise_cons.1 hpair
    obtain ⟨hin, hout⟩ := getElem?_foldl_replaceLines f spans (replaceLines lines t.start (f t))
      (fun s hs => by rw [length_replaceLines hte]; exact hend s (List.mem_cons_of_mem _ hs))
      (fun s hs => hlen s (List.mem_cons_of_mem _ hs)) hrest
    rw [List.foldl_cons]
    constructor
    · intro s hs r hr
      rcases List.mem_cons.1 hs with rfl | hs
      · rw [hout (s.start + r) fun b hb => .inl (by have := hfirst b hb; omega),
          getElem?_replaceLines hte, if_pos ⟨by omega, by omega⟩, Nat.add_sub_cancel_left]
      · exact hin s hs r hr
    · intro i hi
      rw [hout i fun s hs => hi s (List.mem_cons_of_mem _ hs), getElem?_replaceLines hte, if_neg]
      have := hi t List.mem_cons_self
      omega

end ComputedTables
