import ComputedTables.Engine.Recalculate
import ComputedTables.Proofs.Spans
import Mathlib.Data.List.Nodup
import Mathlib.Data.List.Pairwise

/-!
# Tables are maximal runs

The tables of a text are the runs of at least two table lines that no such line extends at either
end (`mem_tables_iff`).  Going up and down from a line finds the run around it
(`maximal_of_tableAt?`), and different tables are apart (`tables_apart`).  So the walk over all
lines and the search around one line find the same tables, and a scope has exactly one table in it
(`tables_are_maximal_runs`).
-/

namespace ComputedTables

/-- The lines of a table are table lines, and what stands before and after them are none. -/
structure Span.MaximalIn (s : Span) (lines before after : List String) : Prop where
  split : lines = before ++ s.lines ++ after
  start : before.length = s.start
  two_le : 2 ≤ s.lines.length
  barred : ∀ line ∈ s.lines, isBarred line = true
  above : ∀ line ∈ before.getLast?, isBarred line = false
  below : ∀ line ∈ after.head?, isBarred line = false

theorem maximal_of_mem_closeRun {next : Nat} {run before after : List String} {s : Span}
    (hnext : before.length + run.length = next) (hrun : ∀ line ∈ run, isBarred line = true)
    (habove : ∀ line ∈ before.getLast?, isBarred line = false)
    (hbelow : ∀ line ∈ after.head?, isBarred line = false) (hs : s ∈ closeRun next run) :
    s.MaximalIn (before ++ run ++ after) before after := by
  obtain ⟨rfl, h2⟩ := mem_closeRun hs
  refine ⟨rfl, ?_, h2, hrun, habove, hbelow⟩
  show before.length = next - run.length
  omega

theorem maximal_of_mem_tablesFrom : ∀ (lines : List String) (next : Nat) (run before : List String),
    before.length + run.length = next → (∀ line ∈ run, isBarred line = true) →
      (∀ line ∈ before.getLast?, isBarred line = false) → ∀ {s : Span},
        s ∈ tablesFrom next run lines → ∃ b a, s.MaximalIn (before ++ run ++ lines) b a
  | [], _, _, before, hnext, hrun, habove, _, hs =>
    ⟨before, [], maximal_of_mem_closeRun hnext hrun habove (by simp) hs⟩
  | line :: lines, next, run, before, hnext, hrun, habove, s, hs => by
    unfold tablesFrom at hs
    -- the open run takes the line in, or is closed before it
    split at hs
    · rename_i hl
      have hrun' : ∀ l ∈ run ++ [line], isBarred l = true := by
        intro l hm
        rcases List.mem_append.1 hm with hm | hm
        · exact hrun l hm
        · rwa [List.mem_singleton.1 hm]
      have := maximal_of_mem_tablesFrom lines (next + 1) (run ++ [line]) before
        (by simp only [List.length_append, List.length_singleton]; omega) hrun' habove hs
      simpa using this
    · rename_i hl
      rcases List.mem_append.1 hs with hs | hs
      · refine ⟨before, line :: lines, maximal_of_mem_closeRun hnext hrun habove ?_ hs⟩
        intro l hm
        rw [List.head?_cons, Option.mem_def, Option.some.injEq] at hm
        rw [← hm]
        exact Bool.eq_false_iff.2 hl
      · have habove' : ∀ l ∈ (before ++ run ++ [line]).getLast?, isBarred l = false := by
          intro l hm
          rw [List.getLast?_concat, Option.mem_def, Option.some.injEq] at hm
          rw [← hm]
          exact Bool.eq_false_iff.2 hl
        have := maximal_of_mem_tablesFrom lines (next + 1) [] (before ++ run ++ [line])
          (by simp only [List.length_append, List.length_singleton, List.length_nil]; omega)
          (by simp) habove' hs
        simpa using this

theorem maximal_of_mem_tables {text : String} {s : Span} (h : s ∈ tables text) :
    ∃ before after, s.MaximalIn (Text.lines text) before after :=
  maximal_of_mem_tablesFrom (Text.lines text) 0 [] [] rfl (by simp) (by simp) h

/-! ### The table around a line -/

theorem Span.MaximalIn.tableAt? {s : Span} {lines before after : List String}
    (h : s.MaximalIn lines before after) {k : Nat} (hk : k < s.lines.length) :
    ComputedTables.tableAt? lines (s.start + k) = some s := by
  obtain ⟨rfl, hstart, h2, hbarred, habove, hbelow⟩ := h
  have hline : (before ++ s.lines ++ after)[s.start + k]? = some s.lines[k] := by
    rw [← hstart, List.append_assoc, List.getElem?_append_right (by omega),
      Nat.add_sub_cancel_left, List.getElem?_append_left hk, List.getElem?_eq_getElem hk]
  have htake : ((before ++ s.lines ++ after).take (s.start + k)).reverse.takeWhile isBarred
      = (s.lines.take k).reverse := by
    rw [← hstart, List.append_assoc, List.take_length_add_append,
      List.take_append_of_le_length (Nat.le_of_lt hk), List.reverse_append]
    refine takeWhile_append_of_stop (fun line hl => ?_) fun line hl => ?_
    · exact hbarred line (List.mem_of_mem_take (List.mem_reverse.1 hl))
    · rw [List.head?_reverse] at hl
      exact habove line hl
  have hdrop : ((before ++ s.lines ++ after).drop (s.start + k + 1)).takeWhile isBarred
      = s.lines.drop (k + 1) := by
    rw [← hstart, List.append_assoc, Nat.add_assoc, List.drop_length_add_append,
      List.drop_append_of_le_length hk]
    exact takeWhile_append_of_stop (fun line hl => hbarred line (List.mem_of_mem_drop hl)) hbelow
  have hrun : s.lines.take k ++ s.lines[k] :: s.lines.drop (k + 1) = s.lines := by
    rw [List.getElem_cons_drop, List.take_append_drop]
  unfold ComputedTables.tableAt?
  rw [hline]
  dsimp only
  rw [if_pos (hbarred _ (List.getElem_mem hk)), htake, hdrop, List.reverse_reverse, hrun, if_pos h2]
  have hlen : s.start + k - (s.lines.take k).reverse.length = s.start := by
    rw [List.length_reverse, List.length_take]
    omega
  rw [hlen]

/-- A line of a table belongs to that table. -/
theorem tableAt?_of_mem_tables {text : String} {s : Span} (h : s ∈ tables text) {line : Nat}
    (hfirst : s.start ≤ line) (hlast : line ≤ s.last) :
    tableAt? (Text.lines text) line = some s := by
  obtain ⟨before, after, hmaximal⟩ := maximal_of_mem_tables h
  have h2 := hmaximal.two_le
  have hk : line - s.start < s.lines.length := by
    unfold Span.last at hlast
    omega
  have := hmaximal.tableAt? hk
  rwa [Nat.add_sub_cancel' hfirst] at this

/-! ### All maximal runs -/

theorem Span.MaximalIn.standsIn {s : Span} {lines before after : List String}
    (h : s.MaximalIn lines before after) : s.StandsIn lines := by
  refine ⟨h.two_le, fun r hr => ?_⟩
  rw [h.split, List.append_assoc, ← h.start, List.getElem?_append_right (by omega),
    Nat.add_sub_cancel_left, List.getElem?_append_left hr]

/-- Maximal runs that have a line in common are the same. -/
theorem Span.MaximalIn.unique {s t : Span} {lines before after before' after' : List String}
    (hs : s.MaximalIn lines before after) (ht : t.MaximalIn lines before' after') {k l : Nat}
    (hk : k < s.lines.length) (hl : l < t.lines.length) (h : s.start + k = t.start + l) :
    s = t := by
  have hat := hs.tableAt? hk
  rw [h, ht.tableAt? hl] at hat
  exact (Option.some.inj hat).symm

/-- A maximal run that starts in a stopped run of table lines is that run. -/
theorem Span.MaximalIn.eq_run {s : Span} {before run after b a : List String}
    (hs : s.MaximalIn (before ++ run ++ after) b a) (hrun : ∀ line ∈ run, isBarred line = true)
    (habove : ∀ line ∈ before.getLast?, isBarred line = false)
    (hbelow : ∀ line ∈ after.head?, isBarred line = false) (hfirst : before.length ≤ s.start)
    (hlast : s.start < before.length + run.length) :
    s = ⟨before.length, run⟩ ∧ 2 ≤ run.length := by
  have h2 := hs.two_le
  have hrun2 : 2 ≤ run.length := by
    by_contra hlt
    -- the second line of `s` would be the one that stops the run
    have hsecond := hs.standsIn.line 1 h2
    rw [List.getElem?_append_right (by simp; omega), List.getElem?_eq_getElem h2] at hsecond
    have hindex : s.start + 1 - (before ++ run).length = 0 := by simp; omega
    rw [hindex, ← List.head?_eq_getElem?] at hsecond
    have := hbelow _ hsecond
    rw [hs.barred _ (List.getElem_mem h2)] at this
    cases this
  have hmaximal : Span.MaximalIn ⟨before.length, run⟩ (before ++ run ++ after) before after :=
    ⟨rfl, rfl, hrun2, hrun, habove, hbelow⟩
  refine ⟨hs.unique hmaximal (k := 0) (l := s.start - before.length) (by omega) ?_ ?_, hrun2⟩
  · show s.start - before.length < run.length
    omega
  · show s.start + 0 = before.length + (s.start - before.length)
    omega

theorem mem_closeRun_of_two_le {before run : List String} (h : 2 ≤ run.length) {next : Nat}
    (hnext : before.length + run.length = next) : ⟨before.length, run⟩ ∈ closeRun next run := by
  unfold closeRun
  rw [if_pos h, List.mem_singleton, ← hnext, Nat.add_sub_cancel]

theorem mem_tablesFrom_of_maximal : ∀ (lines : List String) (next : Nat)
    (run before : List String), before.length + run.length = next →
      (∀ line ∈ run, isBarred line = true) → (∀ line ∈ before.getLast?, isBarred line = false) →
        ∀ {s : Span} {b a : List String}, s.MaximalIn (before ++ run ++ lines) b a →
          before.length ≤ s.start → s ∈ tablesFrom next run lines
  | [], next, run, before, hnext, hrun, habove, s, b, a, hs, hfirst => by
    have hend := hs.standsIn.end_le
    have h2 := hs.two_le
    simp only [List.append_nil, List.length_append] at hend
    obtain ⟨rfl, hrun2⟩ := hs.eq_run hrun habove (by simp) hfirst (by omega)
    exact mem_closeRun_of_two_le hrun2 hnext
  | line :: lines, next, run, before, hnext, hrun, habove, s, b, a, hs, hfirst => by
    unfold tablesFrom
    split
    · rename_i hl
      have hrun' : ∀ l ∈ run ++ [line], isBarred l = true := by
        simpa [or_imp, forall_and, hl] using hrun
      refine mem_tablesFrom_of_maximal lines (next + 1) (run ++ [line]) before (by simp; omega)
        hrun' habove (b := b) (a := a) ?_ hfirst
      simpa using hs
    · rename_i hl
      have hstop : isBarred line = false := Bool.eq_false_iff.2 hl
      rw [List.mem_append]
      by_cases hin : s.start < next
      · obtain ⟨rfl, hrun2⟩ := hs.eq_run hrun habove (by simp [hstop]) hfirst (by omega)
        exact .inl (mem_closeRun_of_two_le hrun2 hnext)
      · -- `line` is no table line, so `s` starts below it
        have hne : s.start ≠ next := by
          rintro he
          have hline := hs.standsIn.line 0 (by have := hs.two_le; omega)
          rw [Nat.add_zero, he, ← hnext, List.getElem?_append_right (by simp)] at hline
          simp only [List.length_append, Nat.sub_self, List.getElem?_cons_zero] at hline
          have := hs.barred line (List.mem_of_getElem? hline.symm)
          rw [hstop] at this
          cases this
        refine .inr (mem_tablesFrom_of_maximal lines (next + 1) [] (before ++ run ++ [line])
          (by simp; omega) (by simp) (by simp [hstop]) (b := b) (a := a) ?_ ?_)
        · simpa using hs
        · simp
          omega

/-- The tables of a text are its maximal runs of table lines. -/
theorem mem_tables_iff {text : String} {s : Span} :
    s ∈ tables text ↔ ∃ before after, s.MaximalIn (Text.lines text) before after :=
  ⟨maximal_of_mem_tables, fun ⟨_, _, hs⟩ =>
    mem_tablesFrom_of_maximal (Text.lines text) 0 [] [] rfl (by simp) (by simp) hs (Nat.zero_le _)⟩

/-- What is found around a line is a maximal run with that line in it. -/
theorem maximal_of_tableAt? {lines : List String} {index : Nat} {s : Span}
    (h : tableAt? lines index = some s) :
    (∃ before after, s.MaximalIn lines before after) ∧ s.start ≤ index ∧ index ≤ s.last := by
  unfold tableAt? at h
  split at h
  · cases h
  rename_i line hline
  obtain ⟨hindex, hget⟩ := List.getElem?_eq_some_iff.1 hline
  split at h
  swap
  · cases h
  rename_i hbarred
  dsimp only at h
  obtain ⟨hruns, hstop, habove⟩ := takeWhile_spec isBarred (lines.take index).reverse
  obtain ⟨hruns', hstop', hbelow⟩ := takeWhile_spec isBarred (lines.drop (index + 1))
  generalize (lines.take index).reverse.takeWhile isBarred = above at *
  generalize (lines.take index).reverse.dropWhile isBarred = farAbove at *
  generalize (lines.drop (index + 1)).takeWhile isBarred = below at *
  generalize (lines.drop (index + 1)).dropWhile isBarred = farBelow at *
  split at h
  swap
  · cases h
  rename_i h2
  cases h
  have htake : lines.take index = farAbove.reverse ++ above.reverse := by
    rw [← List.reverse_append, habove, List.reverse_reverse]
  have hlength : farAbove.length + above.length = index := by
    have := congrArg List.length htake
    simp only [List.length_take, List.length_append, List.length_reverse] at this
    omega
  refine ⟨⟨farAbove.reverse, farBelow, ?_, ?_, h2, ?_, ?_, hstop'⟩, ?_, ?_⟩
  · calc lines = lines.take index ++ line :: lines.drop (index + 1) := by
          rw [← hget, List.getElem_cons_drop, List.take_append_drop]
      _ = farAbove.reverse ++ (above.reverse ++ line :: below) ++ farBelow := by
          rw [htake, ← hbelow]
          simp
  · simp only [List.length_reverse]
    omega
  · simp only [List.mem_append, List.mem_reverse, List.mem_cons]
    rintro l (hl | rfl | hl)
    · exact hruns l hl
    · exact hbarred
    · exact hruns' l hl
  · rwa [List.getLast?_reverse]
  · show index - above.length ≤ index
    omega
  · simp only [Span.last, List.length_append, List.length_reverse, List.length_cons]
    omega

/-! ### Different tables -/

theorem tables_apart {text : String} {s t : Span} (hs : s ∈ tables text) (ht : t ∈ tables text)
    (hne : s ≠ t) : s.start + s.lines.length < t.start ∨ t.start + t.lines.length < s.start := by
  let Apart (a b : Span) := a.start + a.lines.length < b.start ∨ b.start + b.lines.length < a.start
  have : Std.Symm Apart := ⟨fun _ _ => Or.symm⟩
  have hpairwise : (tables text).Pairwise Apart := (tables_pairwise text).imp Or.inl
  exact hpairwise.forall hs ht hne

/-- Of all tables of a text, only one starts in the scope of a table of it. -/
theorem inScope_iff {text : String} {s span : Span} (hs : s ∈ tables text)
    (hspan : span ∈ tables text) : inScope (some span) s = true ↔ s = span := by
  have h2 := (stands_of_mem_tables hspan).two_le
  unfold inScope Span.last
  simp only [Option.all_some, Bool.and_eq_true, decide_eq_true_eq]
  constructor
  · intro h
    by_contra hne
    have := tables_apart hs hspan hne
    omega
  · rintro rfl
    omega

theorem tables_nodup (text : String) : (tables text).Nodup :=
  (tables_pairwise text).imp fun h he => by
    rw [he] at h
    omega

theorem filter_inScope {text : String} {span : Span} (hspan : span ∈ tables text) :
    (tables text).filter (inScope (some span)) = [span] := by
  have heq : ∀ s ∈ tables text, inScope (some span) s = decide (s = span) := by
    intro s hs
    rw [Bool.eq_iff_iff, decide_eq_true_eq]
    exact inScope_iff hs hspan
  rw [List.filter_congr heq, List.filter_eq, List.count_eq_one_of_mem (tables_nodup text) hspan,
    List.replicate_one]

/-- The tables of a text are its maximal runs of at least two table lines, from top to bottom and
apart from each other.  What is found around a line is the one that the line is in, so the scope of
a pass has exactly one of them. -/
theorem tables_are_maximal_runs (text : String) :
    ((tables text).Pairwise fun a b => a.last + 1 < b.start) ∧
    (∀ span, span ∈ tables text ↔ ∃ before after, span.MaximalIn (Text.lines text) before after) ∧
    (∀ index span, tableAt? (Text.lines text) index = some span ↔
      span ∈ tables text ∧ span.start ≤ index ∧ index ≤ span.last) ∧
    ∀ cursor quiet scope, Engine.scopeOf text cursor quiet = some scope →
      (tables text).filter (inScope (some scope)) = [scope] := by
  have hat : ∀ index span, tableAt? (Text.lines text) index = some span ↔
      span ∈ tables text ∧ span.start ≤ index ∧ index ≤ span.last := by
    refine fun index span => ⟨fun h => ?_, fun ⟨hs, hfirst, hlast⟩ =>
      tableAt?_of_mem_tables hs hfirst hlast⟩
    obtain ⟨hmaximal, hbounds⟩ := maximal_of_tableAt? h
    exact ⟨mem_tables_iff.2 hmaximal, hbounds⟩
  refine ⟨?_, fun span => mem_tables_iff, hat, fun cursor quiet scope hscope => ?_⟩
  · refine (tables_pairwise text).imp_of_mem fun ha hb h => ?_
    have := (stands_of_mem_tables ha).two_le
    unfold Span.last
    omega
  · unfold Engine.scopeOf at hscope
    split at hscope
    · obtain ⟨line, -, hline⟩ := Option.bind_eq_some_iff.1 hscope
      exact filter_inScope ((hat line scope).1 hline).1
    · cases hscope

theorem tables_are_maximal_runs_lone_line :
    let text := "| a |\n| b |\n\n| c |\nx\n|\n| =1 |"
    tables text = [⟨0, ["| a |", "| b |"]⟩, ⟨5, ["|", "| =1 |"]⟩] ∧
      tableAt? (Text.lines text) 3 = none ∧
      Engine.scopeOf text (some 6) true = some ⟨5, ["|", "| =1 |"]⟩ ∧
      (tables text).filter (inScope (some ⟨5, ["|", "| =1 |"]⟩)) = [⟨5, ["|", "| =1 |"]⟩] := by
  intro text
  have hscope : Engine.scopeOf text (some 6) true = some ⟨5, ["|", "| =1 |"]⟩ := by decide +kernel
  exact ⟨by decide +kernel, by decide +kernel, hscope,
    (tables_are_maximal_runs text).2.2.2 (some 6) true _ hscope⟩

end ComputedTables
