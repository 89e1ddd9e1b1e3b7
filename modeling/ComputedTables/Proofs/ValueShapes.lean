import Mathlib
import ComputedTables.Proofs.Stages
import ComputedTables.Proofs.Substitution

/-!
# What of a value decides whether a formula can be read

A formula is read from a text in which numbers stand for its calls.  Of a number it matters only
whether it has a sign and whether it has a point (`Literal.alike`), so a formula is ill-formed
exactly if it is with such zeros for the values (`illFormed_iff`).  A formula that writes a tree is
never ill-formed.  Without a tree the text around a call may fit numbers of one kind only:
`-SUM(row)` can be read as long as the sum has no sign.
-/

namespace ComputedTables

open Decimal

/-! ### Numbers in a text -/

namespace Stage

/-- Whatever has been read, either both texts go on to the end of an expression or none does. -/
def Alike (cs ds : List Char) : Prop :=
  ∀ (s : Stage) (depth : Nat), s.completes depth cs = s.completes depth ds

theorem Alike.append_left {cs ds : List Char} (h : Alike cs ds) : ∀ before : List Char,
    Alike (before ++ cs) (before ++ ds)
  | [] => h
  | c :: before => by
    intro s depth
    rw [List.cons_append, List.cons_append, completes, completes]
    rcases s.next? depth c with _ | ⟨s', depth'⟩
    · rfl
    · exact h.append_left before s' depth'

end Stage

namespace Literal

open Stage

/-- The characters of a literal behind its sign. -/
def unsigned (n : Literal) : List Char :=
  n.1.whole ++ (if n.1.pointed then ['.'] else []) ++ n.1.fraction

theorem chars_eq_unsigned (n : Literal) :
    n.chars = (if n.1.negative then ['-'] else []) ++ n.unsigned := by
  simp [chars, unsigned, WrittenNumber.chars]

theorem completes_unsigned (n : Literal) (s : Stage) (depth : Nat) (rest : List Char) :
    s.completes depth (n.unsigned ++ rest) = completesFrom (s.number? n.1.pointed) depth rest := by
  obtain ⟨⟨negative, whole, pointed, fraction⟩, hw, hf, hp, hd⟩ := n
  dsimp only at hw hf hp hd
  unfold unsigned
  dsimp only
  rcases pointed with _ | _
  · obtain rfl := hp rfl
    have hne : whole ≠ [] := by simpa using hd
    simpa using completes_run hne hw s depth rest
  · have hfraction : Stage.fraction.completes depth (fraction ++ rest)
        = Stage.fraction.completes depth rest := completes_digits (.inr rfl) hf rest
    rw [if_pos rfl, List.append_assoc, List.append_assoc, List.singleton_append]
    rcases whole with _ | ⟨c, whole⟩
    · have hne : fraction ≠ [] := by simpa using hd
      have hpoint := completes_run hne hf .point depth rest
      rw [List.nil_append, completes_point_cons]
      cases s with
      | wanting | signed => exact hpoint
      | whole => exact hfraction
      | point | fraction | having => rfl
    · rw [completes_run (List.cons_ne_nil c whole) hw]
      cases s with
      | wanting | signed | whole =>
        exact (completes_point_cons .whole depth (fraction ++ rest)).trans hfraction
      | point | fraction | having => rfl

/-- Of two numbers with a sign or without, and with a point or without, either both can be read in a
text or none can. -/
theorem alike {n m : Literal} (hnegative : n.1.negative = m.1.negative)
    (hpointed : n.1.pointed = m.1.pointed) {rest rest' : List Char} (h : Alike rest rest') :
    Alike (n.chars ++ rest) (m.chars ++ rest') := by
  have hunsigned : Alike (n.unsigned ++ rest) (m.unsigned ++ rest') := by
    intro s depth
    rw [completes_unsigned, completes_unsigned, hpointed]
    unfold completesFrom
    simp only [h _ depth]
  rw [chars_eq_unsigned, chars_eq_unsigned, hnegative, List.append_assoc, List.append_assoc]
  exact hunsigned.append_left _

end Literal

/-! ### Numbers for calls -/

variable {fill fill' : Call → List Char}

theorem alike_filled : ∀ {gs : List Glyph}, (∀ call, .inr call ∈ gs → ∃ n m : Literal,
      n.chars = fill call ∧ m.chars = fill' call ∧ n.1.negative = m.1.negative ∧
        n.1.pointed = m.1.pointed) →
      Stage.Alike (gs.flatMap (Glyph.filled fill)) (gs.flatMap (Glyph.filled fill'))
  | [], _ => fun _ _ => rfl
  | g :: gs, h => by
    have ih := alike_filled fun call hcall => h call (List.mem_cons_of_mem _ hcall)
    rw [List.flatMap_cons, List.flatMap_cons]
    rcases g with c | call
    · exact ih.append_left [c]
    · obtain ⟨n, m, hn, hm, hnegative, hpointed⟩ := h call List.mem_cons_self
      rw [Glyph.filled, Glyph.filled, ← hn, ← hm]
      exact Literal.alike hnegative hpointed ih

/-- A zero with the sign of a number, and with a point if the number is written with one. -/
def zeroLike (x : Float) : List Char :=
  (if '-' ∈ plain.chars x then ['-'] else []) ++
    '0' :: if '.' ∈ plain.chars x then ['.', '0'] else []

theorem Literal.sign_and_point (n : Literal) :
    ('-' ∈ n.chars ↔ n.1.negative = true) ∧ ('.' ∈ n.chars ↔ n.1.pointed = true) := by
  obtain ⟨⟨negative, whole, pointed, fraction⟩, hw, hf, -, -⟩ := n
  dsimp only at hw hf
  have hnot : ∀ cs : List Char, (∀ c ∈ cs, c.isDigit = true) → '-' ∉ cs ∧ '.' ∉ cs :=
    fun cs hcs => ⟨fun hmem => absurd (hcs _ hmem) (by decide),
      fun hmem => absurd (hcs _ hmem) (by decide)⟩
  cases negative <;> cases pointed <;>
    simp [chars, WrittenNumber.chars, hnot whole hw, hnot fraction hf]

theorem exists_zeroLike {x : Float} (h : x.isFinite = true) : ∃ n m : Literal,
    n.chars = plain.chars x ∧ m.chars = zeroLike x ∧ n.1.negative = m.1.negative ∧
      n.1.pointed = m.1.pointed := by
  obtain ⟨n, hn⟩ := exists_literal_of_isFinite h
  refine ⟨n, ⟨⟨n.1.negative, ['0'], n.1.pointed, if n.1.pointed then ['0'] else []⟩,
    ?_, ?_, ?_, ?_⟩, hn, ?_, rfl, rfl⟩
  · simp
  · split <;> simp
  · intro hpointed
    exact if_neg (Bool.eq_false_iff.1 hpointed)
  · exact .inl (List.cons_ne_nil _ _)
  · obtain ⟨hminus, hpoint⟩ := n.sign_and_point
    rw [zeroLike, ← hn]
    simp only [hminus, hpoint]
    cases hneg : n.1.negative <;> cases hpt : n.1.pointed <;> rfl

/-! ### Formulas -/

/-- The arithmetic of the formula cannot be read. -/
def IllFormed (lookup : Lookup) (grid : Grid) (p : Place) (formula : String) : Prop :=
  ∃ fault, evalFormula lookup grid p formula = .error (.parse fault)

/-- The calls of the formula have these values, which are finite. -/
def Resolves (lookup : Lookup) (grid : Grid) (p : Place) (formula : String)
    (values : Call → Float) : Prop :=
  ∀ segments, cutFormula (Text.trim (unmarked formula)) = .ok segments →
    ∀ call, .call call ∈ segments →
      call.value lookup grid p = .ok (values call) ∧ (values call).isFinite = true

/-- The formula cannot be read with zeros like the values for its calls. -/
def IllFormedWithZeros (formula : String) (values : Call → Float) : Prop :=
  ∃ segments, cutFormula (Text.trim (unmarked formula)) = .ok segments ∧
    ¬ ∃ tree : Expr Literal, tree.WrittenAs
      (keepArithmetic (segments.flatMap (Segment.filled fun call => zeroLike (values call))))

variable {lookup lookup' : Lookup} {grid grid' : Grid} {p p' : Place} {formula : String}
  {values values' : Call → Float} {segments : List Segment}

theorem calculate_parse_iff {cs : List Char} : (∃ fault, calculate cs = .error (.parse fault)) ↔
    Stage.wanting.completes 0 (keepArithmetic cs) = false := by
  rw [← Bool.not_eq_true, Stage.completes_iff]
  constructor
  · rintro ⟨fault, hfault⟩ ⟨tree, htree⟩
    rw [calculate_of_writtenAs htree] at hfault
    exact Expr.evaluate_ne_parse _ fault hfault
  · exact fun hnone => calculate_of_not_writtenAs fun tree htree => hnone ⟨tree, htree⟩

theorem evalFormula_eq_calculate
    (hcut : cutFormula (Text.trim (unmarked formula)) = .ok segments)
    (hvalues : ∀ call, .call call ∈ segments → call.value lookup grid p = .ok (values call)) :
    evalFormula lookup grid p formula
      = calculate (segments.flatMap (Segment.filled fun call => plain.chars (values call))) := by
  unfold evalFormula
  rw [hcut, ok_bind, mapM_substituted hvalues, ok_bind, ← List.flatMap_def]

theorem cutFrom_ne_parse (afterWord : Bool) (cs : List Char) (fault : ParseFault) :
    cutFrom afterWord cs ≠ .error (.parse fault) := by
  fun_induction cutFrom afterWord cs with
  | case1 => nofun
  | case2 _ c rest _ _ _ callFault =>
    cases callFault <;> nofun
  | case3 _ _ _ _ _ _ call after _ ih =>
    rcases hcut : cutFrom false after with e | segments
    · exact fun h => ih (hcut.trans h)
    · nofun
  | case4 _ c rest _ ih =>
    rcases hcut : cutFrom (Text.isWord c) rest with e | segments
    · exact fun h => ih (hcut.trans h)
    · nofun

theorem illFormed_iff (h : Resolves lookup grid p formula values) :
    IllFormed lookup grid p formula ↔ IllFormedWithZeros formula values := by
  unfold IllFormedWithZeros
  rcases hcut : cutFormula (Text.trim (unmarked formula)) with fault | segments
  · have hnot : ¬ IllFormed lookup grid p formula := by
      rintro ⟨parseFault, hfault⟩
      unfold evalFormula at hfault
      rw [hcut] at hfault
      cases hfault
      exact cutFrom_ne_parse _ _ _ hcut
    simp [hnot]
  · have hvalues := h segments hcut
    have halike : Stage.Alike
        (keepArithmetic (segments.flatMap (Segment.filled fun call => plain.chars (values call))))
        (keepArithmetic (segments.flatMap (Segment.filled fun call => zeroLike (values call))))
        := by
      rw [keepArithmetic_filled, keepArithmetic_filled]
      refine alike_filled fun call hcall => ?_
      obtain ⟨n, m, hn, hm, hsame⟩ := exists_zeroLike (hvalues call (mem_glyphs_iff.1 hcall)).2
      exact ⟨n, m, by rw [← hn, n.keepArithmetic_chars], by rw [← hm, m.keepArithmetic_chars],
        hsame⟩
    rw [IllFormed, evalFormula_eq_calculate hcut fun call hcall => (hvalues call hcall).1,
      calculate_parse_iff, halike, ← Bool.not_eq_true, Stage.completes_iff]
    simp

theorem not_illFormed_of_writtenIn (h : Resolves lookup grid p formula values)
    (hcut : cutFormula (Text.trim (unmarked formula)) = .ok segments)
    {tree : Expr (Literal ⊕ Call)} (htree : tree.WrittenIn segments) :
    ¬ IllFormed lookup grid p formula := by
  have hliteral : ∀ call, ∃ n : Literal,
      .call call ∈ segments → n.chars = zeroLike (values call) := by
    intro call
    by_cases hmem : .call call ∈ segments
    · obtain ⟨-, m, -, hm, -⟩ := exists_zeroLike (h segments hcut call hmem).2
      exact ⟨m, fun _ => hm⟩
    · exact ⟨.zero, fun hmem' => absurd hmem' hmem⟩
  choose numeral hnumeral using hliteral
  have hfilled : segments.flatMap (Segment.filled fun call => zeroLike (values call))
      = segments.flatMap (Segment.filled fun call => (numeral call).chars) := by
    refine List.flatMap_congr fun segment hmem => ?_
    rcases segment with cs | call
    · rfl
    · exact (hnumeral call hmem).symm
  rw [illFormed_iff h]
  rintro ⟨segments', hcut', hnone⟩
  cases hcut.symm.trans hcut'
  rw [hfilled] at hnone
  exact hnone ⟨_, htree.writtenAs numeral⟩

theorem illFormedWithZeros_congr (h : ∀ segments,
      cutFormula (Text.trim (unmarked formula)) = .ok segments →
        ∀ call, .call call ∈ segments → zeroLike (values call) = zeroLike (values' call)) :
    IllFormedWithZeros formula values ↔ IllFormedWithZeros formula values' := by
  refine exists_congr fun segments => and_congr_right fun hcut => ?_
  have hfilled : segments.flatMap (Segment.filled fun call => zeroLike (values call))
      = segments.flatMap (Segment.filled fun call => zeroLike (values' call)) := by
    refine List.flatMap_congr fun segment hmem => ?_
    rcases segment with cs | call
    · rfl
    · exact h segments hcut call hmem
  rw [hfilled]

/-- Whether a formula can be read depends on the values of its calls, as long as these are finite,
only through the zeros that are like them: it is ill-formed exactly if it is with those zeros.  So
it makes no difference how large the values are, and none at all in a formula that writes a tree. -/
theorem illFormed_of_zeros (h : Resolves lookup grid p formula values)
    (h' : Resolves lookup' grid' p' formula values') :
    (IllFormed lookup grid p formula ↔ IllFormedWithZeros formula values) ∧
    (IllFormed lookup' grid' p' formula ↔ IllFormedWithZeros formula values') ∧
    ((∀ segments, cutFormula (Text.trim (unmarked formula)) = .ok segments →
        ∀ call, .call call ∈ segments → zeroLike (values call) = zeroLike (values' call)) →
      (IllFormed lookup grid p formula ↔ IllFormed lookup' grid' p' formula)) ∧
    ((∃ segments, cutFormula (Text.trim (unmarked formula)) = .ok segments ∧
        ∃ tree : Expr (Literal ⊕ Call), tree.WrittenIn segments) →
      ¬ IllFormed lookup grid p formula ∧ ¬ IllFormed lookup' grid' p' formula) := by
  refine ⟨illFormed_iff h, illFormed_iff h', fun hsame => ?_, ?_⟩
  · exact (illFormed_iff h).trans ((illFormedWithZeros_congr hsame).trans (illFormed_iff h').symm)
  · rintro ⟨segments, hcut, tree, htree⟩
    exact ⟨not_illFormed_of_writtenIn h hcut htree, not_illFormed_of_writtenIn h' hcut htree⟩

/-- A row with one number and the formula that negates its sum. -/
def negatedRow (number : String) : Grid :=
  Grid.ofTexts [[number, "=-SUM(row)"]]

theorem resolves_negatedRow {number : String} {x : Float} (hx : x.isFinite = true)
    (hvalue : Call.value .empty (negatedRow number) ⟨0, 1⟩ (.aggregate .sum .row false none)
      = .ok x) : Resolves .empty (negatedRow number) ⟨0, 1⟩ "=-SUM(row)" fun _ => x := by
  intro segments hcut call hcall
  have hsegments : cutFormula (Text.trim (unmarked "=-SUM(row)"))
      = .ok [.text ['-'], .call (.aggregate .sum .row false none)] := by decide +kernel
  cases hcut.symm.trans hsegments
  obtain rfl : call = .aggregate .sum .row false none := by simpa using hcall
  exact ⟨hvalue, hx⟩

theorem illFormed_negatedRow : ¬ IllFormed .empty (negatedRow "5") ⟨0, 1⟩ "=-SUM(row)" ∧
    IllFormed .empty (negatedRow "-5") ⟨0, 1⟩ "=-SUM(row)" := by
  refine ⟨?_, .lexical (.invalidNumber "-"), by decide +kernel⟩
  rintro ⟨fault, hfault⟩
  have hvalue : evalFormula .empty (negatedRow "5") ⟨0, 1⟩ "=-SUM(row)" = .ok (-5) := by
    decide +kernel
  rw [hvalue] at hfault
  cases hfault

theorem illFormed_of_zeros_negatedRow :
    Resolves .empty (negatedRow "5") ⟨0, 1⟩ "=-SUM(row)" (fun _ => 5) ∧
      Resolves .empty (negatedRow "-5") ⟨0, 1⟩ "=-SUM(row)" (fun _ => -5) ∧
      ¬ IllFormedWithZeros "=-SUM(row)" (fun _ => 5) ∧
      IllFormedWithZeros "=-SUM(row)" (fun _ => -5) := by
  have hpositive : Resolves .empty (negatedRow "5") ⟨0, 1⟩ "=-SUM(row)" fun _ => 5 :=
    resolves_negatedRow (by decide +kernel) (by decide +kernel)
  have hnegative : Resolves .empty (negatedRow "-5") ⟨0, 1⟩ "=-SUM(row)" fun _ => -5 :=
    resolves_negatedRow (by decide +kernel) (by decide +kernel)
  obtain ⟨hfirst, hsecond, -⟩ := illFormed_of_zeros hpositive hnegative
  exact ⟨hpositive, hnegative, mt hfirst.2 illFormed_negatedRow.1,
    hsecond.1 illFormed_negatedRow.2⟩

/-- A formula can be well-formed for one value of a call and not for another. -/
theorem illFormed_depends_on_values :
    ¬ ∀ (formula : String) (lookup lookup' : Lookup) (grid grid' : Grid) (p p' : Place)
      (values values' : Call → Float), Resolves lookup grid p formula values →
        Resolves lookup' grid' p' formula values' →
          (IllFormed lookup grid p formula ↔ IllFormed lookup' grid' p' formula) := by
  intro hall
  have hsame := hall "=-SUM(row)" .empty .empty (negatedRow "5") (negatedRow "-5") ⟨0, 1⟩ ⟨0, 1⟩
    (fun _ => 5) (fun _ => -5) (resolves_negatedRow (by decide +kernel) (by decide +kernel))
    (resolves_negatedRow (by decide +kernel) (by decide +kernel))
  exact illFormed_negatedRow.1 (hsame.2 illFormed_negatedRow.2)

end ComputedTables
