import Mathlib
import ComputedTables.Proofs.ValueShapes

/-!
# Values that are not finite

An infinity and what is no number have letters for digits, which arithmetic does not use: of their
texts nothing is kept, or the sign (`keptText_of_not_isFinite`).  So a formula with such a value is
calculated as if the call were not there.  In a formula that writes a tree the operand is then
missed, unless a minus follows the call with a number right behind it, and is taken for the sign of
that number.  But for that the formula is ill-formed (`illFormed_iff_not_absorbs`).
-/

namespace ComputedTables

open Decimal Text

/-! ### What is kept of a number -/

/-- What arithmetic keeps of the text that stands for a number. -/
def keptText (x : Float) : List Char :=
  keepArithmetic (plain.chars x)

theorem keptText_of_not_isFinite {x : Float} (h : x.isFinite = false) :
    keptText x = if '-' ∈ plain.chars x then ['-'] else [] := by
  have hchars : plain.chars x = "NaN".toList ∨ plain.chars x = "inf".toList ∨
      plain.chars x = "-inf".toList := by
    unfold Layout.chars
    dsimp only
    rcases magnitude_of_not_isFinite h with hx | hx <;> rw [hx]
    · exact .inl rfl
    · cases (Binary.ofFloat x).negative
      · exact .inr (.inl rfl)
      · exact .inr (.inr rfl)
  unfold keptText
  rcases hchars with hx | hx | hx <;> rw [hx] <;> decide

theorem keptText_of_isFinite {x : Float} (h : x.isFinite = true) :
    ∃ n : Literal, n.chars = keptText x ∧ ('-' ∈ plain.chars x ↔ n.1.negative = true) := by
  obtain ⟨n, hn⟩ := exists_literal_of_isFinite h
  exact ⟨n, by rw [keptText, ← hn, n.keepArithmetic_chars], hn ▸ n.sign_and_point.1⟩

/-! ### Where a value is taken for nothing -/

variable (values : Call → Float)

/-- A number without a sign starts with this glyph. -/
def StartsUnsigned : Glyph → Prop
  | .inl c => c.isDigit = true ∨ c = '.'
  | .inr call => (values call).isFinite = true ∧ '-' ∉ plain.chars (values call)

/-- Blanks and a minus, and right behind it a number without a sign. -/
def StartsNegated : List Glyph → Prop
  | .inl c :: gs =>
    if isBlank c then StartsNegated gs
    else c = '-' ∧ ∃ g ∈ gs.head?, StartsUnsigned values g
  | _ => False

/-- Whatever is not finite has no sign and is followed by a negated number. -/
def Absorbs : List Glyph → Prop
  | [] => True
  | .inl _ :: gs => Absorbs gs
  | .inr call :: gs =>
    ((values call).isFinite = false →
      '-' ∉ plain.chars (values call) ∧ StartsNegated values gs) ∧ Absorbs gs

/-- The text of glyphs with the values for the calls. -/
def textWith (gs : List Glyph) : List Char :=
  gs.flatMap (Glyph.filled fun call => keptText (values call))

/-- The text of glyphs with zeros in parentheses for the calls. -/
def textWithZeros (gs : List Glyph) : List Char :=
  gs.flatMap (Glyph.filled fun _ => zeroText)

variable {values} {gs : List Glyph} {depth : Nat}

open Stage

theorem completes_zeroText (s : Stage) (depth : Nat) (gs : List Glyph) (call : Call) :
    s.completes depth (textWithZeros (.inr call :: gs))
      = (s == wanting && having.completes depth (textWithZeros gs)) := by
  cases s <;> rfl

theorem endsNumber_of_having {cs : List Char} (h : having.completes depth cs = true) :
    EndsNumber cs := by
  rcases cs with _ | ⟨c, cs⟩
  · exact nofun
  · intro d hd
    cases hd
    have hnot : ¬ (c.isDigit = true ∨ c = '.') := fun hc => by
      rw [completes_having_number hc] at h
      cases h
    exact ⟨Bool.eq_false_iff.2 fun hc => hnot (.inl hc), fun hc => hnot (.inr hc)⟩

theorem endsNumber_textWith (h : having.completes depth (textWithZeros gs) = true)
    (values : Call → Float) : EndsNumber (textWith values gs) := by
  have hends := endsNumber_of_having h
  rcases gs with _ | ⟨c | call, gs⟩
  · exact nofun
  · exact fun d hd => hends d hd
  · cases h

theorem Literal.completes_unsigned_of_endsNumber (n : Literal) {s : Stage}
    (hs : s = wanting ∨ s = signed) {rest : List Char} (hr : EndsNumber rest) :
    s.completes depth (n.unsigned ++ rest) = having.completes depth rest := by
  rw [n.completes_unsigned]
  have hnumber : s.number? n.1.pointed = some (if n.1.pointed then .fraction else .whole) := by
    rcases hs with rfl | rfl <;> rfl
  rw [hnumber]
  refine completes_of_endsNumber ?_ hr
  cases n.1.pointed
  · exact .inl rfl
  · exact .inr rfl

theorem Literal.completes_of_endsNumber (n : Literal) {rest : List Char} (hr : EndsNumber rest) :
    wanting.completes depth (n.chars ++ rest) = having.completes depth rest := by
  rw [n.chars_eq_unsigned]
  cases n.1.negative
  · exact n.completes_unsigned_of_endsNumber (.inl rfl) hr
  · exact n.completes_unsigned_of_endsNumber (.inr rfl) hr

/-! ### Formulas that write a tree -/

/-- What the text of glyphs with values comes to where the text with zeros is read through. -/
structure Tracks (values : Call → Float) (gs : List Glyph) : Prop where
  inStep : ∀ (s : Stage) (depth : Nat), s.completes depth (textWithZeros gs) = true →
    (s.completes depth (textWith values gs) = true ↔ Absorbs values gs)
  -- nothing has been kept of the value that the operand is
  missing : ∀ depth, having.completes depth (textWithZeros gs) = true →
    (wanting.completes depth (textWith values gs) = true ↔
      StartsNegated values gs ∧ Absorbs values gs)
  -- the minus behind such a value has been taken for a sign
  negated : ∀ depth, wanting.completes depth (textWithZeros gs) = true →
    (signed.completes depth (textWith values gs) = true ↔
      (∃ g ∈ gs.head?, StartsUnsigned values g) ∧ Absorbs values gs)

theorem Tracks.nil : Tracks values [] where
  inStep s depth h := by
    show s.completes depth [] = true ↔ True
    rw [iff_true]
    exact h
  missing depth _ := by simp [textWith, completes, endsOperand, StartsNegated]
  negated depth h := by cases h

namespace Tracks

variable {c : Char} {call : Call}

theorem inStep_char (h : Tracks values gs) {s : Stage}
    (hs : s.completes depth (c :: textWithZeros gs) = true) :
    s.completes depth (c :: textWith values gs) = true ↔ Absorbs values gs := by
  rcases hnext : s.next? depth c with _ | ⟨s', depth'⟩
  · rw [completes_cons_of_none hnext] at hs
    cases hs
  · rw [completes_cons_of_eq hnext] at hs ⊢
    exact h.inStep s' depth' hs

theorem missing_char (h : Tracks values gs)
    (hs : having.completes depth (c :: textWithZeros gs) = true) :
    wanting.completes depth (c :: textWith values gs) = true ↔
      StartsNegated values (.inl c :: gs) ∧ Absorbs values gs := by
  rw [StartsNegated]
  by_cases hblank : isBlank c = true
  · have hhaving : having.next? depth c = some (.having, depth) := if_pos hblank
    have hwanting : wanting.next? depth c = some (.wanting, depth) := if_pos hblank
    rw [completes_cons_of_eq hhaving] at hs
    rw [completes_cons_of_eq hwanting, h.missing depth hs, if_pos hblank]
  · rw [if_neg hblank]
    by_cases hminus : c = '-'
    · subst hminus
      have hhaving : having.next? depth '-' = some (.wanting, depth) := rfl
      have hwanting : wanting.next? depth '-' = some (.signed, depth) := rfl
      rw [completes_cons_of_eq hhaving] at hs
      rw [completes_cons_of_eq hwanting, h.negated depth hs]
      simp
    · have hnone : wanting.next? depth c = none := by
        rcases hnext : having.next? depth c with _ | next
        · rw [completes_cons_of_none hnext] at hs
          cases hs
        · rcases after?_cases hnext with hc | rfl | ⟨op, rfl⟩
          · exact absurd hc hblank
          · rfl
          · cases op with
            | subtract => exact absurd rfl hminus
            | _ => rfl
      rw [completes_cons_of_none hnone]
      simp [hminus]

theorem negated_char (h : Tracks values gs)
    (hs : wanting.completes depth (c :: textWithZeros gs) = true) :
    signed.completes depth (c :: textWith values gs) = true ↔
      (c.isDigit = true ∨ c = '.') ∧ Absorbs values gs := by
  by_cases hstart : c.isDigit = true ∨ c = '.'
  · rw [completes_signed_eq_wanting hstart, h.inStep_char hs]
    simp [hstart]
  · have hnone : signed.next? depth c = none := by
      obtain ⟨hdigit, hpoint⟩ := not_or.1 hstart
      simp [next?, hdigit, hpoint]
    rw [completes_cons_of_none hnone]
    simp [hstart]

theorem cons_char (h : Tracks values gs) : Tracks values (.inl c :: gs) where
  inStep _ _ := h.inStep_char
  missing _ := h.missing_char
  negated depth hs := by
    refine (h.negated_char hs).trans ?_
    simp [StartsUnsigned, Absorbs]

/-- A value is an operand, or nothing or a sign is in its place. -/
theorem inStep_call (h : Tracks values gs)
    (hs : having.completes depth (textWithZeros gs) = true) :
    wanting.completes depth (keptText (values call) ++ textWith values gs) = true ↔
      Absorbs values (.inr call :: gs) := by
  have hends := endsNumber_textWith hs values
  rw [Absorbs]
  rcases hfinite : (values call).isFinite with _ | _
  · rw [keptText_of_not_isFinite hfinite]
    split
    · rename_i hsign
      have hminus : wanting.completes depth (['-'] ++ textWith values gs) = false :=
        signed_of_endsNumber hends
      rw [hminus]
      simp [hsign]
    · rename_i hsign
      rw [List.nil_append, h.missing depth hs]
      simp [hsign]
  · obtain ⟨n, hn, -⟩ := keptText_of_isFinite hfinite
    rw [← hn, n.completes_of_endsNumber hends, h.inStep having depth hs]
    simp

/-- Behind a sign, only a value without one is an operand. -/
theorem negated_call (h : Tracks values gs)
    (hs : having.completes depth (textWithZeros gs) = true) :
    signed.completes depth (keptText (values call) ++ textWith values gs) = true ↔
      StartsUnsigned values (.inr call) ∧ Absorbs values (.inr call :: gs) := by
  have hends := endsNumber_textWith hs values
  have hminus : ∀ cs, signed.completes depth (['-'] ++ cs) = false := completes_cons_of_none rfl
  rw [StartsUnsigned, Absorbs]
  rcases hfinite : (values call).isFinite with _ | _
  · rw [keptText_of_not_isFinite hfinite]
    split
    · rw [hminus]
      simp
    · rw [List.nil_append, signed_of_endsNumber hends]
      simp
  · obtain ⟨n, hn, hsign⟩ := keptText_of_isFinite hfinite
    rw [← hn, n.chars_eq_unsigned, hsign]
    rcases n.1.negative with _ | _
    · rw [if_neg Bool.false_ne_true, List.nil_append,
        n.completes_unsigned_of_endsNumber (.inr rfl) hends, h.inStep having depth hs]
      simp
    · rw [if_pos rfl, List.append_assoc, hminus]
      simp

theorem cons_call (h : Tracks values gs) : Tracks values (.inr call :: gs) where
  inStep s depth hs := by
    rw [completes_zeroText, Bool.and_eq_true, beq_iff_eq] at hs
    obtain ⟨rfl, hs⟩ := hs
    exact h.inStep_call hs
  missing depth hs := by cases hs
  negated depth hs := by
    rw [completes_zeroText, Bool.and_eq_true] at hs
    refine (h.negated_call hs.2).trans ?_
    simp

end Tracks

theorem tracks (values : Call → Float) : ∀ gs, Tracks values gs
  | [] => .nil
  | .inl _ :: gs => (tracks values gs).cons_char
  | .inr _ :: gs => (tracks values gs).cons_call

theorem completes_gap {s : Stage} (hs : s = wanting ∨ s = having) (rest : List Char) :
    ∀ {gap : List Char}, IsGap gap → s.completes depth (gap ++ rest) = s.completes depth rest
  | [], _ => rfl
  | c :: gap, h => by
    obtain ⟨hc, hgap⟩ := List.forall_mem_cons.1 h
    have hnext : s.next? depth c = some (s, depth) := by
      rcases hs with rfl | rfl <;> exact if_pos hc
    rw [List.cons_append, completes_cons_of_eq hnext, completes_gap hs rest hgap]

theorem textWithZeros_append (gs hs : List Glyph) :
    textWithZeros (gs ++ hs) = textWithZeros gs ++ textWithZeros hs :=
  List.flatMap_append ..

theorem isGap_textWithZeros {gap : List Glyph} (h : ∀ g ∈ gap, g.IsBlank) :
    IsGap (textWithZeros gap) := by
  intro d hd
  obtain ⟨g, hg, hmem⟩ := List.mem_flatMap.1 hd
  obtain ⟨c, rfl, hc⟩ := h g hg
  rwa [List.mem_singleton.1 hmem]

/-- Tokens that go on to the end of an expression are written by a text that does. -/
theorem completes_of_balanced : ∀ (tokens : List (Token (Literal ⊕ Call))) {afterOperand : Bool}
    {depth : Nat} {gs : List Glyph}, balanced depth afterOperand tokens = true →
      Spaced Glyph.IsBlank (tokens.map (Token.spelling leafGlyphs .inl)) gs →
        (if afterOperand then having else wanting).completes depth (textWithZeros gs) = true
  | [], afterOperand, depth, _, hb, .nil hgap => by
    rw [← List.append_nil (textWithZeros _),
      completes_gap (by cases afterOperand <;> simp) _ (isGap_textWithZeros hgap)]
    cases afterOperand <;> exact hb
  | token :: tokens, afterOperand, depth, _, hb, @Spaced.cons _ _ _ _ rest _ hgap hrest => by
    rw [textWithZeros_append, textWithZeros_append, List.append_assoc,
      completes_gap (by cases afterOperand <;> simp) _ (isGap_textWithZeros hgap)]
    -- the token takes its text along, and leads to where the others are read from
    have ih := fun (b : Bool) (d : Nat) (hb : balanced d b tokens = true) =>
      completes_of_balanced tokens hb hrest
    rcases token with (n | call) | op | _ | _
    · cases afterOperand with
      | false =>
        have hrest := ih true depth hb
        have hn : textWithZeros (n.chars.map .inl) = n.chars := flatMap_filled_inl n.chars
        show wanting.completes depth (textWithZeros (n.chars.map .inl) ++ _) = true
        rw [hn, n.completes_of_endsNumber (endsNumber_of_having hrest)]
        exact hrest
      | true => cases hb
    · cases afterOperand with
      | false => exact ih true depth hb
      | true => cases hb
    · cases afterOperand with
      | false => cases hb
      | true =>
        have hnext : having.next? depth op.char = some (.wanting, depth) := by cases op <;> rfl
        exact (completes_cons_of_eq hnext _).trans (ih false depth hb)
    · cases afterOperand with
      | false => exact ih false (depth + 1) hb
      | true => cases hb
    · cases afterOperand with
      | false => cases hb
      | true =>
        rcases depth with _ | depth
        · cases hb
        · exact ih true depth hb

theorem Expr.WrittenIn.completes {tree : Expr (Literal ⊕ Call)} {segments : List Segment}
    (h : tree.WrittenIn segments) :
    wanting.completes 0 (textWithZeros (segments.flatMap Segment.glyphs)) = true := by
  obtain ⟨tokens, hwritten, hspaced⟩ := h
  exact completes_of_balanced tokens (balanced_iff_writtenBy.2 ⟨tree, hwritten⟩) hspaced

/-! ### Formulas -/

variable {lookup : Lookup} {grid : Grid} {p : Place} {formula : String} {segments : List Segment}

theorem calculate_congr {cs ds : List Char} (h : keepArithmetic cs = keepArithmetic ds) :
    calculate cs = calculate ds := by
  unfold calculate
  rw [h]

theorem keepArithmetic_keptText (x : Float) : keepArithmetic (keptText x) = keptText x := by
  simp [keptText, keepArithmetic]

theorem evalFormula_eq_kept (hcut : cutFormula (trim (unmarked formula)) = .ok segments)
    (hvalues : ∀ call, .call call ∈ segments → call.value lookup grid p = .ok (values call)) :
    evalFormula lookup grid p formula
      = calculate (segments.flatMap (Segment.filled fun call => keptText (values call))) := by
  rw [evalFormula_eq_calculate hcut hvalues]
  refine calculate_congr ?_
  rw [keepArithmetic_filled, keepArithmetic_filled]
  simp only [keepArithmetic_keptText]
  rfl

theorem illFormed_iff_not_absorbs (hcut : cutFormula (trim (unmarked formula)) = .ok segments)
    (hvalues : ∀ call, .call call ∈ segments → call.value lookup grid p = .ok (values call))
    {tree : Expr (Literal ⊕ Call)} (htree : tree.WrittenIn segments) :
    IllFormed lookup grid p formula ↔ ¬ Absorbs values (segments.flatMap Segment.glyphs) := by
  have htext : keepArithmetic
      (segments.flatMap (Segment.filled fun call => plain.chars (values call)))
        = textWith values (segments.flatMap Segment.glyphs) := keepArithmetic_filled ..
  rw [IllFormed, evalFormula_eq_calculate hcut hvalues, calculate_parse_iff, htext,
    ← (tracks values _).inStep wanting 0 htree.completes, Bool.not_eq_true]

/-- Of a value that is not finite no more than the sign takes part in the calculation of a formula.
One that writes a tree is ill-formed then, unless no such value has a sign and behind each of them a
minus is taken for the sign of the number that follows. -/
theorem evalFormula_of_not_finite (hcut : cutFormula (trim (unmarked formula)) = .ok segments)
    (hvalues : ∀ call, .call call ∈ segments → call.value lookup grid p = .ok (values call)) :
    evalFormula lookup grid p formula
      = calculate (segments.flatMap (Segment.filled fun call => keptText (values call))) ∧
    (∀ call, .call call ∈ segments → (values call).isFinite = false →
      keptText (values call) = if '-' ∈ plain.chars (values call) then ['-'] else []) ∧
    ∀ tree : Expr (Literal ⊕ Call), tree.WrittenIn segments →
      (IllFormed lookup grid p formula ↔ ¬ Absorbs values (segments.flatMap Segment.glyphs)) :=
  ⟨evalFormula_eq_kept hcut hvalues, fun _ _ => keptText_of_not_isFinite,
    fun _ => illFormed_iff_not_absorbs hcut hvalues⟩

/-- A row whose sum is infinite and a formula with the sum. -/
def overflowingRow (formula : String) : Grid :=
  Grid.ofTexts [["1e308", "1e308", formula]]

/-- The segments of `SUM(row)-5`. -/
def reducedSum : List Segment :=
  [.call (.aggregate .sum .row false none), .text ['-', '5']]

theorem cutFormula_reducedSum :
    cutFormula (trim (unmarked "=SUM(row)-5")) = .ok reducedSum := by
  decide +kernel

theorem value_reducedSum : ∀ call, .call call ∈ reducedSum →
    call.value .empty (overflowingRow "=SUM(row)-5") ⟨0, 2⟩ = .ok (1 / 0) := by
  intro call hcall
  obtain rfl : call = .aggregate .sum .row false none := by simpa [reducedSum] using hcall
  decide +kernel

theorem evalFormula_of_not_finite_overflow :
    let values : Call → Float := fun _ => 1 / 0
    cutFormula (trim (unmarked "=SUM(row)-5")) = .ok reducedSum ∧
      (∀ call, .call call ∈ reducedSum →
        call.value .empty (overflowingRow "=SUM(row)-5") ⟨0, 2⟩ = .ok (values call)) ∧
      evalFormula .empty (overflowingRow "=SUM(row)-5") ⟨0, 2⟩ "=SUM(row)-5"
        = calculate ['-', '5'] := by
  intro values
  have hvalues : ∀ call, .call call ∈ reducedSum →
      call.value .empty (overflowingRow "=SUM(row)-5") ⟨0, 2⟩ = .ok (values call) :=
    value_reducedSum
  obtain ⟨heval, hkept, -⟩ := evalFormula_of_not_finite cutFormula_reducedSum hvalues
  refine ⟨cutFormula_reducedSum, hvalues, ?_⟩
  have hnothing := hkept (.aggregate .sum .row false none) List.mem_cons_self (by decide +kernel)
  rw [if_neg (by decide +kernel)] at hnothing
  rw [heval, reducedSum, List.flatMap_cons, Segment.filled, hnothing]
  rfl

/-- The tree that `SUM(row)-5` writes. -/
theorem tree_of_reducedSum {tree : Expr (Literal ⊕ Call)} (h : tree.WrittenIn reducedSum) :
    ∃ n : Literal, n.value = 5 ∧ tree = .binary .subtract
      (.leaf (.inr (.aggregate .sum .row false none))) (.leaf (.inl n)) := by
  have hparse : Expr.parse ['0', '-', '5'] = .ok (.binary .subtract (.leaf 0) (.leaf 5)) := by
    decide +kernel
  have hzero := parse_eq_ok_iff.2 ⟨_, h.writtenAs fun _ => .zero, rfl⟩
  have hmap : (tree.map (Sum.elim id fun _ => .zero)).map Literal.value
      = .binary .subtract (.leaf 0) (.leaf 5) := Except.ok.inj (hzero.symm.trans hparse)
  have hcalls : tree.leaves.filterMap Sum.getRight? = [.aggregate .sum .row false none] := h.calls
  rcases tree with leaf | ⟨op, left | _, right | _⟩
  · simp [Expr.map] at hmap
  · simp only [Expr.map, Expr.binary.injEq, Expr.leaf.injEq] at hmap
    obtain ⟨rfl, -, hright⟩ := hmap
    rcases right with n | call
    · rcases left with m | call
      · cases hcalls
      · cases hcalls
        exact ⟨n, hright, rfl⟩
    · have hne : Literal.zero.value ≠ 5 := by
        rw [Literal.value_zero]
        decide +kernel
      exact absurd hright hne
  all_goals simp [Expr.map] at hmap

theorem infinity_is_dropped :
    ¬ ∀ (formula : String) (lookup : Lookup) (grid : Grid) (p : Place) (segments : List Segment)
      (values : Call → Float), cutFormula (trim (unmarked formula)) = .ok segments →
        (∀ call, .call call ∈ segments → call.value lookup grid p = .ok (values call)) →
        (∃ call, .call call ∈ segments ∧ (values call).isFinite = false) →
        (∃ e, evalFormula lookup grid p formula = .error e) ∨
          ∃ tree : Expr (Literal ⊕ Call), tree.WrittenIn segments ∧
            evalFormula lookup grid p formula
              = (tree.map (Sum.elim Literal.value values)).evaluate := by
  intro hall
  have hresult : evalFormula .empty (overflowingRow "=SUM(row)-5") ⟨0, 2⟩ "=SUM(row)-5"
      = .ok (-5) := by decide +kernel
  rcases hall "=SUM(row)-5" .empty _ ⟨0, 2⟩ reducedSum (fun _ => 1 / 0) cutFormula_reducedSum
      value_reducedSum ⟨_, List.mem_cons_self, by decide +kernel⟩ with ⟨e, he⟩ | ⟨tree, htree, he⟩
  · rw [hresult] at he
    cases he
  · obtain ⟨n, hn, rfl⟩ := tree_of_reducedSum htree
    have hvalue : (Expr.binary .subtract (.leaf (1 / 0)) (.leaf n.value)).evaluate
        = .ok (1 / 0 : Float) := by
      rw [hn]
      decide +kernel
    have hsame : (.ok (-5) : Except FormulaError Float) = .ok (1 / 0) :=
      hresult.symm.trans (he.trans hvalue)
    exact absurd hsame (by decide +kernel)

end ComputedTables
