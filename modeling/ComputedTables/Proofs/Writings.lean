import ComputedTables.Formula.Arithmetic
import ComputedTables.Proofs.DecimalsRead
import ComputedTables.Proofs.Grammar

/-!
# Texts that write an expression

A text writes an expression if it spells tokens that do, with blanks before, between and after them
but none inside a literal (`Expr.WrittenAs`).  Operands and operators take turns in such tokens, so
a minus is a sign where an operand is to start and an operator elsewhere, and cutting the text gives
back the tokens (`ofChars_of_spells`); whatever a text is cut into without a fault, it spells
(`spells_of_ofChars`).  So reading a text gives the one expression that it writes, and a text that
writes none is refused (`parse_eq_ok_iff`).
-/

namespace ComputedTables

open Decimal (takeDigits IsNearest decimalSize)

/-! ### Spelling -/

/-- The pieces one after the other, with blanks before, between and after them. -/
inductive Spaced {γ : Type} (blank : γ → Prop) : List (List γ) → List γ → Prop
  | nil {gap : List γ} : (∀ c ∈ gap, blank c) → Spaced blank [] gap
  | cons {gap piece rest : List γ} {pieces : List (List γ)} : (∀ c ∈ gap, blank c) →
      Spaced blank pieces rest → Spaced blank (piece :: pieces) (gap ++ piece ++ rest)

theorem Spaced.cons_blank {γ : Type} {blank : γ → Prop} {pieces : List (List γ)} {cs : List γ}
    (h : Spaced blank pieces cs) {c : γ} (hc : blank c) : Spaced blank pieces (c :: cs) := by
  cases h with
  | nil hgap => exact .nil (List.forall_mem_cons.2 ⟨hc, hgap⟩)
  | cons hgap hrest => exact .cons (List.forall_mem_cons.2 ⟨hc, hgap⟩) hrest

theorem Spaced.cons_piece {γ : Type} {blank : γ → Prop} {pieces : List (List γ)} {cs : List γ}
    (h : Spaced blank pieces cs) (piece : List γ) :
    Spaced blank (piece :: pieces) (piece ++ cs) :=
  .cons (List.forall_mem_nil _) h

/-- Digits before and after an optional point, at least one of them, behind an optional minus. -/
structure WrittenNumber.IsLiteral (n : WrittenNumber) : Prop where
  whole : ∀ c ∈ n.whole, c.isDigit = true
  fraction : ∀ c ∈ n.fraction, c.isDigit = true
  pointed : n.pointed = false → n.fraction = []
  hasDigit : n.whole ≠ [] ∨ n.fraction ≠ []

/-- A number as it may be written in an expression. -/
def Literal : Type :=
  { n : WrittenNumber // n.IsLiteral }

def Literal.chars (n : Literal) : List Char :=
  n.1.chars

def Literal.value (n : Literal) : Float :=
  Decimal.nearest n.1.negative n.1.whole n.1.fraction 0

def Operator.char : Operator → Char
  | .add => '+'
  | .subtract => '-'
  | .multiply => '*'
  | .divide => '/'

/-- How a token is written, given how leaves and single characters are. -/
def Token.spelling {α γ : Type} (leaf : α → List γ) (char : Char → γ) : Token α → List γ
  | .number value => leaf value
  | .operator op => [char op.char]
  | .openParen => [char '(']
  | .closeParen => [char ')']

def Token.chars : Token Literal → List Char :=
  Token.spelling Literal.chars id

/-- The text is the tokens one after the other, with blanks before, between and after them. -/
abbrev Spells (tokens : List (Token Literal)) (cs : List Char) : Prop :=
  Spaced (fun c => Text.isBlank c = true) (tokens.map Token.chars) cs

/-- A text writes an expression: it spells tokens that write it. -/
def Expr.WrittenAs (tree : Expr Literal) (cs : List Char) : Prop :=
  ∃ tokens, tree.WrittenBy 0 tokens ∧ Spells tokens cs

/-! ### Numbers -/

/-- A number does not go on in the text. -/
def EndsNumber (cs : List Char) : Prop :=
  ∀ c ∈ cs.head?, c.isDigit = false ∧ c ≠ '.'

theorem takeDigits_append {digits rest : List Char} (hd : ∀ c ∈ digits, c.isDigit = true)
    (hr : ∀ c ∈ rest.head?, c.isDigit = false) : takeDigits (digits ++ rest) = (digits, rest) :=
  Prod.ext (takeWhile_append_of_stop hd hr) (dropWhile_append_of_stop hd hr)

theorem takeUnsigned_chars {n : WrittenNumber} (h : n.IsLiteral) {rest : List Char}
    (hr : EndsNumber rest) : takeUnsigned n.negative
      (n.whole ++ (if n.pointed then ['.'] else []) ++ n.fraction ++ rest) = (n, rest) := by
  obtain ⟨negative, whole, pointed, fraction⟩ := n
  obtain ⟨hw, hf, hp, -⟩ := h
  dsimp only at hw hf hp
  unfold takeUnsigned
  rcases pointed with _ | _
  · obtain rfl := hp rfl
    have htake := takeDigits_append hw fun c hc => (hr c hc).1
    simp only [Bool.false_eq_true, ↓reduceIte, List.append_nil, htake]
    split
    · exact absurd rfl (hr '.' rfl).2
    · rfl
  · have htake : takeDigits (whole ++ '.' :: (fraction ++ rest))
        = (whole, '.' :: (fraction ++ rest)) := takeDigits_append hw (by simp)
    have htail := takeDigits_append hf fun c hc => (hr c hc).1
    simp [htake, htail]

theorem takeNumber_unsigned {cs : List Char} (h : cs.head? ≠ some '-') :
    takeNumber cs = takeUnsigned false cs := by
  unfold takeNumber
  split
  · exact absurd rfl h
  · rfl

/-- The first character of a literal is no blank, and starts a number where none has ended. -/
theorem Literal.exists_cons (n : Literal) : ∃ c cs, n.chars = c :: cs ∧
    Text.isBlank c = false ∧ startsNumber false c = true ∧ (c = '-' ↔ n.1.negative = true) := by
  obtain ⟨⟨negative, whole, pointed, fraction⟩, hw, hf, hp, hd⟩ := n
  have hdigit : ∀ c : Char, c.isDigit = true → Text.isBlank c = false ∧
      startsNumber false c = true ∧ c ≠ '-' := by
    refine fun c hc => ⟨Text.isBlank_of_isWord (Text.isWord_of_isDigit hc), ?_, ?_⟩
    · simp [startsNumber, hc]
    · rintro rfl
      cases hc
  dsimp only at hw hf hp hd
  rcases negative with _ | _
  · rcases whole with _ | ⟨c, whole⟩
    · have hpointed : pointed = true := by
        by_contra hpointed
        simp [hp (Bool.eq_false_iff.2 hpointed)] at hd
      subst hpointed
      exact ⟨'.', fraction, rfl, by decide, by decide, by simp⟩
    · obtain ⟨hblank, hstarts, hminus⟩ := hdigit c (hw c List.mem_cons_self)
      exact ⟨c, _, rfl, hblank, hstarts, by simp [hminus]⟩
  · exact ⟨'-', _, rfl, by decide, by decide, by simp⟩

theorem takeNumber_chars (n : Literal) {rest : List Char} (hr : EndsNumber rest) :
    takeNumber (n.chars ++ rest) = (n.1, rest) := by
  have htake := takeUnsigned_chars n.2 hr
  rcases hn : n.1.negative with _ | _
  · obtain ⟨c, cs, hcs, -, -, hc⟩ := n.exists_cons
    rw [takeNumber_unsigned]
    · rw [hn] at htake
      simpa [Literal.chars, WrittenNumber.chars, hn] using htake
    · rw [hcs]
      simp [hn] at hc
      simpa using hc
  · rw [hn] at htake
    simpa [Literal.chars, WrittenNumber.chars, hn, takeNumber] using htake

/-! ### From tokens to text -/

theorem ofChars_blank {c : Char} (h : Text.isBlank c = true) (afterOperand : Bool)
    (cs : List Char) : Lexed.ofChars afterOperand (c :: cs) = Lexed.ofChars afterOperand cs := by
  rw [Lexed.ofChars, if_pos h]

theorem ofChars_gap (afterOperand : Bool) (cs : List Char) : ∀ (gap : List Char), Text.IsGap gap →
      Lexed.ofChars afterOperand (gap ++ cs) = Lexed.ofChars afterOperand cs
  | [], _ => rfl
  | c :: gap, h => by
    rw [List.cons_append, ofChars_blank (h c List.mem_cons_self),
      ofChars_gap afterOperand cs gap fun d hd => h d (List.mem_cons_of_mem _ hd)]

theorem ofChars_nil (afterOperand : Bool) : Lexed.ofChars afterOperand [] = {} := by
  rw [Lexed.ofChars]

theorem ofChars_literal (n : Literal) {rest : List Char} (hr : EndsNumber rest) :
    Lexed.ofChars false (n.chars ++ rest)
      = (Lexed.ofChars true rest).cons (.number n.value) := by
  obtain ⟨c, cs, hcs, hblank, hstarts, -⟩ := n.exists_cons
  have htake := takeNumber_chars n hr
  have hvalue : n.1.value? = some n.value := by
    unfold WrittenNumber.value? Literal.value
    rw [if_neg]
    simpa [-not_and, not_and_or] using n.2.hasDigit
  rw [hcs, List.cons_append] at htake ⊢
  rw [Lexed.ofChars]
  simp [hblank, hstarts, htake, hvalue]

theorem ofChars_char {afterOperand : Bool} {c : Char} {token : Token Float}
    (hblank : Text.isBlank c = false) (hstarts : startsNumber afterOperand c = false)
    (h : Token.ofChar? c = some token) (cs : List Char) :
    Lexed.ofChars afterOperand (c :: cs)
      = (Lexed.ofChars token.endsOperand cs).cons token := by
  rw [Lexed.ofChars]
  simp [hblank, hstarts, h]

theorem endsNumber_of_spells {tokens : List (Token Literal)} {cs : List Char}
    (ha : Alternates true tokens)
    (h : Spells tokens cs) : EndsNumber cs := by
  have hblank : ∀ c, Text.isBlank c = true → c.isDigit = false ∧ c ≠ '.' := by
    refine fun c hc => ⟨Bool.eq_false_iff.2 fun hd => ?_, ?_⟩
    · rw [Text.isBlank_of_isWord (Text.isWord_of_isDigit hd)] at hc
      cases hc
    · rintro rfl
      revert hc
      decide
  rcases tokens with _ | ⟨token, tokens⟩
  · cases h with
    | nil hgap => exact fun c hc => hblank c (hgap c (List.mem_of_mem_head? hc))
  · cases h with
    | @cons gap _ rest _ hgap hrest =>
      rcases gap with _ | ⟨c, gap⟩
      · -- what follows an operand starts with an operator or a parenthesis
        rcases token with n | op | _ | _
        · cases ha.1
        · rcases op <;> exact fun c hc => by cases hc; decide
        · cases ha.1
        · exact fun c hc => by cases hc; decide
      · exact fun d hd => by cases hd; exact hblank c (hgap c List.mem_cons_self)

/-- Cutting a text that spells tokens in which operands and operators take turns gives them back. -/
theorem ofChars_of_spells : ∀ (tokens : List (Token Literal)) {afterOperand : Bool}
    {cs : List Char}, Alternates afterOperand tokens → Spells tokens cs →
      Lexed.ofChars afterOperand cs = { tokens := tokens.map (Token.map Literal.value) }
  | [], afterOperand, _, _, .nil hgap => by
    have := ofChars_gap afterOperand [] _ hgap
    rwa [List.append_nil, ofChars_nil] at this
  | token :: tokens, afterOperand, _, ha, @Spaced.cons _ _ _ _ rest _ hgap hrest => by
    have ih := ofChars_of_spells tokens ha.2 hrest
    rw [List.append_assoc, ofChars_gap _ _ _ hgap]
    rcases token with n | op | _ | _
    · obtain rfl : afterOperand = false := by simpa [Token.startsOperand] using ha.1
      rw [Token.chars, Token.spelling, ofChars_literal n (endsNumber_of_spells ha.2 hrest)]
      exact congrArg _ ih
    · obtain rfl : afterOperand = true := by simpa [Token.startsOperand] using ha.1
      have hblank : Text.isBlank op.char = false := by cases op <;> decide
      have hstarts : startsNumber true op.char = false := by cases op <;> decide
      have htoken : Token.ofChar? op.char = some (.operator op) := by cases op <;> rfl
      exact (ofChars_char hblank hstarts htoken rest).trans (congrArg _ ih)
    · have hstarts : startsNumber afterOperand '(' = false := by cases afterOperand <;> decide
      exact (ofChars_char (by decide) hstarts rfl rest).trans (congrArg _ ih)
    · have hstarts : startsNumber afterOperand ')' = false := by cases afterOperand <;> decide
      exact (ofChars_char (by decide) hstarts rfl rest).trans (congrArg _ ih)

/-! ### From text to tokens -/

theorem takeDigits_spec (cs : List Char) : (∀ c ∈ (takeDigits cs).1, c.isDigit = true) ∧
    (∀ c ∈ (takeDigits cs).2.head?, c.isDigit = false) ∧
      (takeDigits cs).1 ++ (takeDigits cs).2 = cs :=
  takeWhile_spec Char.isDigit cs

theorem takeUnsigned_spec (negative : Bool) (cs : List Char) :
    let n := (takeUnsigned negative cs).1
    n.negative = negative ∧ (∀ c ∈ n.whole, c.isDigit = true) ∧
      (∀ c ∈ n.fraction, c.isDigit = true) ∧ (n.pointed = false → n.fraction = []) ∧
      n.whole ++ (if n.pointed then ['.'] else []) ++ n.fraction ++ (takeUnsigned negative cs).2
        = cs := by
  obtain ⟨hdigits, -, hwhole⟩ := takeDigits_spec cs
  unfold takeUnsigned
  dsimp only
  split
  · rename_i afterPoint hrest
    obtain ⟨hfraction, -, happend⟩ := takeDigits_spec afterPoint
    refine ⟨rfl, hdigits, hfraction, nofun, ?_⟩
    simpa [happend, hrest] using hwhole
  · exact ⟨rfl, hdigits, nofun, fun _ => rfl, by simpa using hwhole⟩

theorem takeNumber_spec {cs : List Char} {value : Float}
    (h : (takeNumber cs).1.value? = some value) :
    ∃ n : Literal, n.1 = (takeNumber cs).1 ∧ n.value = value ∧
      n.chars ++ (takeNumber cs).2 = cs := by
  have hspec : ∃ negative unsigned, takeNumber cs = takeUnsigned negative unsigned ∧
      (if negative then ['-'] else []) ++ unsigned = cs := by
    unfold takeNumber
    split
    · exact ⟨true, _, rfl, rfl⟩
    · exact ⟨false, _, rfl, rfl⟩
  obtain ⟨negative, unsigned, htake, hcs⟩ := hspec
  rw [htake] at h ⊢
  obtain ⟨hnegative, hw, hf, hp, happend⟩ := takeUnsigned_spec negative unsigned
  unfold WrittenNumber.value? at h
  split at h
  · cases h
  · rename_i hd
    refine ⟨⟨_, hw, hf, hp, ?_⟩, rfl, Option.some.inj h, ?_⟩
    · simpa [-not_and, not_and_or] using hd
    · unfold Literal.chars WrittenNumber.chars
      rw [hnegative, List.append_assoc, List.append_assoc, List.append_assoc]
      rw [List.append_assoc, List.append_assoc] at happend
      rw [happend, hcs]

theorem ofChar?_spec {c : Char} {token : Token Float} (h : Token.ofChar? c = some token) :
    ∃ t : Token Literal, t.map Literal.value = token ∧ t.chars = [c] := by
  unfold Token.ofChar? at h
  split at h <;> cases h
  · exact ⟨.operator .add, rfl, rfl⟩
  · exact ⟨.operator .subtract, rfl, rfl⟩
  · exact ⟨.operator .multiply, rfl, rfl⟩
  · exact ⟨.operator .divide, rfl, rfl⟩
  · exact ⟨.openParen, rfl, rfl⟩
  · exact ⟨.closeParen, rfl, rfl⟩

/-- A text that is cut without a fault spells what it is cut into. -/
theorem spells_of_ofChars (afterOperand : Bool) (cs : List Char)
    (h : (Lexed.ofChars afterOperand cs).fault = none) : ∃ tokens : List (Token Literal),
      (Lexed.ofChars afterOperand cs).tokens = tokens.map (Token.map Literal.value) ∧
      Spells tokens cs := by
  fun_induction Lexed.ofChars afterOperand cs with
  | case1 => exact ⟨[], rfl, .nil (by simp)⟩
  | case2 afterOperand c rest hblank ih =>
    obtain ⟨tokens, htokens, hspaced⟩ := ih h
    exact ⟨tokens, htokens, hspaced.cons_blank hblank⟩
  | case3 afterOperand c rest _ _ value hvalue ih =>
    obtain ⟨tokens, htokens, hspaced⟩ := ih h
    obtain ⟨n, -, hv, hchars⟩ := takeNumber_spec hvalue
    refine ⟨.number n :: tokens, ?_, ?_⟩
    · simp [Lexed.cons, htokens, Token.map, hv]
    · rw [← hchars]
      exact hspaced.cons_piece n.chars
  | case4 => cases h
  | case5 afterOperand c rest _ _ token htoken ih =>
    obtain ⟨tokens, htokens, hspaced⟩ := ih h
    obtain ⟨t, ht, hc⟩ := ofChar?_spec htoken
    refine ⟨t :: tokens, ?_, ?_⟩
    · simp [Lexed.cons, htokens, ht]
    · show Spaced _ (t.chars :: _) _
      rw [hc]
      exact hspaced.cons_piece [c]
  | case6 => cases h

/-! ### Reading a text -/

theorem Lexed.expr_eq_ok_iff {l : Lexed} {expr : Expr Float} :
    l.expr = .ok expr ↔ l.fault = none ∧ expr.WrittenBy 0 l.tokens := by
  rw [← Expr.ofTokens_eq_ok_iff]
  unfold Lexed.expr Expr.ofTokens
  rcases l.tokens.foldlM Reading.step Reading.start with fault | reading
  · simp [bind, Except.bind]
  · rcases l.fault with _ | fault
    · rcases hf : reading.finish with fault | e <;> simp [bind, Except.bind, hf]
    · simp only [reduceCtorEq, false_and, iff_false]
      split <;> simp

/-- Reading a text gives an expression exactly if the text writes it, with a literal for each
leaf. -/
theorem parse_eq_ok_iff {cs : List Char} {expr : Expr Float} :
    Expr.parse cs = .ok expr ↔
      ∃ tree : Expr Literal, tree.WrittenAs cs ∧ tree.map Literal.value = expr := by
  unfold Expr.parse
  rw [Lexed.expr_eq_ok_iff]
  constructor
  · rintro ⟨hfault, hwritten⟩
    obtain ⟨tokens, htokens, hspaced⟩ := spells_of_ofChars false cs hfault
    rw [htokens, Expr.writtenBy_map_iff] at hwritten
    obtain ⟨tree, htree, hmap⟩ := hwritten
    exact ⟨tree, ⟨tokens, htree, hspaced⟩, hmap⟩
  · rintro ⟨tree, ⟨tokens, htree, hspaced⟩, hmap⟩
    have halternates : Alternates false (tokens ++ []) := htree.alternates trivial
    rw [List.append_nil] at halternates
    rw [ofChars_of_spells tokens halternates hspaced]
    exact ⟨rfl, (Expr.writtenBy_map_iff Literal.value).2 ⟨tree, htree, hmap⟩⟩

theorem isGap_of_trim_eq_nil {cs : List Char} (h : Text.trim cs = []) : Text.IsGap cs := by
  have hdrop : Text.dropBlanks cs = [] := by
    have hall : Text.IsGap (Text.dropBlanks cs) := by
      simpa [Text.IsGap, Text.trim, Text.dropBlanksEnd, Text.dropBlanks, List.dropWhile_eq_nil_iff]
        using h
    by_contra hne
    have hhead := List.head_dropWhile_not (p := Text.isBlank) hne
    have := hall _ (List.head_mem hne)
    simp [Text.dropBlanks] at this
    simp [this] at hhead
  exact List.dropWhile_eq_nil_iff.1 hdrop

theorem not_writtenAs_of_blank {cs : List Char} (h : Text.trim cs = []) (tree : Expr Literal) :
    ¬ tree.WrittenAs cs := by
  intro hwritten
  have hparse := parse_eq_ok_iff.2 ⟨tree, hwritten, rfl⟩
  have hlexed : Lexed.ofChars false cs = {} := by
    have := ofChars_gap false [] cs (isGap_of_trim_eq_nil h)
    rwa [List.append_nil, ofChars_nil] at this
  unfold Expr.parse at hparse
  rw [hlexed] at hparse
  cases hparse

theorem calculate_of_writtenAs {cs : List Char} {tree : Expr Literal}
    (h : tree.WrittenAs (keepArithmetic cs)) :
    calculate cs = (tree.map Literal.value).evaluate := by
  unfold calculate
  dsimp only
  rw [if_neg fun hblank => not_writtenAs_of_blank hblank tree h,
    parse_eq_ok_iff.2 ⟨tree, h, rfl⟩]

theorem calculate_of_not_writtenAs {cs : List Char}
    (h : ∀ tree : Expr Literal, ¬ tree.WrittenAs (keepArithmetic cs)) :
    ∃ fault, calculate cs = .error (.parse fault) := by
  unfold calculate
  dsimp only
  split
  · exact ⟨_, rfl⟩
  · rcases hp : Expr.parse (keepArithmetic cs) with fault | expr
    · exact ⟨fault, rfl⟩
    · obtain ⟨tree, htree, -⟩ := parse_eq_ok_iff.1 hp
      exact absurd htree (h tree)

/-! ### Division by zero -/

/-- The evaluation of an expression, the left operand first, comes to a division by a zero of
either sign. -/
inductive Expr.DividesByZero : Expr Float → Prop
  | left {op : Operator} {left right : Expr Float} :
      DividesByZero left → DividesByZero (.binary op left right)
  | right {op : Operator} {left right : Expr Float} {a : Float} : left.eval = some a →
      DividesByZero right → DividesByZero (.binary op left right)
  | here {left right : Expr Float} {a b : Float} : left.eval = some a → right.eval = some b →
      b = 0.0 ∨ b = -0.0 → DividesByZero (.binary .divide left right)

theorem beq_zero_iff {b : Float} : (b == 0) = true ↔ b = 0.0 ∨ b = -0.0 := by
  constructor
  · intro h
    obtain ⟨-, -, rfl | ⟨rfl, -⟩ | ⟨rfl, -⟩⟩ := Float.beq_iff_ne_nan_and_eq.1 h
    · exact .inl (by decide)
    · exact .inl (by decide)
    · exact .inr (by decide)
  · rintro (rfl | rfl) <;> decide

theorem Operator.apply_eq_none_iff {op : Operator} {a b : Float} :
    op.apply a b = none ↔ op = .divide ∧ (b = 0.0 ∨ b = -0.0) := by
  cases op <;> simp [Operator.apply, ← beq_zero_iff]

theorem Expr.eval_eq_none_iff : ∀ {expr : Expr Float}, expr.eval = none ↔ expr.DividesByZero
  | .leaf value => ⟨nofun, nofun⟩
  | .binary op left right => by
    have ihl : left.eval = none ↔ left.DividesByZero := Expr.eval_eq_none_iff
    have ihr : right.eval = none ↔ right.DividesByZero := Expr.eval_eq_none_iff
    rcases hl : left.eval with _ | a
    · simp [Expr.eval, hl, DividesByZero.left (ihl.1 hl)]
    · rcases hr : right.eval with _ | b
      · simp [Expr.eval, hl, hr, DividesByZero.right hl (ihr.1 hr)]
      · have happly : (Expr.binary op left right).eval = op.apply a b := by
          simp [Expr.eval, hl, hr]
        rw [happly, Operator.apply_eq_none_iff]
        constructor
        · rintro ⟨rfl, hb⟩
          exact .here hl hr hb
        · intro h
          cases h with
          | left h => simp [ihl.2 h] at hl
          | right _ h => simp [ihr.2 h] at hr
          | here _ hr' hb =>
            rw [hr, Option.some.injEq] at hr'
            exact ⟨rfl, hr' ▸ hb⟩

theorem Expr.evaluate_eq_divisionByZero_iff {expr : Expr Float} :
    expr.evaluate = .error .divisionByZero ↔ expr.DividesByZero := by
  rw [← eval_eq_none_iff]
  unfold Expr.evaluate
  rcases expr.eval with _ | value <;> simp

theorem Expr.evaluate_ne_parse (expr : Expr Float) (fault : ParseFault) :
    expr.evaluate ≠ .error (.parse fault) := by
  unfold Expr.evaluate
  rcases expr.eval with _ | value <;> simp

theorem Literal.isNearest_value (n : Literal) :
    IsNearest n.1.negative (decimalSize n.1.whole n.1.fraction 0) n.value :=
  Decimal.isNearest_nearest n.1.negative n.2.whole n.2.fraction 0

/-- A text is read as the one expression that it writes, with the number nearest to each literal,
and is refused if it writes none.  So calculating a text fails to read it exactly if what is left of
it writes no expression, and divides by zero exactly if it writes one whose evaluation does. -/
theorem reads_what_is_written (cs : List Char) :
    (∀ n : Literal, IsNearest n.1.negative (decimalSize n.1.whole n.1.fraction 0) n.value) ∧
    (∀ expr, Expr.parse cs = .ok expr ↔
      ∃ tree : Expr Literal, tree.WrittenAs cs ∧ tree.map Literal.value = expr) ∧
    ((∃ fault, calculate cs = .error (.parse fault)) ↔
      ¬ ∃ tree : Expr Literal, tree.WrittenAs (keepArithmetic cs)) ∧
    (calculate cs = .error .divisionByZero ↔
      ∃ tree : Expr Literal, tree.WrittenAs (keepArithmetic cs) ∧
        (tree.map Literal.value).DividesByZero) := by
  refine ⟨Literal.isNearest_value, fun expr => parse_eq_ok_iff, ?_⟩
  by_cases h : ∃ tree : Expr Literal, tree.WrittenAs (keepArithmetic cs)
  · have hcalculate : ∀ tree : Expr Literal, tree.WrittenAs (keepArithmetic cs) →
        calculate cs = (tree.map Literal.value).evaluate := fun _ => calculate_of_writtenAs
    obtain ⟨tree, htree⟩ := h
    constructor
    · refine ⟨fun ⟨fault, hfault⟩ => ?_, fun hnone => absurd ⟨tree, htree⟩ hnone⟩
      rw [hcalculate tree htree] at hfault
      exact absurd hfault (Expr.evaluate_ne_parse _ fault)
    · refine ⟨fun hzero => ⟨tree, htree, ?_⟩, ?_⟩
      · rwa [hcalculate tree htree, Expr.evaluate_eq_divisionByZero_iff] at hzero
      · rintro ⟨other, hother, hzero⟩
        rwa [hcalculate other hother, Expr.evaluate_eq_divisionByZero_iff]
  · obtain ⟨fault, hfault⟩ := calculate_of_not_writtenAs fun tree htree => h ⟨tree, htree⟩
    refine ⟨⟨fun _ => h, fun _ => ⟨fault, hfault⟩⟩, ?_⟩
    rw [hfault]
    exact ⟨nofun, fun ⟨tree, htree, _⟩ => absurd ⟨tree, htree⟩ h⟩

end ComputedTables
