import Mathlib
import ComputedTables.Proofs.Writings

/-!
# Reading character by character

Whether a text writes an expression can be told from left to right with no more in mind than how
many parentheses are open and which part of an operand has been reached (`completes_iff`).  Cutting
a text into tokens and reading these comes to the same, one token at a time (`completes_ofChars`).
-/

namespace ComputedTables

open Text (isBlank)

/-! ### Tokens -/

/-- The tokens go on from where so many parentheses are open to the end of an expression. -/
def balanced {α : Type} (depth : Nat) (afterOperand : Bool) : List (Token α) → Bool
  | [] => afterOperand && depth == 0
  | token :: tokens =>
    match afterOperand, token, depth with
    | false, .number _, _ => balanced depth true tokens
    | false, .openParen, _ => balanced (depth + 1) false tokens
    | true, .operator _, _ => balanced depth false tokens
    | true, .closeParen, depth + 1 => balanced depth true tokens
    | _, _, _ => false

namespace Reading

variable {α : Type}

def depth : Reading α → Nat
  | .wanting _ around => around.length
  | .having _ _ around => around.length

def afterOperand : Reading α → Bool
  | .wanting .. => false
  | .having .. => true

theorem balanced_iff : ∀ (tokens : List (Token α)) (r : Reading α),
    balanced r.depth r.afterOperand tokens = true ↔
      ∃ last expr, tokens.foldlM step r = .ok last ∧ last.finish = .ok expr
  | [], .wanting here around => by
    simp [balanced, afterOperand, pure, Except.pure, finish]
  | [], .having operand here [] => by
    simp [balanced, depth, afterOperand, pure, Except.pure, finish]
  | [], .having operand here (_ :: _) => by
    simp [balanced, depth, afterOperand, pure, Except.pure, finish]
  | token :: tokens, r => by
    -- a step looks at the innermost parenthesis alone
    rw [List.foldlM_cons]
    rcases hstep : r.step token with fault | next
    · rcases r with ⟨here, around⟩ | ⟨operand, here, _ | ⟨outer, around⟩⟩ <;> cases token <;>
        cases hstep <;> simp [balanced, depth, afterOperand, bind, Except.bind]
    · have ih := balanced_iff tokens next
      rcases r with ⟨here, around⟩ | ⟨operand, here, _ | ⟨outer, around⟩⟩ <;> cases token <;>
        cases hstep <;> exact ih

end Reading

theorem balanced_iff_writtenBy {α : Type} {tokens : List (Token α)} :
    balanced 0 false tokens = true ↔ ∃ expr : Expr α, expr.WrittenBy 0 tokens := by
  simp only [← Expr.ofTokens_eq_ok_iff]
  refine (Reading.balanced_iff tokens Reading.start).trans ?_
  unfold Expr.ofTokens
  rcases tokens.foldlM Reading.step Reading.start with fault | last <;> simp [bind, Except.bind]

/-! ### Characters -/

/-- Which part of an operand has been reached. -/
inductive Stage where
  | wanting
  /-- Behind a sign. -/
  | signed
  /-- Behind digits. -/
  | whole
  /-- Behind a point with no digits in front of it. -/
  | point
  /-- Behind a point, and digits before or behind it. -/
  | fraction
  | having
  deriving DecidableEq, Repr

namespace Stage

/-- Whether an operand may end here. -/
def endsOperand : Stage → Bool
  | .whole | .fraction | .having => true
  | _ => false

/-- What follows a whole operand. -/
def after? (depth : Nat) (c : Char) : Option (Stage × Nat) :=
  if isBlank c then some (.having, depth)
  else
    match Token.ofChar? c with
    | some (.operator _) => some (.wanting, depth)
    | some .closeParen => if depth = 0 then none else some (.having, depth - 1)
    | _ => none

/-- Where a character leads to, and how many parentheses are open there. -/
def next? (s : Stage) (depth : Nat) (c : Char) : Option (Stage × Nat) :=
  match s with
  | .wanting =>
    if isBlank c then some (.wanting, depth)
    else if c = '-' then some (.signed, depth)
    else if c = '(' then some (.wanting, depth + 1)
    else if c.isDigit then some (.whole, depth)
    else if c = '.' then some (.point, depth)
    else none
  | .signed =>
    if c.isDigit then some (.whole, depth)
    else if c = '.' then some (.point, depth)
    else none
  | .whole =>
    if c.isDigit then some (.whole, depth)
    else if c = '.' then some (.fraction, depth)
    else after? depth c
  | .point => if c.isDigit then some (.fraction, depth) else none
  | .fraction => if c.isDigit then some (.fraction, depth) else after? depth c
  | .having => after? depth c

/-- The text goes on from a stage to the end of an expression. -/
def completes (s : Stage) (depth : Nat) : List Char → Bool
  | [] => s.endsOperand && depth == 0
  | c :: cs =>
    match s.next? depth c with
    | some (s, depth) => s.completes depth cs
    | none => false

variable {s : Stage} {depth : Nat} {c : Char} {cs : List Char}

theorem completes_cons_of_eq {s' : Stage} {depth' : Nat} (h : s.next? depth c = some (s', depth'))
    (cs : List Char) : s.completes depth (c :: cs) = s'.completes depth' cs := by
  rw [completes, h]

theorem completes_cons_of_none (h : s.next? depth c = none) (cs : List Char) :
    s.completes depth (c :: cs) = false := by
  rw [completes, h]

theorem completes_digits (hs : s = .whole ∨ s = .fraction) : ∀ {digits : List Char},
    (∀ c ∈ digits, c.isDigit = true) → ∀ rest,
      s.completes depth (digits ++ rest) = s.completes depth rest
  | [], _, _ => rfl
  | c :: digits, h, rest => by
    obtain ⟨hc, hdigits⟩ := List.forall_mem_cons.1 h
    have hnext : s.next? depth c = some (s, depth) := by
      rcases hs with rfl | rfl <;> exact if_pos hc
    rw [List.cons_append, completes_cons_of_eq hnext, completes_digits hs hdigits]

/-- A number that does not go on has ended. -/
theorem completes_of_endsNumber (hs : s = .whole ∨ s = .fraction) {rest : List Char}
    (hr : EndsNumber rest) : s.completes depth rest = having.completes depth rest := by
  rcases rest with _ | ⟨c, rest⟩
  · rcases hs with rfl | rfl <;> rfl
  · obtain ⟨hdigit, hpoint⟩ := hr c rfl
    have hnext : s.next? depth c = having.next? depth c := by
      rcases hs with rfl | rfl <;> simp [next?, hdigit, hpoint]
    rw [completes, completes, hnext]

theorem isBlank_of_digit_or_point (h : c.isDigit = true ∨ c = '.') : isBlank c = false := by
  rcases h with h | rfl
  · exact Text.isBlank_of_isWord (Text.isWord_of_isDigit h)
  · decide

theorem after?_eq_none (h : c.isDigit = true ∨ c = '.') : after? depth c = none := by
  have hblank := isBlank_of_digit_or_point h
  obtain ⟨h1, h2, h3, h4, h5, h6⟩ :
      c ≠ '+' ∧ c ≠ '-' ∧ c ≠ '*' ∧ c ≠ '/' ∧ c ≠ '(' ∧ c ≠ ')' := by
    refine ⟨?_, ?_, ?_, ?_, ?_, ?_⟩ <;> rintro rfl <;> simp [Char.isDigit] at h
  have htoken : Token.ofChar? c = none := by
    unfold Token.ofChar?
    split <;> first | contradiction | rfl
  rw [after?, htoken, hblank]
  rfl

theorem completes_having_number (h : c.isDigit = true ∨ c = '.') (cs : List Char) :
    having.completes depth (c :: cs) = false :=
  completes_cons_of_none (s := having) (after?_eq_none h) cs

/-- Where an unsigned number leads to. -/
def number? (pointed : Bool) : Stage → Option Stage
  | .wanting | .signed | .whole => some (if pointed then .fraction else .whole)
  | .point | .fraction => if pointed then none else some .fraction
  | .having => none

/-- What follows a number is read from where the number leads to. -/
def completesFrom (s : Option Stage) (depth : Nat) (cs : List Char) : Bool :=
  s.any (·.completes depth cs)

theorem next?_of_isDigit {c : Char} (hc : c.isDigit = true) (s : Stage) (depth : Nat) :
    s.next? depth c = (s.number? false).map (·, depth) := by
  have hblank := isBlank_of_digit_or_point (.inl hc)
  have hminus : c ≠ '-' := by
    rintro rfl
    cases hc
  have hparen : c ≠ '(' := by
    rintro rfl
    cases hc
  have hnone : after? depth c = none := after?_eq_none (.inl hc)
  cases s <;> simp [next?, number?, hc, hblank, hminus, hparen, hnone]

theorem completes_run {digits : List Char} (hne : digits ≠ []) (hd : ∀ c ∈ digits, c.isDigit = true)
    (s : Stage) (depth : Nat) (rest : List Char) :
    s.completes depth (digits ++ rest) = completesFrom (s.number? false) depth rest := by
  rcases digits with _ | ⟨c, digits⟩
  · exact absurd rfl hne
  · obtain ⟨hc, hdigits⟩ := List.forall_mem_cons.1 hd
    have hnext := next?_of_isDigit hc s depth
    rcases hs : s.number? false with _ | s'
    · rw [hs] at hnext
      exact completes_cons_of_none hnext _
    · rw [hs] at hnext
      have hstage : s' = .whole ∨ s' = .fraction := by
        cases s <;> simp [number?] at hs <;> simp [← hs]
      rw [List.cons_append, completes_cons_of_eq hnext, completes_digits hstage hdigits]
      rfl

theorem completes_point_cons (s : Stage) (depth : Nat) (cs : List Char) :
    s.completes depth ('.' :: cs) = match s with
      | .wanting | .signed => point.completes depth cs
      | .whole => fraction.completes depth cs
      | _ => false := by
  cases s <;> rfl

theorem signed_of_endsNumber {cs : List Char} (h : EndsNumber cs) :
    signed.completes depth cs = false := by
  rcases cs with _ | ⟨c, cs⟩
  · rfl
  · obtain ⟨hdigit, hpoint⟩ := h c rfl
    exact completes_cons_of_none (by simp [next?, hdigit, hpoint]) cs

theorem completes_fraction {rest : List Char} (hr : ∀ c ∈ rest.head?, c.isDigit = false) :
    fraction.completes depth rest = having.completes depth rest := by
  rcases rest with _ | ⟨c, rest⟩
  · rfl
  · have hnext : fraction.next? depth c = having.next? depth c := by simp [next?, hr c rfl]
    rw [completes, completes, hnext]

theorem completes_point {digits rest : List Char} (hd : ∀ c ∈ digits, c.isDigit = true)
    (hr : ∀ c ∈ rest.head?, c.isDigit = false) : point.completes depth (digits ++ rest)
      = (!digits.isEmpty && having.completes depth rest) := by
  rcases digits with _ | ⟨c, digits⟩
  · rcases rest with _ | ⟨c, rest⟩
    · rfl
    · exact completes_cons_of_none (by simp [next?, hr c rfl]) rest
  · rw [completes_run (List.cons_ne_nil c digits) hd]
    exact completes_fraction hr

theorem value?_isSome (n : WrittenNumber) :
    n.value?.isSome = !(n.whole.isEmpty && n.fraction.isEmpty) := by
  unfold WrittenNumber.value?
  rcases n.whole.isEmpty && n.fraction.isEmpty with _ | _ <;> rfl

/-- Behind a sign, the longest number has to have a digit, and what follows it goes on. -/
theorem completes_signed (negative : Bool) (cs : List Char) (depth : Nat) :
    signed.completes depth cs = ((takeUnsigned negative cs).1.value?.isSome &&
      having.completes depth (takeUnsigned negative cs).2) := by
  obtain ⟨hwhole, hrest, hcs⟩ := takeDigits_spec cs
  unfold takeUnsigned
  generalize Decimal.takeDigits cs = taken at hwhole hrest hcs
  obtain ⟨digits, rest⟩ := taken
  subst hcs
  dsimp only at hwhole hrest ⊢
  -- with a point, digits may be missing on either side of it, but not on both
  split
  · rename_i afterPoint
    obtain ⟨hfraction, hafter, happend⟩ := takeDigits_spec afterPoint
    rcases digits with _ | ⟨c, digits⟩
    · have hpoint : signed.completes depth ('.' :: afterPoint)
          = point.completes depth afterPoint := completes_point_cons signed depth afterPoint
      rw [List.nil_append, hpoint]
      conv_lhs => rw [← happend]
      rw [completes_point hfraction hafter]
      simp [value?_isSome]
    · have hpoint : completesFrom (signed.number? false) depth ('.' :: afterPoint)
          = fraction.completes depth afterPoint := completes_point_cons whole depth afterPoint
      rw [completes_run (List.cons_ne_nil c digits) hwhole, hpoint]
      conv_lhs => rw [← happend]
      rw [completes_digits (.inr rfl) hfraction, completes_fraction hafter]
      simp [value?_isSome]
  · rename_i hpoint
    have hends : EndsNumber rest := by
      rintro c hc
      refine ⟨hrest c hc, ?_⟩
      rintro rfl
      obtain ⟨tail, rfl⟩ := List.head?_eq_some_iff.1 hc
      exact hpoint tail rfl
    rcases digits with _ | ⟨c, digits⟩
    · rw [List.nil_append, signed_of_endsNumber hends]
      simp [value?_isSome]
    · have hended : completesFrom (signed.number? false) depth rest
          = having.completes depth rest := completes_of_endsNumber (.inl rfl) hends
      rw [completes_run (List.cons_ne_nil c digits) hwhole, hended]
      simp [value?_isSome]

/-- A number starts behind its sign as it does without one. -/
theorem completes_signed_eq_wanting (h : c.isDigit = true ∨ c = '.') (cs : List Char) :
    signed.completes depth (c :: cs) = wanting.completes depth (c :: cs) := by
  have hminus : c ≠ '-' := by
    rintro rfl
    simp [Char.isDigit] at h
  have hparen : c ≠ '(' := by
    rintro rfl
    simp [Char.isDigit] at h
  have hnext : signed.next? depth c = wanting.next? depth c := by
    simp [next?, isBlank_of_digit_or_point h, hminus, hparen]
  rw [completes, completes, hnext]

/-- Where an operand is wanted, the longest number has to have a digit, and what follows it goes
on. -/
theorem completes_wanting (h : startsNumber false c = true) (cs : List Char) (depth : Nat) :
    wanting.completes depth (c :: cs) = ((takeNumber (c :: cs)).1.value?.isSome &&
      having.completes depth (takeNumber (c :: cs)).2) := by
  by_cases hminus : c = '-'
  · subst hminus
    have hnext : wanting.next? depth '-' = some (.signed, depth) := rfl
    rw [completes_cons_of_eq hnext]
    exact completes_signed true cs depth
  · have hstart : c.isDigit = true ∨ c = '.' := by simpa [startsNumber, hminus] using h
    rw [← completes_signed_eq_wanting hstart, takeNumber_unsigned (by simpa using hminus)]
    exact completes_signed false (c :: cs) depth

theorem ofChar?_cases {token : Token Float} (h : Token.ofChar? c = some token) :
    (c = '(' ∧ token = .openParen) ∨ (c = ')' ∧ token = .closeParen) ∨
      ∃ op : Operator, c = op.char ∧ token = .operator op := by
  unfold Token.ofChar? at h
  split at h <;> cases h
  · exact .inr (.inr ⟨.add, rfl, rfl⟩)
  · exact .inr (.inr ⟨.subtract, rfl, rfl⟩)
  · exact .inr (.inr ⟨.multiply, rfl, rfl⟩)
  · exact .inr (.inr ⟨.divide, rfl, rfl⟩)
  · exact .inl ⟨rfl, rfl⟩
  · exact .inr (.inl ⟨rfl, rfl⟩)

theorem after?_cases {r : Stage × Nat} (h : after? depth c = some r) :
    isBlank c = true ∨ c = ')' ∨ ∃ op : Operator, c = op.char := by
  unfold after? at h
  split at h
  · exact .inl ‹_›
  · rcases htoken : Token.ofChar? c with _ | token
    · rw [htoken] at h
      cases h
    · rcases ofChar?_cases htoken with ⟨rfl, rfl⟩ | ⟨hc, -⟩ | ⟨op, hc, -⟩
      · cases h
      · exact .inr (.inl hc)
      · exact .inr (.inr ⟨op, hc⟩)

/-- A text goes on to the end of an expression exactly if it is cut without a fault, into tokens
that do. -/
theorem completes_ofChars (afterOperand : Bool) (depth : Nat) (cs : List Char) :
    (if afterOperand then having else wanting).completes depth cs
      = ((Lexed.ofChars afterOperand cs).fault.isNone &&
        balanced depth afterOperand (Lexed.ofChars afterOperand cs).tokens) := by
  fun_induction Lexed.ofChars afterOperand cs generalizing depth with
  | case1 afterOperand => cases afterOperand <;> rfl
  | case2 afterOperand c rest hblank ih =>
    rw [← ih]
    refine completes_cons_of_eq ?_ rest
    cases afterOperand <;> exact if_pos hblank
  | case3 afterOperand c rest _ hstarts value hvalue ih =>
    cases afterOperand with
    | false =>
      show wanting.completes depth (c :: rest) = _
      rw [completes_wanting hstarts, hvalue]
      exact ih depth
    | true =>
      have hnumber : c.isDigit = true ∨ c = '.' := by simpa [startsNumber] using hstarts
      exact (completes_having_number hnumber rest).trans (Bool.and_false _).symm
  | case4 afterOperand c rest _ hstarts hvalue =>
    cases afterOperand with
    | false =>
      show wanting.completes depth (c :: rest) = _
      rw [completes_wanting hstarts, hvalue]
      rfl
    | true =>
      have hnumber : c.isDigit = true ∨ c = '.' := by simpa [startsNumber] using hstarts
      exact completes_having_number hnumber rest
  | case5 afterOperand c rest _ hstarts token htoken ih =>
    rcases ofChar?_cases htoken with ⟨rfl, rfl⟩ | ⟨rfl, rfl⟩ | ⟨op, rfl, rfl⟩
    · cases afterOperand with
      | false =>
        have hnext : wanting.next? depth '(' = some (.wanting, depth + 1) := rfl
        exact (completes_cons_of_eq hnext rest).trans (ih (depth + 1))
      | true => exact (completes_cons_of_none rfl rest).trans (Bool.and_false _).symm
    · cases afterOperand with
      | false => exact (completes_cons_of_none rfl rest).trans (Bool.and_false _).symm
      | true =>
        rcases depth with _ | depth
        · exact (completes_cons_of_none rfl rest).trans (Bool.and_false _).symm
        · have hnext : having.next? (depth + 1) ')' = some (.having, depth) := rfl
          exact (completes_cons_of_eq hnext rest).trans (ih depth)
    · cases afterOperand with
      | false =>
        have hnone : wanting.next? depth op.char = none := by
          cases op with
          | subtract => exact absurd (by decide) hstarts
          | _ => rfl
        exact (completes_cons_of_none hnone rest).trans (Bool.and_false _).symm
      | true =>
        have hnext : having.next? depth op.char = some (.wanting, depth) := by cases op <;> rfl
        exact (completes_cons_of_eq hnext rest).trans (ih depth)
  | case6 afterOperand c rest hblank hstarts htoken =>
    refine completes_cons_of_none ?_ rest
    cases afterOperand with
    | false =>
      have hparen : c ≠ '(' := by
        rintro rfl
        cases htoken
      simp only [startsNumber, Bool.not_false, Bool.and_true, Bool.or_eq_true, not_or,
        beq_iff_eq] at hstarts
      simp [next?, hblank, hstarts, hparen]
    | true =>
      show after? depth c = none
      simp [after?, hblank, htoken]

/-- A text can be read through as an operand exactly if it writes an expression. -/
theorem completes_iff {cs : List Char} : wanting.completes 0 cs = true ↔
    ∃ tree : Expr Literal, tree.WrittenAs cs := by
  have hcut := completes_ofChars false 0 cs
  rw [if_neg Bool.false_ne_true] at hcut
  have hparse : (∃ tree : Expr Literal, tree.WrittenAs cs) ↔ ∃ expr, Expr.parse cs = .ok expr := by
    simp only [parse_eq_ok_iff]
    exact ⟨fun ⟨tree, htree⟩ => ⟨_, tree, htree, rfl⟩, fun ⟨_, tree, htree, _⟩ => ⟨tree, htree⟩⟩
  rw [hcut, hparse, Bool.and_eq_true, balanced_iff_writtenBy]
  unfold Expr.parse
  simp only [Lexed.expr_eq_ok_iff, Option.isNone_iff_eq_none, exists_and_left]

end Stage

end ComputedTables
