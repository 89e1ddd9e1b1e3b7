import Mathlib
import ComputedTables.Formula.Expr

/-!
# Which tokens write an expression

`Expr.WrittenBy` is the grammar of expressions: an operation that binds looser than its place allows
stands in parentheses, and any expression may.  Reading is exact for it (`ofTokens_eq_ok_iff`).
What a reading waits for at each depth of parentheses is a start of such tokens (`Reading.Covers`),
and each step keeps that; the other way round, tokens that write an operand are read to the end
wherever one of their level is wanted (`WrittenBy.foldlM_step`).

Reading does not look at the leaves, so an expression with leaves of one type is read from tokens
just as one with leaves of another, and it makes no difference when leaves are put in parentheses
(`writtenBy_expanded_iff`).
-/

namespace ComputedTables

variable {α β : Type}

/-- How tightly an operator binds. -/
def Operator.level (op : Operator) : Nat :=
  if op.isProduct then 1 else 0

theorem Operator.level_le (op : Operator) : op.level ≤ 1 := by
  cases op <;> decide

namespace Expr

/-- The tokens write the expression where an operation of the given level or a tighter one may stand
without parentheses.  Operations of one level associate to the left. -/
inductive WrittenBy : Nat → Expr α → List (Token α) → Prop
  | leaf {level : Nat} (value : α) : WrittenBy level (.leaf value) [.number value]
  | parens {level : Nat} {expr : Expr α} {tokens : List (Token α)} :
      WrittenBy 0 expr tokens → WrittenBy level expr (.openParen :: tokens ++ [.closeParen])
  | binary {level : Nat} {op : Operator} {left right : Expr α} {ts us : List (Token α)} :
      level ≤ op.level → WrittenBy op.level left ts → WrittenBy (op.level + 1) right us →
        WrittenBy level (.binary op left right) (ts ++ .operator op :: us)

theorem WrittenBy.loosen {level lower : Nat} {expr : Expr α} {tokens : List (Token α)}
    (h : WrittenBy level expr tokens) (hle : lower ≤ level) : WrittenBy lower expr tokens := by
  cases h with
  | leaf value => exact .leaf value
  | parens h => exact .parens h
  | binary hop hl hr => exact .binary (hle.trans hop) hl hr

end Expr

/-! ### What is read is written -/

/-- The tokens write what waits for a right operand at a level. -/
inductive Pending.Waits : Nat → Option (Expr α × Operator) → List (Token α) → Prop
  | none {level : Nat} : Waits level none []
  | some {level : Nat} {left : Expr α} {op : Operator} {ts : List (Token α)} :
      op.level = level → left.WrittenBy level ts →
        Waits level (some (left, op)) (ts ++ [.operator op])

theorem Pending.Waits.complete {level : Nat} {waiting : Option (Expr α × Operator)}
    {ts us : List (Token α)} {right : Expr α} (h : Waits level waiting ts)
    (hr : right.WrittenBy (level + 1) us) :
    (Pending.complete waiting right).WrittenBy level (ts ++ us) := by
  cases h with
  | none => exact hr.loosen (Nat.le_succ level)
  | some hop hl =>
    subst hop
    rw [List.append_assoc]
    exact .binary le_rfl hl hr

/-- The tokens write what waits at one depth. -/
def Pending.Covers (p : Pending α) (ts : List (Token α)) : Prop :=
  ∃ us vs, Waits 0 p.sum us ∧ Waits 1 p.product vs ∧ ts = us ++ vs

theorem Pending.covers_empty : Covers ({} : Pending α) [] :=
  ⟨[], [], .none, .none, rfl⟩

theorem Pending.Covers.close {p : Pending α} {ts us : List (Token α)} {operand : Expr α}
    (h : p.Covers ts) (ho : operand.WrittenBy 2 us) : (p.close operand).WrittenBy 0 (ts ++ us) := by
  obtain ⟨ss, ps, hs, hp, rfl⟩ := h
  rw [List.append_assoc]
  exact hs.complete (hp.complete ho)

theorem Pending.Covers.extend {p : Pending α} {ts us : List (Token α)} {operand : Expr α}
    (h : p.Covers ts) (ho : operand.WrittenBy 2 us) (op : Operator) :
    (p.extend operand op).Covers (ts ++ us ++ [.operator op]) := by
  unfold Pending.extend
  split
  · rename_i hop
    obtain ⟨ss, ps, hs, hp, rfl⟩ := h
    refine ⟨ss, ps ++ us ++ [.operator op], hs, .some ?_ (hp.complete ho), by simp⟩
    simp [Operator.level, hop]
  · rename_i hop
    refine ⟨ts ++ us ++ [.operator op], [], .some ?_ (h.close ho), .none, by simp⟩
    simp [Operator.level, hop]

/-- The tokens write what waits at the depths around, each up to the parenthesis that ends it. -/
inductive Pending.Surrounds : List (Pending α) → List (Token α) → Prop
  | nil : Surrounds [] []
  | cons {p : Pending α} {around : List (Pending α)} {ts us : List (Token α)} :
      p.Covers us → Surrounds around ts → Surrounds (p :: around) (ts ++ us ++ [.openParen])

/-- The tokens are what has been read. -/
inductive Reading.Covers : Reading α → List (Token α) → Prop
  | wanting {here : Pending α} {around : List (Pending α)} {ts us : List (Token α)} :
      Pending.Surrounds around ts → here.Covers us → Covers (.wanting here around) (ts ++ us)
  | having {operand : Expr α} {here : Pending α} {around : List (Pending α)}
      {ts us vs : List (Token α)} : Pending.Surrounds around ts → here.Covers us →
        operand.WrittenBy 2 vs → Covers (.having operand here around) (ts ++ us ++ vs)

theorem Reading.Covers.step {r next : Reading α} {ts : List (Token α)} {token : Token α}
    (h : r.Covers ts) (hs : r.step token = .ok next) : next.Covers (ts ++ [token]) := by
  cases h with
  | wanting ha hh =>
    cases token with
    | number value =>
      cases hs
      exact .having ha hh (.leaf value)
    | openParen =>
      cases hs
      simpa using Covers.wanting (.cons hh ha) Pending.covers_empty
    | operator op => cases hs
    | closeParen => cases hs
  | having ha hh ho =>
    cases token with
    | operator op =>
      cases hs
      simpa using Covers.wanting ha (hh.extend ho op)
    | closeParen =>
      cases ha with
      | nil => cases hs
      | cons hp ha =>
        cases hs
        simpa using Covers.having ha hp (.parens (hh.close ho))
    | number value => cases hs
    | openParen => cases hs

theorem Reading.Covers.foldlM : ∀ (us : List (Token α)) {r last : Reading α} {ts : List (Token α)},
    r.Covers ts → us.foldlM Reading.step r = .ok last → last.Covers (ts ++ us)
  | [], _, _, _, h, hr => by
    cases hr
    simpa using h
  | token :: us, r, last, ts, h, hr => by
    rw [List.foldlM_cons] at hr
    rcases hs : r.step token with fault | next
    · rw [hs] at hr
      cases hr
    · rw [hs] at hr
      simpa using Reading.Covers.foldlM us (h.step hs) hr

theorem Expr.writtenBy_of_ofTokens {tokens : List (Token α)} {expr : Expr α}
    (h : Expr.ofTokens tokens = .ok expr) : expr.WrittenBy 0 tokens := by
  unfold Expr.ofTokens at h
  rcases hr : tokens.foldlM Reading.step Reading.start with fault | last
  · rw [hr] at h
    cases h
  · rw [hr] at h
    have hstart : (Reading.start : Reading α).Covers [] := .wanting .nil Pending.covers_empty
    have hcovers := hstart.foldlM tokens hr
    generalize hts : [] ++ tokens = ts at hcovers
    obtain rfl : tokens = ts := hts
    cases hcovers with
    | wanting => cases h
    | having ha hh ho =>
      cases ha with
      | nil =>
        cases h
        exact hh.close ho
      | cons => cases h

/-! ### What is written is read -/

theorem Pending.extend_product {p : Pending α} {op : Operator} (h : op.level = 1)
    (operand : Expr α) :
    p.extend operand op = ⟨p.sum, some (complete p.product operand, op)⟩ := by
  cases op <;> first | rfl | cases h

theorem Pending.extend_sum {p : Pending α} {op : Operator} (h : op.level = 0) (operand : Expr α) :
    p.extend operand op = ⟨some (p.close operand, op), none⟩ := by
  cases op <;> first | rfl | cases h

/-- At a place of the given level nothing waits that binds as tightly. -/
def Pending.Admits (p : Pending α) (level : Nat) : Prop :=
  (level = 0 → p.sum = none) ∧ (level ≤ 1 → p.product = none)

/-- After an expression has been read, the operand and what waits for it make up the expression and
what waited before. -/
structure Pending.Holds (p : Pending α) (expr : Expr α) (level : Nat) (operand : Expr α)
    (after : Pending α) : Prop where
  close : after.close operand = p.close expr
  product : 1 ≤ level → after.sum = p.sum ∧
    Pending.complete after.product operand = Pending.complete p.product expr
  operand : 2 ≤ level → operand = expr ∧ after = p

theorem Pending.Holds.refl (p : Pending α) (expr : Expr α) (level : Nat) :
    p.Holds expr level expr p :=
  ⟨rfl, fun _ => ⟨rfl, rfl⟩, fun _ => ⟨rfl, rfl⟩⟩

/-- Tokens that write an expression are read to their end where one of its level is wanted. -/
theorem Expr.WrittenBy.foldlM_step {level : Nat} {expr : Expr α} {tokens : List (Token α)}
    (h : expr.WrittenBy level tokens) : ∀ (here : Pending α) (around : List (Pending α)),
      here.Admits level → ∃ operand after, here.Holds expr level operand after ∧
        tokens.foldlM Reading.step (.wanting here around) = .ok (.having operand after around) := by
  induction h with
  | leaf value => exact fun here around _ => ⟨_, _, .refl here _ _, rfl⟩
  | @parens level expr tokens _ ih =>
    intro here around _
    obtain ⟨operand, after, hholds, hread⟩ := ih {} (here :: around) ⟨fun _ => rfl, fun _ => rfl⟩
    refine ⟨_, _, .refl here _ _, ?_⟩
    have hclose : after.close operand = expr := hholds.close
    rw [List.cons_append, List.foldlM_cons]
    show (tokens ++ [Token.closeParen]).foldlM Reading.step (.wanting {} (here :: around)) = _
    rw [List.foldlM_append, hread]
    show Except.ok (Reading.having (after.close operand) here around) = _
    rw [hclose]
  | @binary level op left right ts us hle _ _ ihl ihr =>
    intro here around hadmits
    have hop := op.level_le
    obtain ⟨lo, la, hleft, hreadLeft⟩ := ihl here around
      ⟨fun h0 => hadmits.1 (by omega), fun _ => hadmits.2 (by omega)⟩
    have hread : ∀ next, la.extend lo op = next → (ts ++ .operator op :: us).foldlM Reading.step
        (.wanting here around) = us.foldlM Reading.step (.wanting next around) := by
      rintro next rfl
      rw [List.foldlM_append, hreadLeft]
      rfl
    have hproduct : here.product = none := hadmits.2 (by omega)
    rcases Nat.le_one_iff_eq_zero_or_eq_one.1 hop with h0 | h1
    · -- a sum stands only where no other sum waits
      have hsum : here.sum = none := hadmits.1 (by omega)
      have hclose : la.close lo = left := by
        rw [hleft.close]
        simp [Pending.close, hsum, hproduct, Pending.complete]
      have hnext := Pending.extend_sum h0 lo (p := la)
      rw [hclose] at hnext
      obtain ⟨ro, ra, hright, hreadRight⟩ := ihr _ around
        (show Pending.Admits ⟨some (left, op), none⟩ _ from ⟨fun h => by omega, fun _ => rfl⟩)
      refine ⟨ro, ra, ⟨?_, fun h => by omega, fun h => by omega⟩, ?_⟩
      · rw [hright.close]
        simp [Pending.close, hsum, hproduct, Pending.complete]
      · rw [hread _ hnext, hreadRight]
    · -- a product stands only where no other product waits; a sum may
      obtain ⟨hsum, hcomplete⟩ := hleft.product (by omega)
      have hnext : la.extend lo op = ⟨here.sum, some (left, op)⟩ := by
        rw [Pending.extend_product h1, hsum, hcomplete, hproduct]
        rfl
      obtain ⟨ro, ra, hright, hreadRight⟩ := ihr _ around
        (show Pending.Admits ⟨here.sum, some (left, op)⟩ _ from
          ⟨fun h => by omega, fun h => by omega⟩)
      obtain ⟨rfl, rfl⟩ := hright.operand (by omega)
      refine ⟨ro, ⟨here.sum, some (left, op)⟩, ⟨?_, fun _ => ⟨rfl, ?_⟩, fun h => by omega⟩, ?_⟩
      · simp [Pending.close, hproduct, Pending.complete]
      · simp [hproduct, Pending.complete]
      · rw [hread _ hnext, hreadRight]

/-- Tokens are read as an expression exactly if they write it. -/
theorem Expr.ofTokens_eq_ok_iff {tokens : List (Token α)} {expr : Expr α} :
    Expr.ofTokens tokens = .ok expr ↔ expr.WrittenBy 0 tokens := by
  refine ⟨writtenBy_of_ofTokens, fun h => ?_⟩
  obtain ⟨operand, after, hholds, hread⟩ := h.foldlM_step {} [] ⟨fun _ => rfl, fun _ => rfl⟩
  have hclose : after.close operand = expr := hholds.close
  unfold Expr.ofTokens Reading.start
  rw [hread]
  show Except.ok (after.close operand) = _
  rw [hclose]

/-! ### Other leaves -/

/-- The expression with other leaves. -/
def Expr.map (f : α → β) : Expr α → Expr β
  | .leaf value => .leaf (f value)
  | .binary op left right => .binary op (left.map f) (right.map f)

def Token.map (f : α → β) : Token α → Token β
  | .number value => .number (f value)
  | .operator op => .operator op
  | .openParen => .openParen
  | .closeParen => .closeParen

/-- The tokens that a token becomes when the leaves are changed, some of them set in parentheses. -/
def Token.expanded (f : α → β) (enclosed : α → Bool) : Token α → List (Token β)
  | .number value =>
    if enclosed value then [.openParen, .number (f value), .closeParen] else [.number (f value)]
  | token => [token.map f]

def Pending.map (f : α → β) (p : Pending α) : Pending β :=
  ⟨p.sum.map (Prod.map (Expr.map f) id), p.product.map (Prod.map (Expr.map f) id)⟩

def Reading.map (f : α → β) : Reading α → Reading β
  | .wanting here around => .wanting (here.map f) (around.map (Pending.map f))
  | .having operand here around =>
    .having (operand.map f) (here.map f) (around.map (Pending.map f))

theorem Pending.complete_map (f : α → β) (waiting : Option (Expr α × Operator)) (e : Expr α) :
    complete (waiting.map (Prod.map (Expr.map f) id)) (e.map f) = (complete waiting e).map f := by
  rcases waiting with _ | ⟨left, op⟩ <;> rfl

theorem Pending.close_map (f : α → β) (p : Pending α) (e : Expr α) :
    (p.map f).close (e.map f) = (p.close e).map f := by
  simp [close, Pending.map, complete_map]

theorem Pending.extend_map (f : α → β) (p : Pending α) (e : Expr α) (op : Operator) :
    (p.map f).extend (e.map f) op = (p.extend e op).map f := by
  unfold extend
  split
  · simp [Pending.map, complete_map]
  · rw [close_map]
    rfl

theorem Reading.step_expanded (f : α → β) (enclosed : α → Bool) {r : Reading α} {token : Token α}
    {next : Reading β} (h : (token.expanded f enclosed).foldlM Reading.step (r.map f) = .ok next) :
    ∃ last, r.step token = .ok last ∧ last.map f = next := by
  rcases r with ⟨here, around⟩ | ⟨operand, here, around⟩
  · rcases token with value | op | _ | _
    · -- a leaf is read to the same effect with and without parentheses
      refine ⟨_, rfl, ?_⟩
      dsimp only [Token.expanded] at h
      split at h <;> exact Except.ok.inj h
    · cases h
    · exact ⟨_, rfl, Except.ok.inj h⟩
    · cases h
  · rcases token with value | op | _ | _
    · dsimp only [Token.expanded] at h
      split at h <;> cases h
    · refine ⟨_, rfl, ?_⟩
      rw [← Except.ok.inj h]
      exact congrArg (Reading.wanting · _) (Pending.extend_map f here operand op).symm
    · cases h
    · rcases around with _ | ⟨outer, around⟩
      · cases h
      · refine ⟨_, rfl, ?_⟩
        rw [← Except.ok.inj h]
        exact congrArg (Reading.having · _ _) (Pending.close_map f here operand).symm

theorem Reading.foldlM_expanded (f : α → β) (enclosed : α → Bool) : ∀ (tokens : List (Token α))
    {r : Reading α} {next : Reading β},
    (tokens.flatMap (Token.expanded f enclosed)).foldlM Reading.step (r.map f) = .ok next →
      ∃ last, tokens.foldlM Reading.step r = .ok last ∧ last.map f = next
  | [], r, next, h => ⟨r, rfl, Except.ok.inj h⟩
  | token :: tokens, r, next, h => by
    rw [List.flatMap_cons, List.foldlM_append] at h
    rcases hs : (token.expanded f enclosed).foldlM Reading.step (r.map f) with fault | middle
    · rw [hs] at h
      cases h
    · rw [hs] at h
      obtain ⟨last, hlast, rfl⟩ := step_expanded f enclosed hs
      obtain ⟨final, hfinal, hmap⟩ := Reading.foldlM_expanded f enclosed tokens h
      refine ⟨final, ?_, hmap⟩
      rw [List.foldlM_cons, hlast]
      exact hfinal

theorem Expr.WrittenBy.expanded (f : α → β) (enclosed : α → Bool) {level : Nat} {expr : Expr α}
    {tokens : List (Token α)} (h : expr.WrittenBy level tokens) :
    (expr.map f).WrittenBy level (tokens.flatMap (Token.expanded f enclosed)) := by
  induction h with
  | leaf value =>
    rw [List.flatMap_singleton]
    dsimp only [Token.expanded]
    split
    · exact .parens (.leaf (f value))
    · exact .leaf (f value)
  | parens _ ih => simpa [Token.expanded, Token.map] using ih.parens
  | binary hle _ _ ihl ihr => simpa [Token.expanded, Token.map, Expr.map] using ihl.binary hle ihr

/-- Changing the leaves, and setting some of them in parentheses, changes the leaves of what is
read and nothing else. -/
theorem Expr.writtenBy_expanded_iff (f : α → β) (enclosed : α → Bool) {tokens : List (Token α)}
    {expr : Expr β} : expr.WrittenBy 0 (tokens.flatMap (Token.expanded f enclosed)) ↔
      ∃ original : Expr α, original.WrittenBy 0 tokens ∧ original.map f = expr := by
  constructor
  · intro h
    obtain ⟨operand, after, hholds, hread⟩ := h.foldlM_step {} [] ⟨fun _ => rfl, fun _ => rfl⟩
    obtain ⟨last, hlast, hmap⟩ := Reading.foldlM_expanded f enclosed tokens (r := .start) hread
    rcases last with _ | ⟨e, p, around⟩
    · cases hmap
    · obtain ⟨rfl, rfl, haround⟩ := Reading.having.inj hmap
      obtain rfl : around = [] := List.map_eq_nil_iff.1 haround
      refine ⟨p.close e, ofTokens_eq_ok_iff.1 ?_, ?_⟩
      · unfold Expr.ofTokens
        rw [hlast]
        rfl
      · rw [← Pending.close_map]
        exact hholds.close
  · rintro ⟨original, h, rfl⟩
    exact h.expanded f enclosed

theorem Expr.writtenBy_map_iff (f : α → β) {tokens : List (Token α)} {expr : Expr β} :
    expr.WrittenBy 0 (tokens.map (Token.map f)) ↔
      ∃ original : Expr α, original.WrittenBy 0 tokens ∧ original.map f = expr := by
  have hplain : Token.expanded f (fun _ => false) = fun token => [token.map f] :=
    funext fun token => by cases token <;> rfl
  rw [← writtenBy_expanded_iff f fun _ => false, hplain, ← List.map_eq_flatMap]

/-! ### Operands and operators take turns -/

/-- Whether a token can stand where an operand is to start. -/
def Token.startsOperand : Token α → Bool
  | .number _ | .openParen => true
  | .operator _ | .closeParen => false

/-- Operands start where none has just ended, and nowhere else. -/
def Alternates : Bool → List (Token α) → Prop
  | _, [] => True
  | afterOperand, token :: tokens =>
    token.startsOperand = !afterOperand ∧ Alternates token.endsOperand tokens

theorem Expr.WrittenBy.alternates {level : Nat} {expr : Expr α} {tokens : List (Token α)}
    (h : expr.WrittenBy level tokens) : ∀ {rest : List (Token α)}, Alternates true rest →
      Alternates false (tokens ++ rest) := by
  induction h with
  | leaf value => exact fun hrest => ⟨rfl, hrest⟩
  | parens _ ih =>
    intro rest hrest
    rw [List.cons_append, List.cons_append, List.append_assoc]
    exact ⟨rfl, ih ⟨rfl, hrest⟩⟩
  | binary _ _ _ ihl ihr =>
    intro rest hrest
    rw [List.append_assoc]
    exact ihl ⟨rfl, ihr hrest⟩

end ComputedTables
