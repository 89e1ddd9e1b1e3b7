import Mathlib
import ComputedTables.Table.Evaluate
import ComputedTables.Proofs.Writings
import ComputedTables.Proofs.PlainNumbers

/-!
# The values of calls in the tree of a formula

A formula is calculated from a text in which values stand for calls.  Its tree has literals and
calls at the leaves: it is what the arithmetic characters of the texts write together with the calls
between them, each call one indivisible glyph (`Expr.WrittenIn`).  What text stands for a call makes
no difference to the tree as long as it is a literal (`WrittenIn.writtenAs`), and nothing is lost
either if a zero in parentheses does (`exists_writtenIn_of_zeros`).
-/

namespace ComputedTables

/-- A character of a formula, or a call in it. -/
abbrev Glyph := Char ⊕ Call

/-- The glyphs of a segment that arithmetic uses. -/
def Segment.glyphs : Segment → List Glyph
  | .text cs => (keepArithmetic cs).map .inl
  | .call inner => [.inr inner]

/-- How the leaf of a formula's tree is written. -/
def leafGlyphs : Literal ⊕ Call → List Glyph
  | .inl n => n.chars.map .inl
  | .inr call => [.inr call]

def Glyph.IsBlank (g : Glyph) : Prop :=
  ∃ c, g = .inl c ∧ Text.isBlank c = true

/-- The segments of a formula write an expression with literals and calls at the leaves. -/
def Expr.WrittenIn (tree : Expr (Literal ⊕ Call)) (segments : List Segment) : Prop :=
  ∃ tokens, tree.WrittenBy 0 tokens ∧ Spaced Glyph.IsBlank
    (tokens.map (Token.spelling leafGlyphs .inl)) (segments.flatMap Segment.glyphs)

/-! ### Texts for calls -/

section Filled

variable (fill : Call → List Char)

/-- The text of a segment, with a text in place of a call. -/
def Segment.filled : Segment → List Char
  | .text cs => cs
  | .call inner => fill inner

def Glyph.filled : Glyph → List Char
  | .inl c => [c]
  | .inr call => fill call

variable {fill}

theorem keepArithmetic_append (cs ds : List Char) :
    keepArithmetic (cs ++ ds) = keepArithmetic cs ++ keepArithmetic ds :=
  List.filter_append ..

theorem flatMap_filled_inl (cs : List Char) :
    (cs.map .inl).flatMap (Glyph.filled fill) = cs := by
  simp [List.flatMap_map, Glyph.filled]

theorem mem_glyphs_iff {segments : List Segment} {call : Call} :
    .inr call ∈ segments.flatMap Segment.glyphs ↔ .call call ∈ segments := by
  rw [List.mem_flatMap]
  constructor
  · rintro ⟨cs | call', hmem, hcall⟩
    · simp [Segment.glyphs] at hcall
    · rw [Segment.glyphs, List.mem_singleton] at hcall
      cases hcall
      exact hmem
  · exact fun hmem => ⟨.call call, hmem, List.mem_singleton.2 rfl⟩

variable (fill) in
theorem keepArithmetic_filled : ∀ segments : List Segment,
    keepArithmetic (segments.flatMap (Segment.filled fill))
      = (segments.flatMap Segment.glyphs).flatMap
          (Glyph.filled fun call => keepArithmetic (fill call))
  | [] => rfl
  | segment :: segments => by
    rw [List.flatMap_cons, List.flatMap_cons, List.flatMap_append, keepArithmetic_append,
      keepArithmetic_filled segments]
    rcases segment with cs | call
    · rw [Segment.glyphs, flatMap_filled_inl]
      rfl
    · simp [Segment.glyphs, Segment.filled, Glyph.filled]

theorem flatMap_filled_glyphs {segments : List Segment}
    (h : ∀ call, .call call ∈ segments → keepArithmetic (fill call) = fill call) :
    (segments.flatMap Segment.glyphs).flatMap (Glyph.filled fill)
      = keepArithmetic (segments.flatMap (Segment.filled fill)) := by
  rw [keepArithmetic_filled]
  refine List.flatMap_congr fun g hg => ?_
  rcases g with c | call
  · rfl
  · exact (h call (mem_glyphs_iff.1 hg)).symm

end Filled

theorem Spaced.flatMap {γ δ : Type} {blank : γ → Prop} {blank' : δ → Prop} {f : γ → List δ}
    (hf : ∀ g, blank g → ∀ d ∈ f g, blank' d) {pieces : List (List γ)} {gs : List γ}
    (h : Spaced blank pieces gs) :
    Spaced blank' (pieces.map fun piece => piece.flatMap f) (gs.flatMap f) := by
  induction h with
  | nil hgap =>
    refine .nil fun d hd => ?_
    obtain ⟨g, hg, hmem⟩ := List.mem_flatMap.1 hd
    exact hf g (hgap g hg) d hmem
  | cons hgap _ ih =>
    rw [List.flatMap_append, List.flatMap_append]
    refine .cons (fun d hd => ?_) ih
    obtain ⟨g, hg, hmem⟩ := List.mem_flatMap.1 hd
    exact hf g (hgap g hg) d hmem

theorem spelling_filled (numeral : Call → Literal) (token : Token (Literal ⊕ Call)) :
    (token.spelling leafGlyphs .inl).flatMap (Glyph.filled fun call => (numeral call).chars)
      = (token.map (Sum.elim id numeral)).chars := by
  rcases token with (n | call) | op | _ | _
  · exact flatMap_filled_inl n.chars
  · simp [Token.spelling, leafGlyphs, Glyph.filled, Token.map, Token.chars]
  · rfl
  · rfl
  · rfl

theorem Literal.of_mem_chars {n : Literal} {c : Char} (h : c ∈ n.chars) :
    c = '-' ∨ c = '.' ∨ c.isDigit = true := by
  simp only [chars, WrittenNumber.chars, List.mem_append] at h
  rcases h with ((h | h) | h) | h
  · split at h
    · exact .inl (List.mem_singleton.1 h)
    · cases h
  · exact .inr (.inr (n.2.whole c h))
  · split at h
    · exact .inr (.inl (List.mem_singleton.1 h))
    · cases h
  · exact .inr (.inr (n.2.fraction c h))

theorem Literal.keepArithmetic_chars (n : Literal) : keepArithmetic n.chars = n.chars := by
  refine List.filter_eq_self.2 fun c hc => ?_
  rcases of_mem_chars hc with rfl | rfl | hdigit
  · decide
  · decide
  · simp [isArithmetic, hdigit]

/-- With a literal for each call, the segments write the tree with those literals. -/
theorem Expr.WrittenIn.writtenAs {tree : Expr (Literal ⊕ Call)} {segments : List Segment}
    (h : tree.WrittenIn segments) (numeral : Call → Literal) :
    (tree.map (Sum.elim id numeral)).WrittenAs
      (keepArithmetic (segments.flatMap (Segment.filled fun call => (numeral call).chars))) := by
  obtain ⟨tokens, hwritten, hspaced⟩ := h
  refine ⟨tokens.map (Token.map (Sum.elim id numeral)),
    (writtenBy_map_iff _).2 ⟨tree, hwritten, rfl⟩, ?_⟩
  rw [← flatMap_filled_glyphs fun call _ => (numeral call).keepArithmetic_chars]
  have hblank : ∀ g : Glyph, g.IsBlank →
      ∀ c ∈ g.filled fun call => (numeral call).chars, Text.isBlank c = true := by
    rintro _ ⟨c, rfl, hc⟩ d hd
    rwa [List.mem_singleton.1 hd]
  simpa [Spells, Function.comp_def, spelling_filled] using hspaced.flatMap hblank

/-! ### Zeros for calls -/

/-- The literal that the zero for a call is. -/
def Literal.zero : Literal :=
  ⟨⟨false, ['0'], false, []⟩, by simp, nofun, fun _ => rfl, .inl (by simp)⟩

theorem Literal.chars_injective : Function.Injective Literal.chars := by
  intro n m h
  have hn : takeNumber (n.chars ++ []) = (n.1, []) := takeNumber_chars n nofun
  have hm : takeNumber (m.chars ++ []) = (m.1, []) := takeNumber_chars m nofun
  rw [h, hm] at hn
  exact Subtype.ext (congrArg Prod.fst hn).symm

theorem Spaced.cons_of_not_blank {γ : Type} {blank : γ → Prop} {pieces : List (List γ)} {c : γ}
    {cs : List γ} (h : Spaced blank pieces (c :: cs)) (hc : ¬ blank c) :
    ∃ piece pieces' rest, pieces = piece :: pieces' ∧ piece ++ rest = c :: cs ∧
      Spaced blank pieces' rest := by
  generalize htext : c :: cs = text at h
  cases h with
  | nil hgap =>
    subst htext
    exact absurd (hgap c List.mem_cons_self) hc
  | @cons gap piece rest pieces hgap hrest =>
    rcases gap with _ | ⟨d, gap⟩
    · exact ⟨piece, pieces, rest, rfl, rfl, hrest⟩
    · cases htext
      exact absurd (hgap c List.mem_cons_self) hc

theorem Literal.paren_notMem (n : Literal) : '(' ∉ n.chars ∧ ')' ∉ n.chars := by
  constructor <;> intro hmem <;> rcases of_mem_chars hmem with h | h | h <;> revert h <;> decide

theorem Token.eq_closeParen {token : Token Literal} {rest cs : List Char}
    (h : token.chars ++ rest = ')' :: cs) : token = .closeParen ∧ rest = cs := by
  rcases token with n | op | _ | _
  · obtain ⟨c, tail, hchars, -⟩ := n.exists_cons
    have hn := n.paren_notMem.2
    rw [chars, spelling, hchars, List.cons_append, List.cons.injEq] at h
    simp [hchars, h.1] at hn
  · cases op <;> cases h
  · cases h
  · exact ⟨rfl, (List.cons.inj h).2⟩

theorem Token.eq_zero {token : Token Literal} {rest cs : List Char}
    (h : token.chars ++ rest = '0' :: ')' :: cs) : token = .number .zero ∧ rest = ')' :: cs := by
  rcases token with n | op | _ | _
  · obtain ⟨c, tail, hchars, -⟩ := n.exists_cons
    have hn := n.paren_notMem.2
    rw [chars, spelling, hchars, List.cons_append, List.cons.injEq] at h
    obtain ⟨rfl, h⟩ := h
    rcases tail with _ | ⟨d, tail⟩
    · exact ⟨congrArg _ (Literal.chars_injective hchars), h⟩
    · rw [List.cons_append, List.cons.injEq] at h
      simp [hchars, h.1] at hn
  · cases op <;> cases h
  · cases h
  · cases h

/-- What is cut off a text that starts with a zero and a closing parenthesis. -/
theorem tokens_of_zero {tokens : List (Token Literal)} {cs : List Char}
    (h : Spells tokens ('0' :: ')' :: cs)) :
    ∃ rest, tokens = .number .zero :: .closeParen :: rest ∧ Spells rest cs := by
  obtain ⟨_, _, _, hmap, hzero, htail⟩ := h.cons_of_not_blank (by decide)
  obtain ⟨_, _, rfl, rfl, rfl⟩ := List.map_eq_cons_iff.1 hmap
  obtain ⟨rfl, rfl⟩ := Token.eq_zero hzero
  obtain ⟨_, _, _, hmap', hparen, hrest⟩ := htail.cons_of_not_blank (by decide)
  obtain ⟨_, rest, rfl, rfl, rfl⟩ := List.map_eq_cons_iff.1 hmap'
  obtain ⟨rfl, rfl⟩ := Token.eq_closeParen hparen
  exact ⟨rest, rfl, hrest⟩

/-- What a call is replaced by to read the formula without knowing its value. -/
def zeroText : List Char :=
  "(0)".toList

/-- A start of a text without opening parentheses comes from no call. -/
theorem exists_glyphs_append : ∀ (start : List Char) {rest : List Char} {gs : List Glyph},
    '(' ∉ start → gs.flatMap (Glyph.filled fun _ => zeroText) = start ++ rest →
      ∃ gs', gs = start.map .inl ++ gs' ∧ gs'.flatMap (Glyph.filled fun _ => zeroText) = rest
  | [], _, gs, _, h => ⟨gs, rfl, h⟩
  | c :: start, rest, gs, hparen, h => by
    obtain ⟨hc, hstart⟩ := not_or.1 (List.mem_cons.not.1 hparen)
    rcases gs with _ | ⟨d | call, gs⟩
    · cases h
    · rw [List.flatMap_cons] at h
      obtain ⟨rfl, htail⟩ := List.cons.inj h
      obtain ⟨gs', rfl, hrest⟩ := exists_glyphs_append start hstart htail
      exact ⟨gs', rfl, hrest⟩
    · rw [List.flatMap_cons] at h
      exact absurd (List.cons.inj h).1 hc

theorem expanded_map_inl (f : Literal ⊕ Call → Literal) (token : Token Literal) :
    (token.map .inl).expanded f Sum.isRight = [token.map (f ∘ .inl)] := by
  cases token <;> rfl

theorem spelling_map_inl (token : Token Literal) :
    (token.map .inl).spelling leafGlyphs .inl = token.chars.map .inl := by
  cases token <;> rfl

/-- A token comes from its characters, or it is the parenthesis in front of the zero for a call. -/
theorem glyphs_of_token {token : Token Literal} {rest : List Char} {gs : List Glyph}
    (h : gs.flatMap (Glyph.filled fun _ => zeroText) = token.chars ++ rest) :
    (∃ gs', gs = token.chars.map .inl ++ gs' ∧
      gs'.flatMap (Glyph.filled fun _ => zeroText) = rest) ∨
    ∃ call gs', token = .openParen ∧ gs = .inr call :: gs' ∧
      rest = '0' :: ')' :: gs'.flatMap (Glyph.filled fun _ => zeroText) := by
  rcases token with n | op | _ | _
  · exact .inl (exists_glyphs_append n.chars n.paren_notMem.1 h)
  · exact .inl (exists_glyphs_append [op.char] (by cases op <;> decide) h)
  · rcases gs with _ | ⟨d | call, gs⟩
    · cases h
    · rw [List.flatMap_cons] at h
      obtain ⟨rfl, htail⟩ := List.cons.inj h
      exact .inl ⟨gs, rfl, htail⟩
    · rw [List.flatMap_cons] at h
      exact .inr ⟨call, gs, rfl, rfl, (List.cons.inj h).2.symm⟩
  · exact .inl (exists_glyphs_append [')'] (by decide) h)

theorem isBlank_of_mem_map {gap : List Char} (h : Text.IsGap gap) :
    ∀ g ∈ gap.map Sum.inl, Glyph.IsBlank g := by
  intro g hg
  obtain ⟨c, hc, rfl⟩ := List.mem_map.1 hg
  exact ⟨c, rfl, h c hc⟩

theorem paren_notMem_gap {gap : List Char} (h : Text.IsGap gap) : '(' ∉ gap :=
  fun hmem => absurd (h _ hmem) (by decide)

/-- The tokens of a formula with zeros for its calls are those of the formula, with a zero in
parentheses for each call. -/
theorem exists_tokens_of_zeros : ∀ (tokens : List (Token Literal)) {gs : List Glyph},
    Spells tokens (gs.flatMap (Glyph.filled fun _ => zeroText)) →
    ∃ ts : List (Token (Literal ⊕ Call)),
      ts.flatMap (Token.expanded (Sum.elim id fun _ => .zero) Sum.isRight) = tokens ∧
        Spaced Glyph.IsBlank (ts.map (Token.spelling leafGlyphs .inl)) gs
  | [], gs, h => by
    generalize htext : gs.flatMap (Glyph.filled fun _ => zeroText) = text at h
    cases h with
    | nil hgap =>
      rw [← List.append_nil text] at htext
      obtain ⟨gs', rfl, hnil⟩ := exists_glyphs_append text (paren_notMem_gap hgap) htext
      obtain rfl : gs' = [] := by
        rcases gs' with _ | ⟨c | call, gs'⟩
        · rfl
        · cases hnil
        · cases hnil
      refine ⟨[], rfl, .nil ?_⟩
      rw [List.append_nil]
      exact isBlank_of_mem_map hgap
  | token :: tokens, gs, h => by
    generalize htext : gs.flatMap (Glyph.filled fun _ => zeroText) = text at h
    cases h with
    | @cons gap _ rest _ hgap hrest =>
      rw [List.append_assoc] at htext
      obtain ⟨gs, rfl, htoken⟩ := exists_glyphs_append gap (paren_notMem_gap hgap) htext
      rcases glyphs_of_token htoken with ⟨gs, rfl, rfl⟩ | ⟨call, gs, rfl, rfl, rfl⟩
      · obtain ⟨ts, rfl, hspaced⟩ := exists_tokens_of_zeros tokens hrest
        refine ⟨token.map .inl :: ts, ?_, ?_⟩
        · rw [List.flatMap_cons, expanded_map_inl]
          cases token <;> rfl
        · rw [List.map_cons, spelling_map_inl, ← List.append_assoc]
          exact .cons (isBlank_of_mem_map hgap) hspaced
      · -- the parenthesis, the zero and the parenthesis that stand for the call
        obtain ⟨tokens, rfl, hafter⟩ := tokens_of_zero hrest
        obtain ⟨ts, rfl, hspaced⟩ := exists_tokens_of_zeros tokens hafter
        refine ⟨.number (.inr call) :: ts, rfl, ?_⟩
        rw [List.map_cons, List.append_cons]
        exact .cons (isBlank_of_mem_map hgap) hspaced
termination_by tokens => tokens.length

/-- If a formula with zeros for its calls writes an expression, the formula writes it with calls in
place of those zeros. -/
theorem exists_writtenIn_of_zeros {segments : List Segment} {tree : Expr Literal}
    (h : tree.WrittenAs (keepArithmetic (segments.flatMap (Segment.filled fun _ => zeroText)))) :
    ∃ t : Expr (Literal ⊕ Call), t.WrittenIn segments ∧
      t.map (Sum.elim id fun _ => .zero) = tree := by
  obtain ⟨tokens, hwritten, hspaced⟩ := h
  rw [← flatMap_filled_glyphs fun _ _ => by decide] at hspaced
  obtain ⟨ts, rfl, hts⟩ := exists_tokens_of_zeros tokens hspaced
  obtain ⟨t, ht, rfl⟩ := (Expr.writtenBy_expanded_iff _ _).1 hwritten
  exact ⟨t, ⟨ts, ht, hts⟩, rfl⟩

/-! ### Which calls a tree has -/

/-- The leaves of an expression from left to right. -/
def Expr.leaves {α : Type} : Expr α → List α
  | .leaf value => [value]
  | .binary _ left right => left.leaves ++ right.leaves

def Token.number? {α : Type} : Token α → Option α
  | .number value => some value
  | _ => none

def Segment.call? : Segment → Option Call
  | .text _ => none
  | .call inner => some inner

theorem Expr.map_congr {α β : Type} {f g : α → β} : ∀ {expr : Expr α},
    (∀ a ∈ expr.leaves, f a = g a) → expr.map f = expr.map g
  | .leaf a, h => congrArg Expr.leaf (h a (List.mem_singleton.2 rfl))
  | .binary op left right, h => by
    obtain ⟨hl, hr⟩ := List.forall_mem_append.1 h
    rw [Expr.map, Expr.map, map_congr hl, map_congr hr]

theorem Expr.map_map {α β γ : Type} (f : α → β) (g : β → γ) :
    ∀ expr : Expr α, (expr.map f).map g = expr.map (g ∘ f)
  | .leaf _ => rfl
  | .binary op left right => by rw [Expr.map, Expr.map, map_map, map_map]; rfl

theorem Expr.WrittenBy.filterMap_number? {α : Type} {level : Nat} {expr : Expr α}
    {tokens : List (Token α)} (h : expr.WrittenBy level tokens) :
    tokens.filterMap Token.number? = expr.leaves := by
  induction h with
  | leaf value => rfl
  | parens _ ih => simpa [Token.number?, List.filterMap_cons] using ih
  | binary _ _ _ ihl ihr => simp [Token.number?, Expr.leaves, List.filterMap_cons, ihl, ihr]

theorem Spaced.filterMap {γ δ : Type} {blank : γ → Prop} {f : γ → Option δ}
    (hf : ∀ g, blank g → f g = none) {pieces : List (List γ)} {gs : List γ}
    (h : Spaced blank pieces gs) : gs.filterMap f = pieces.flatten.filterMap f := by
  have hgap : ∀ gap : List γ, (∀ g ∈ gap, blank g) → gap.filterMap f = [] := fun gap hgap =>
    List.filterMap_eq_nil_iff.2 fun g hg => hf g (hgap g hg)
  induction h with
  | nil h => exact hgap _ h
  | cons h _ ih => simp [hgap _ h, ih]

/-- The calls at the leaves of a formula's tree are the calls of the formula, in this order. -/
theorem Expr.WrittenIn.calls {tree : Expr (Literal ⊕ Call)} {segments : List Segment}
    (h : tree.WrittenIn segments) :
    tree.leaves.filterMap Sum.getRight? = segments.filterMap Segment.call? := by
  obtain ⟨tokens, hwritten, hspaced⟩ := h
  have hblank : ∀ g : Glyph, g.IsBlank → g.getRight? = none := by
    rintro _ ⟨c, rfl, -⟩
    rfl
  have hchars : ∀ cs : List Char, (cs.map (Sum.inl : Char → Glyph)).filterMap Sum.getRight? = [] :=
    fun cs => by simp [List.filterMap_map]
  have htoken : ∀ token : Token (Literal ⊕ Call), (token.spelling leafGlyphs .inl).filterMap
      Sum.getRight? = (token.number?.bind Sum.getRight?).toList := by
    rintro ((n | call) | op | _ | _)
    · exact hchars n.chars
    all_goals rfl
  have hsegment : ∀ segment : Segment,
      segment.glyphs.filterMap Sum.getRight? = segment.call?.toList := by
    rintro (cs | call)
    · exact hchars (keepArithmetic cs)
    · rfl
  calc tree.leaves.filterMap Sum.getRight?
      = tokens.filterMap fun token => token.number?.bind Sum.getRight? := by
        rw [← hwritten.filterMap_number?, List.filterMap_filterMap]
    _ = (tokens.map (Token.spelling leafGlyphs .inl)).flatten.filterMap Sum.getRight? := by
        rw [← List.flatMap_def, List.filterMap_flatMap, List.filterMap_eq_flatMap_toList]
        simp only [htoken]
    _ = (segments.flatMap Segment.glyphs).filterMap Sum.getRight? := (hspaced.filterMap hblank).symm
    _ = segments.filterMap Segment.call? := by
        rw [List.filterMap_flatMap, List.filterMap_eq_flatMap_toList]
        simp only [hsegment]

/-! ### Calculating a formula -/

variable {lookup : Lookup} {grid : Grid} {p : Place} {values : Call → Float}

theorem mapM_substituted : ∀ {segments : List Segment},
    (∀ call, .call call ∈ segments → call.value lookup grid p = .ok (values call)) →
      segments.mapM (Segment.substituted lookup grid p)
        = .ok (segments.map (Segment.filled fun call => Decimal.plain.chars (values call)))
  | [], _ => rfl
  | segment :: segments, h => by
    have ih := mapM_substituted fun call hmem => h call (List.mem_cons_of_mem _ hmem)
    have hsegment : segment.substituted lookup grid p
        = .ok (segment.filled fun call => Decimal.plain.chars (values call)) := by
      rcases segment with cs | call
      · rfl
      · rw [Segment.substituted, h call List.mem_cons_self]
        rfl
    rw [List.mapM_cons, hsegment, ih]
    rfl

/-- A number reads back from its plain text. -/
def ReadsBack (x : Float) : Prop :=
  ∀ n : Literal, n.chars = Decimal.plain.chars x → n.value = x

theorem readsBack_of_literal {x : Float} (n : Literal) (hn : n.chars = Decimal.plain.chars x)
    (hvalue : n.value = x) : ReadsBack x := by
  intro m hm
  rwa [Literal.chars_injective (hm.trans hn.symm)]

theorem Expr.WrittenIn.evalFormula {tree : Expr (Literal ⊕ Call)} {segments : List Segment}
    {formula : String} (h : tree.WrittenIn segments)
    (hcut : cutFormula (Text.trim (unmarked formula)) = .ok segments)
    (hvalues : ∀ call, .call call ∈ segments → call.value lookup grid p = .ok (values call) ∧
      (values call).isFinite = true ∧ ReadsBack (values call)) :
    ComputedTables.evalFormula lookup grid p formula
      = (tree.map (Sum.elim Literal.value values)).evaluate := by
  have hliteral : ∀ call, ∃ n : Literal, .call call ∈ segments →
      n.chars = Decimal.plain.chars (values call) ∧ n.value = values call := by
    intro call
    by_cases hmem : .call call ∈ segments
    · obtain ⟨-, hfinite, hreads⟩ := hvalues call hmem
      obtain ⟨n, hn⟩ := exists_literal_of_isFinite hfinite
      exact ⟨n, fun _ => ⟨hn, hreads n hn⟩⟩
    · exact ⟨.zero, fun hmem' => absurd hmem' hmem⟩
  choose numeral hnumeral using hliteral
  have hfilled : segments.map (Segment.filled fun call => Decimal.plain.chars (values call))
      = segments.map (Segment.filled fun call => (numeral call).chars) := by
    refine List.map_congr_left fun segment hmem => ?_
    rcases segment with cs | call
    · rfl
    · exact (hnumeral call hmem).1.symm
  have hleaves : ∀ leaf ∈ tree.leaves,
      (Literal.value ∘ Sum.elim id numeral) leaf = Sum.elim Literal.value values leaf := by
    rintro (n | call) hleaf
    · rfl
    · have hmem : call ∈ tree.leaves.filterMap Sum.getRight? :=
        List.mem_filterMap.2 ⟨.inr call, hleaf, rfl⟩
      rw [h.calls] at hmem
      obtain ⟨segment, hsegment, hcall⟩ := List.mem_filterMap.1 hmem
      rcases segment with cs | call'
      · cases hcall
      · cases hcall
        exact (hnumeral call hsegment).2
  unfold ComputedTables.evalFormula
  rw [hcut, ok_bind, mapM_substituted fun call hmem => (hvalues call hmem).1, ok_bind, hfilled,
    ← List.flatMap_def, calculate_of_writtenAs (h.writtenAs numeral), Expr.map_map,
    Expr.map_congr hleaves]

theorem Literal.value_zero : Literal.zero.value = 0 := by
  decide +kernel

/-- If a formula with zeros in parentheses for its calls can be read, then it writes a tree with
these calls at the leaves in their order, which is the tree read but for the zeros, and the value of
the formula is that of the tree with the values of the calls, provided that these are finite numbers
that read back from their texts. -/
theorem evalFormula_of_tree {segments : List Segment} {formula : String} {expr : Expr Float}
    (hcut : cutFormula (Text.trim (unmarked formula)) = .ok segments)
    (hparse : Expr.parse (keepArithmetic (segments.flatMap (Segment.filled fun _ => zeroText)))
      = .ok expr)
    (hvalues : ∀ call, .call call ∈ segments → call.value lookup grid p = .ok (values call) ∧
      (values call).isFinite = true ∧ ReadsBack (values call)) :
    (∃ tree : Expr (Literal ⊕ Call), tree.WrittenIn segments ∧
      tree.map (Sum.elim Literal.value fun _ => 0) = expr) ∧
    ∀ tree : Expr (Literal ⊕ Call), tree.WrittenIn segments →
      tree.leaves.filterMap Sum.getRight? = segments.filterMap Segment.call? ∧
      evalFormula lookup grid p formula
        = (tree.map (Sum.elim Literal.value values)).evaluate := by
  refine ⟨?_, fun tree htree => ⟨htree.calls, htree.evalFormula hcut hvalues⟩⟩
  obtain ⟨literals, hwritten, rfl⟩ := parse_eq_ok_iff.1 hparse
  obtain ⟨tree, htree, rfl⟩ := exists_writtenIn_of_zeros hwritten
  refine ⟨tree, htree, ?_⟩
  rw [Expr.map_map]
  congr 1
  funext leaf
  rcases leaf with n | call
  · rfl
  · exact Literal.value_zero.symm

theorem evalFormula_of_tree_negatives :
    let lookup : Lookup := fun _ _ => some ⟨-0.0, none⟩
    let grid := Grid.ofTexts [["-10", "-20", "=5-SUM(row)/NOTE(\"Z\").z"]]
    let values : Call → Float := fun
      | .aggregate .. => -30
      | .note .. => -0.0
    let segments : List Segment := [.text ['5', '-'], .call (.aggregate .sum .row false none),
      .text ['/'], .call (.note "Z" "z")]
    cutFormula (Text.trim (unmarked "=5-SUM(row)/NOTE(\"Z\").z")) = .ok segments ∧
    (∀ call, .call call ∈ segments → call.value lookup grid ⟨0, 2⟩ = .ok (values call) ∧
      (values call).isFinite = true ∧ ReadsBack (values call)) ∧
    ∃ tree : Expr (Literal ⊕ Call), tree.WrittenIn segments ∧
      tree.map (Sum.elim Literal.value fun _ => 0)
        = .binary .subtract (.leaf 5) (.binary .divide (.leaf 0) (.leaf 0)) ∧
      evalFormula lookup grid ⟨0, 2⟩ "=5-SUM(row)/NOTE(\"Z\").z"
        = (tree.map (Sum.elim Literal.value values)).evaluate ∧
      (tree.map (Sum.elim Literal.value values)).evaluate = .error .divisionByZero := by
  intro lookup grid values segments
  have hcut : cutFormula (Text.trim (unmarked "=5-SUM(row)/NOTE(\"Z\").z")) = .ok segments := by
    decide +kernel
  have hparse : Expr.parse (keepArithmetic (segments.flatMap (Segment.filled fun _ => zeroText)))
      = .ok (.binary .subtract (.leaf 5) (.binary .divide (.leaf 0) (.leaf 0))) := by
    decide +kernel
  have hvalues : ∀ call, .call call ∈ segments →
      call.value lookup grid ⟨0, 2⟩ = .ok (values call) ∧ (values call).isFinite = true ∧
        ReadsBack (values call) := by
    intro call hmem
    obtain rfl | rfl : call = .aggregate .sum .row false none ∨ call = .note "Z" "z" := by
      simpa [segments] using hmem
    · refine ⟨by decide +kernel, by decide +kernel, ?_⟩
      exact readsBack_of_literal ⟨⟨true, ['3', '0'], false, []⟩, by simp, nofun, fun _ => rfl,
        .inl (by simp)⟩ (by decide +kernel) (by decide +kernel)
    · refine ⟨by decide +kernel, by decide +kernel, ?_⟩
      exact readsBack_of_literal ⟨⟨true, ['0'], false, []⟩, by simp, nofun, fun _ => rfl,
        .inl (by simp)⟩ (by decide +kernel) (by decide +kernel)
  obtain ⟨⟨tree, htree, hzeros⟩, hall⟩ := evalFormula_of_tree hcut hparse hvalues
  have hresult : evalFormula lookup grid ⟨0, 2⟩ "=5-SUM(row)/NOTE(\"Z\").z"
      = .error .divisionByZero := by decide +kernel
  have hvalue := (hall tree htree).2
  exact ⟨hcut, hvalues, tree, htree, hzeros, hvalue, hvalue.symm.trans hresult⟩

end ComputedTables
