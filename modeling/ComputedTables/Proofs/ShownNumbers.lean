import ComputedTables.Proofs.LineCells
import ComputedTables.Proofs.PlainNumbers
import ComputedTables.Proofs.SeparatorRow

/-!
# How displayed numbers stand in a cell

Whatever the settings and the currency, a displayed number starts and ends with characters that are
not blank, has no bar in it, is no formula and is not made of rule characters alone
(`Formatter.isShown_text`).  Amounts and currency symbols have these properties each, and putting
them next to each other keeps them.  Nor is there a line feed in it, unless the currency has one
(`Formatter.newline_not_mem_text`).
-/

namespace ComputedTables

open Decimal

/-- Characters that stand in a cell as they are, and neither for a formula nor for a rule. -/
structure IsShown (cs : List Char) : Prop where
  bar : '|' ∉ cs
  first : ∃ c ∈ cs.head?, Text.isBlank c = false ∧ c ≠ '='
  last : ∃ c ∈ cs.getLast?, Text.isBlank c = false
  notRule : ∃ c ∈ cs, Grid.isRule c = false

theorem Grid.isBlank_of_isRule_eq_false {c : Char} (h : isRule c = false) :
    Text.isBlank c = false := by
  unfold isRule at h
  exact (Bool.or_eq_false_iff.1 h).2

namespace IsShown

variable {cs ds gap : List Char}

theorem of_chars (hne : cs ≠ []) (h : ∀ c ∈ cs, Grid.isRule c = false ∧ c ≠ '=') : IsShown cs where
  bar := fun hbar => absurd (h _ hbar).1 (by decide)
  first := by
    obtain ⟨c, rest, rfl⟩ := List.exists_cons_of_ne_nil hne
    obtain ⟨hrule, hmark⟩ := h c List.mem_cons_self
    exact ⟨c, rfl, Grid.isBlank_of_isRule_eq_false hrule, hmark⟩
  last := ⟨_, List.getLast_mem_getLast? hne,
    Grid.isBlank_of_isRule_eq_false (h _ (List.getLast_mem hne)).1⟩
  notRule := ⟨_, List.head_mem hne, (h _ (List.head_mem hne)).1⟩

theorem append (hcs : IsShown cs) (hgap : '|' ∉ gap) (hds : IsShown ds) :
    IsShown (cs ++ gap ++ ds) where
  bar := by simp [hcs.bar, hgap, hds.bar]
  first := by
    obtain ⟨c, hc, hfirst⟩ := hcs.first
    exact ⟨c, by simp [Option.mem_def.1 hc], hfirst⟩
  last := by
    obtain ⟨c, hc, hlast⟩ := hds.last
    exact ⟨c, by simp [Option.mem_def.1 hc], hlast⟩
  notRule := by
    obtain ⟨c, hc, hrule⟩ := hcs.notRule
    exact ⟨c, by simp [hc], hrule⟩

theorem negated (h : IsShown cs) : IsShown ('-' :: cs) where
  bar := by simp [h.bar]
  first := ⟨'-', rfl, by decide⟩
  last := by
    obtain ⟨c, hc, hlast⟩ := h.last
    exact ⟨c, by simp [Option.mem_def.1 hc, List.getLast?_cons], hlast⟩
  notRule := by
    obtain ⟨c, hc, hrule⟩ := h.notRule
    exact ⟨c, List.mem_cons_of_mem _ hc, hrule⟩

theorem trim_eq (h : IsShown cs) : Text.trim cs = cs := by
  obtain ⟨first, hfirst, hstart, -⟩ := h.first
  obtain ⟨last, hlast, hend⟩ := h.last
  refine Text.trim_eq_self (fun c hc => ?_) fun c hc => ?_
  · rwa [Option.mem_unique hc hfirst]
  · rwa [Option.mem_unique hc hlast]

end IsShown

/-! ### Digits -/

/-- Digits before the point, and digits or nothing behind it. -/
structure Decimal.Numeral.IsWritten (n : Numeral) : Prop where
  whole_ne_nil : n.whole ≠ []
  whole : ∀ c ∈ n.whole, c.isDigit = true
  fraction : ∀ c ∈ n.fraction, c.isDigit = true

theorem isWritten_ofUnits (places units : Nat) : (Numeral.ofUnits places units).IsWritten := by
  have hdigits : ∀ c ∈ List.replicate (places + 1 - (digitChars units).length) '0'
      ++ digitChars units, c.isDigit = true := by
    refine List.forall_mem_append.2 ⟨fun c hc => ?_, fun c hc =>
      Nat.isDigit_of_mem_toDigits (by omega) le_rfl hc⟩
    rw [List.eq_of_mem_replicate hc]
    decide
  constructor
  · refine List.ne_nil_of_length_pos ?_
    simp only [Numeral.ofUnits, List.length_take, List.length_append, List.length_replicate]
    omega
  · exact fun c hc => hdigits c (List.mem_of_mem_take hc)
  · exact fun c hc => hdigits c (List.mem_of_mem_drop hc)

theorem isWritten_fixed {x : Float} (h : x.isFinite = true) (places : Nat) :
    (fixed places x).IsWritten := by
  obtain ⟨mantissa, exponent, hx⟩ := magnitude_of_isFinite h
  unfold fixed
  rw [hx]
  exact isWritten_ofUnits places _

theorem Decimal.Numeral.IsWritten.dropZerosEnd {n : Numeral} (h : n.IsWritten) :
    { n with fraction := ComputedTables.dropZerosEnd n.fraction : Numeral }.IsWritten where
  whole_ne_nil := h.whole_ne_nil
  whole := h.whole
  fraction := fun c hc => h.fraction c (List.mem_reverse.1
    ((List.dropWhile_sublist _).subset (List.mem_reverse.1 hc)))

theorem mem_grouped {separator c : Char} : ∀ {digits : List Char},
    c ∈ grouped separator digits → c = separator ∨ c ∈ digits
  | d :: digits, h => by
    rw [grouped] at h
    split at h
    · simp only [List.mem_cons] at h ⊢
      rcases h with rfl | rfl | h
      · exact .inr (.inl rfl)
      · exact .inl rfl
      · exact (mem_grouped h).imp_right .inr
    · rcases List.mem_cons.1 h with rfl | h
      · exact .inr List.mem_cons_self
      · exact (mem_grouped h).imp_right (List.mem_cons_of_mem _)

theorem head?_grouped (separator : Char) (digits : List Char) :
    (grouped separator digits).head? = digits.head? := by
  rcases digits with _ | ⟨d, digits⟩
  · rfl
  · rw [grouped]
    split <;> rfl

theorem getLast?_grouped (separator : Char) : ∀ digits : List Char,
    (grouped separator digits).getLast? = digits.getLast?
  | [] => rfl
  | [d] => by simp [grouped]
  | d :: e :: digits => by
    have ih := getLast?_grouped separator (e :: digits)
    have hne : grouped separator (e :: digits) ≠ [] := by
      rw [← List.isSome_head?, head?_grouped]
      rfl
    rw [grouped]
    split
    · rw [List.getLast?_cons_cons, List.getLast?_cons_of_ne_nil hne, ih, List.getLast?_cons_cons]
    · rw [List.getLast?_cons_of_ne_nil hne, ih, List.getLast?_cons_cons]

theorem isRule_eq_false_of_isDigit {c : Char} (h : c.isDigit = true) : Grid.isRule c = false := by
  rw [← Bool.not_eq_true]
  intro hrule
  simp [not_isDigit_of_isRule hrule] at h

theorem of_lookup_eq_some {α β : Type} [BEq α] [LawfulBEq α] {p : β → Prop}
    {table : List (α × β)} (hall : ∀ entry ∈ table, p entry.2) {key : α} {value : β}
    (h : table.lookup key = some value) : p value := by
  obtain ⟨before, after, rfl, -⟩ := List.lookup_eq_some_iff.1 h
  exact hall (key, value) (by simp)

/-! ### Amounts -/

namespace Conventions

/-- No character of these conventions is the given one. -/
structure Lacks (c : Conventions) (x : Char) : Prop where
  group : c.group ≠ x
  mark : c.mark ≠ x
  gap : x ∉ c.gap

instance (c : Conventions) (x : Char) : Decidable (c.Lacks x) :=
  decidable_of_iff (c.group ≠ x ∧ c.mark ≠ x ∧ x ∉ c.gap)
    ⟨fun ⟨hgroup, hmark, hgap⟩ => ⟨hgroup, hmark, hgap⟩, fun h => ⟨h.group, h.mark, h.gap⟩⟩

theorem of_ofTag {p : Conventions → Prop} (htags : ∀ entry ∈ tags, p entry.2)
    (hlanguages : ∀ entry ∈ languages, p entry.2) (henglish : p english) (tag : String) :
    p (ofTag tag) := by
  unfold ofTag
  dsimp only
  rcases htag : tags.lookup _ with _ | conventions
  · rcases hlanguage : languages.lookup _ with _ | conventions
    · exact henglish
    · exact of_lookup_eq_some hlanguages hlanguage
  · exact of_lookup_eq_some htags htag

theorem lacks_bar (tag : String) : (ofTag tag).Lacks '|' :=
  of_ofTag (p := (·.Lacks '|')) (by decide) (by decide) (by decide) tag

theorem lacks_newline (tag : String) : (ofTag tag).Lacks '\n' :=
  of_ofTag (p := (·.Lacks '\n')) (by decide) (by decide) (by decide) tag

theorem not_mem_amount {c : Conventions} {n : Numeral} (hn : n.IsWritten) {x : Char}
    (hc : c.Lacks x) (hx : x.isDigit = false) : x ∉ c.amount n := by
  have hdigit : ∀ {cs : List Char}, (∀ d ∈ cs, d.isDigit = true) → x ∉ cs := fun hcs h => by
    simp [hcs x h] at hx
  have hwhole : x ∉ grouped c.group n.whole := fun h =>
    (mem_grouped h).elim hc.group.symm (hdigit hn.whole)
  unfold amount
  split
  · simpa using hwhole
  · simp [hwhole, hdigit hn.fraction, hc.mark.symm]

theorem head?_amount (c : Conventions) {n : Numeral} (hn : n.IsWritten) :
    ∃ d ∈ (c.amount n).head?, d.isDigit = true := by
  obtain ⟨d, rest, hwhole⟩ := List.exists_cons_of_ne_nil hn.whole_ne_nil
  have hhead : (grouped c.group n.whole).head? = some d := by
    rw [head?_grouped, hwhole, List.head?_cons]
  exact ⟨d, by simp [amount, hhead], hn.whole d (by simp [hwhole])⟩

theorem getLast?_amount (c : Conventions) {n : Numeral} (hn : n.IsWritten) :
    ∃ d ∈ (c.amount n).getLast?, d.isDigit = true := by
  unfold amount
  rcases hfraction : n.fraction with _ | ⟨d, ds⟩
  · refine ⟨n.whole.getLast hn.whole_ne_nil, ?_, hn.whole _ (List.getLast_mem _)⟩
    simp [getLast?_grouped, List.getLast?_eq_some_getLast hn.whole_ne_nil]
  · refine ⟨(d :: ds).getLast (List.cons_ne_nil d ds), ?_, hn.fraction _ ?_⟩
    · simp [List.getLast?_eq_some_getLast]
    · rw [hfraction]
      exact List.getLast_mem _

theorem isShown_amount {c : Conventions} (hc : c.Lacks '|') {n : Numeral} (hn : n.IsWritten) :
    IsShown (c.amount n) := by
  have hblank : ∀ {d : Char}, d.isDigit = true → Text.isBlank d = false := fun hd =>
    Text.isBlank_of_isWord (Text.isWord_of_isDigit hd)
  obtain ⟨first, hfirst, hstart⟩ := c.head?_amount hn
  obtain ⟨last, hlast, hend⟩ := c.getLast?_amount hn
  have hmark : first ≠ '=' := by
    rintro rfl
    exact absurd hstart (by decide)
  exact {
    bar := not_mem_amount hn hc (by decide)
    first := ⟨first, hfirst, hblank hstart, hmark⟩
    last := ⟨last, hlast, hblank hend⟩
    notRule := ⟨first, List.mem_of_mem_head? hfirst, isRule_eq_false_of_isDigit hstart⟩ }

end Conventions

/-! ### Currencies -/

theorem isShown_of_isCurrencyCode {code : String} (h : isCurrencyCode code.toList = true) :
    IsShown code.toList := by
  obtain ⟨hlength, hletters⟩ := Bool.and_eq_true_iff.1 h
  refine .of_chars (fun hnil => by simp [hnil] at hlength) fun c hc => ?_
  have hletter := List.all_eq_true.1 hletters c hc
  have hnot : ∀ d : Char, d.isAlpha = false → c ≠ d := by
    rintro d hd rfl
    simp [hd] at hletter
  have hblank := Text.isBlank_of_isWord (Text.isWord_of_isAlpha hletter)
  refine ⟨?_, hnot '=' (by decide)⟩
  simp [Grid.isRule, hblank, hnot '-' (by decide), hnot ':' (by decide), hnot '|' (by decide)]

theorem isShown_symbolOf {code : String} (h : isCurrencyCode code.toList = true) :
    IsShown (symbolOf code).toList := by
  unfold symbolOf
  rcases hsymbol : List.lookup code _ with _ | symbol
  · exact isShown_of_isCurrencyCode h
  · have hall := of_lookup_eq_some (p := fun symbol : String =>
        symbol.toList ≠ [] ∧ ∀ c ∈ symbol.toList, Grid.isRule c = false ∧ c ≠ '=')
      (by simp [Grid.isRule, Text.isBlank]) hsymbol
    exact .of_chars hall.1 hall.2

theorem Conventions.isShown_withCurrency {c : Conventions} (hc : c.Lacks '|') {code : String}
    (hcode : isCurrencyCode code.toList = true) {amount : List Char} (ha : IsShown amount) :
    IsShown (c.withCurrency code amount) := by
  have hsymbol := isShown_symbolOf hcode
  have hgap : '|' ∉ if symbolOf code = code ∧ c.gap = [] then [noBreakSpace] else c.gap := by
    split
    · decide
    · exact hc.gap
  unfold withCurrency
  dsimp only
  rcases c.placement with _ | _
  · exact hsymbol.append hgap ha
  · exact ha.append hgap hsymbol

/-! ### Beside an amount -/

/-- The characters of a symbol are those of its code, or neither digits nor line feeds. -/
theorem mem_symbolOf {code : String} {x : Char} (hx : x ∈ (symbolOf code).toList) :
    x ∈ code.toList ∨ x.isDigit = false ∧ x ≠ '\n' := by
  unfold symbolOf at hx
  rcases hsymbol : List.lookup code _ with _ | symbol
  · rw [hsymbol] at hx
    exact .inl hx
  · rw [hsymbol] at hx
    exact .inr (of_lookup_eq_some (p := fun symbol : String =>
      ∀ x ∈ symbol.toList, x.isDigit = false ∧ x ≠ '\n') (by simp) hsymbol x hx)

namespace Conventions

/-- What stands before and behind every amount of a currency: its symbol on the side where the
locale has it, and a gap in between, which is missing only where it is so in the locale and the
symbol is not the code. -/
def Beside (c : Conventions) (code : String) (before after : List Char) : Prop :=
  ∃ gap, gap = (if symbolOf code = code ∧ c.gap = [] then [noBreakSpace] else c.gap) ∧
    (c.placement = .before ∧ before = (symbolOf code).toList ++ gap ∧ after = [] ∨
      c.placement = .after ∧ before = [] ∧ after = gap ++ (symbolOf code).toList)

theorem exists_beside (c : Conventions) (code : String) : ∃ before after,
    c.Beside code before after ∧
      ∀ amount, c.withCurrency code amount = before ++ amount ++ after := by
  unfold withCurrency
  rcases hp : c.placement with _ | _
  · exact ⟨_, _, ⟨_, rfl, .inl ⟨hp, rfl, rfl⟩⟩, fun amount => (List.append_nil _).symm⟩
  · exact ⟨_, _, ⟨_, rfl, .inr ⟨hp, rfl, rfl⟩⟩, fun amount => List.append_assoc amount _ _⟩

theorem Beside.mem {c : Conventions} {code : String} {before after : List Char}
    (h : c.Beside code before after) {x : Char} (hx : x ∈ before ++ after) :
    x ∈ code.toList ∨ x ∈ c.gap ∨ x.isDigit = false ∧ x ≠ '\n' := by
  obtain ⟨gap, rfl, hsides⟩ := h
  have hmem : x ∈ (symbolOf code).toList ∨
      x ∈ if symbolOf code = code ∧ c.gap = [] then [noBreakSpace] else c.gap := by
    rcases hsides with ⟨-, rfl, rfl⟩ | ⟨-, rfl, rfl⟩
    · simpa only [List.append_nil, List.mem_append] using hx
    · simpa only [List.nil_append, List.mem_append, or_comm] using hx
  rcases hmem with hsymbol | hgap
  · exact (mem_symbolOf hsymbol).imp_right .inr
  · split at hgap
    · rw [List.mem_singleton.1 hgap]
      exact .inr (.inr (by decide))
    · exact .inr (.inl hgap)

end Conventions

/-! ### Displayed numbers -/

namespace Formatter

theorem isShown_finiteChars {f : Formatter} (hf : f.conventions.Lacks '|') {value : Float}
    (hvalue : value.isFinite = true) {currency : Option String}
    (hcode : ∀ code ∈ currency, isCurrencyCode code.toList = true) :
    IsShown (f.finiteChars value currency) := by
  have hwritten := isWritten_fixed hvalue f.places
  have hsigned : ∀ {cs : List Char}, IsShown cs →
      IsShown ((if value < 0 ∧ !(fixed f.places value).isZero then ['-'] else []) ++ cs) := by
    intro cs h
    split
    · exact h.negated
    · exact h
  unfold finiteChars
  rcases currency with _ | code
  · exact hsigned (Conventions.isShown_amount hf hwritten.dropZerosEnd)
  · exact hsigned (Conventions.isShown_withCurrency hf (hcode code rfl)
      (Conventions.isShown_amount hf hwritten))

theorem isShown_text (settings : Settings) (value : Float) {currency : Option String}
    (hcode : ∀ code ∈ currency, isCurrencyCode code.toList = true) :
    IsShown (settings.formatter.text value currency).toList := by
  have hlacks : settings.formatter.conventions.Lacks '|' := by
    simp only [Settings.formatter]
    exact Conventions.lacks_bar settings.locale
  unfold text
  split
  · rename_i hfinite
    rw [String.toList_ofList]
    exact isShown_finiteChars hlacks hfinite hcode
  · split
    · exact .of_chars (by decide) (by simp [Grid.isRule, Text.isBlank])
    · have hinfinity : IsShown ['∞'] :=
        .of_chars (by decide) (by simp [Grid.isRule, Text.isBlank])
      split
      · exact hinfinity
      · exact hinfinity.negated

/-! ### Line feeds -/

theorem newline_not_mem_finiteChars {f : Formatter} (hf : f.conventions.Lacks '\n')
    {value : Float} (hvalue : value.isFinite = true) {currency : Option String}
    (hcode : ∀ code ∈ currency, '\n' ∉ code.toList) : '\n' ∉ f.finiteChars value currency := by
  have hwritten := isWritten_fixed hvalue f.places
  have hsign : ∀ {cs : List Char}, '\n' ∉ cs →
      '\n' ∉ (if value < 0 ∧ !(fixed f.places value).isZero then ['-'] else []) ++ cs := by
    intro cs h
    split <;> simp [h]
  unfold finiteChars
  rcases currency with _ | code
  · exact hsign (Conventions.not_mem_amount hwritten.dropZerosEnd hf (by decide))
  · have hamount := Conventions.not_mem_amount hwritten hf (by decide)
    obtain ⟨before, after, hbeside, heq⟩ := f.conventions.exists_beside code
    have hsides : '\n' ∉ before ++ after := by
      intro hmem
      rcases hbeside.mem hmem with hc | hg | ⟨-, hne⟩
      · exact hcode code rfl hc
      · exact hf.gap hg
      · exact hne rfl
    rw [List.mem_append, not_or] at hsides
    refine hsign ?_
    rw [heq]
    simp [hamount, hsides]

/-- A displayed number is on one line, unless its currency is not. -/
theorem newline_not_mem_text (settings : Settings) (value : Float) {currency : Option String}
    (hcode : ∀ code ∈ currency, '\n' ∉ code.toList) :
    '\n' ∉ (settings.formatter.text value currency).toList := by
  have hlacks : settings.formatter.conventions.Lacks '\n' := by
    simp only [Settings.formatter]
    exact Conventions.lacks_newline settings.locale
  unfold text
  split
  · rename_i hfinite
    rw [String.toList_ofList]
    exact newline_not_mem_finiteChars hlacks hfinite hcode
  · split
    · decide
    · split <;> decide

end Formatter

end ComputedTables
