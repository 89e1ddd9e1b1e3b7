import ComputedTables.Proofs.FixedPlaces

/-!
# Displayed numbers lose nothing but the rounding

A finite number is displayed as its fixed places in the conventions of a locale: the digits before
the mark in groups of three, then the mark and the fraction (`Conventions.Shows`).  Without the
separators and with a point for the mark these are the fixed places again, plain numbers without the
zeros at the end of the fraction.  A minus stands in front where the number is negative and not all
places are zeros, and where the conventions are the English ones, reading a plain number as a
literal gives the number nearest to the places that were displayed (`text_loses_only_rounding`).
-/

namespace ComputedTables

open Decimal

/-! ### Groups of digits -/

/-- Digits are cut into a first group of one to three and further groups of exactly three. -/
structure IsCut (digits first : List Char) (rest : List (List Char)) : Prop where
  append : first ++ rest.flatten = digits
  pos : 1 ≤ first.length
  le : first.length ≤ 3
  full : ∀ group ∈ rest, group.length = 3

/-- Digits in groups of three, the first one possibly shorter, with a separator between every two
groups and nowhere else. -/
structure IsGrouped (separator : Char) (digits shown : List Char) : Prop where
  groups : ∃ first rest, IsCut digits first rest ∧
    shown = first ++ rest.flatMap (separator :: ·)
  first : ∀ c ∈ shown.head?, c ≠ separator
  last : ∀ c ∈ shown.getLast?, c ≠ separator

theorem IsCut.length_eq {digits first : List Char} {rest : List (List Char)}
    (h : IsCut digits first rest) : digits.length = first.length + 3 * rest.length := by
  rw [← h.append, List.length_append, List.length_flatten, List.map_congr_left h.full,
    List.map_const', List.sum_replicate, smul_eq_mul, Nat.mul_comm]

theorem exists_isCut (separator : Char) : ∀ {digits : List Char}, digits ≠ [] →
    ∃ first rest, IsCut digits first rest ∧
      grouped separator digits = first ++ rest.flatMap (separator :: ·)
  | [d], _ => ⟨[d], [], ⟨rfl, le_rfl, by simp, nofun⟩, by simp [grouped]⟩
  | d :: e :: digits, _ => by
    obtain ⟨first, rest, hcut, hshown⟩ := exists_isCut separator (List.cons_ne_nil e digits)
    have hlength := hcut.length_eq
    obtain ⟨happend, hpos, hle, hfull⟩ := hcut
    rw [grouped, hshown]
    split
    · rename_i hmod
      -- the groups behind the digit are all full, so it is a group of its own
      exact ⟨[d], first :: rest, ⟨by simp [happend], le_rfl, by simp,
        List.forall_mem_cons.2 ⟨by omega, hfull⟩⟩, by simp⟩
    · rename_i hmod
      have hshort : first.length ≠ 3 := fun hthree => hmod ⟨by omega, List.cons_ne_nil e digits⟩
      refine ⟨d :: first, rest, ⟨by simp [happend], by simp, ?_, hfull⟩, by simp⟩
      rw [List.length_cons]
      omega

theorem isGrouped_grouped {separator : Char} {digits : List Char} (hne : digits ≠ [])
    (hseparator : separator ∉ digits) : IsGrouped separator digits (grouped separator digits) where
  groups := exists_isCut separator hne
  first := fun c hc h => by
    rw [head?_grouped] at hc
    exact hseparator (h ▸ List.mem_of_mem_head? hc)
  last := fun c hc h => by
    rw [getLast?_grouped] at hc
    exact hseparator (h ▸ List.mem_of_mem_getLast? hc)

/-- What drops the separators only leaves the digits. -/
theorem filter_grouped {separator : Char} {p : Char → Bool} (hp : p separator = false) :
    ∀ {digits : List Char}, (∀ d ∈ digits, p d = true) →
      (grouped separator digits).filter p = digits
  | [], _ => rfl
  | d :: digits, h => by
    obtain ⟨hd, hdigits⟩ := List.forall_mem_cons.1 h
    have ih := filter_grouped hp hdigits
    rw [grouped]
    split <;> simp [hd, hp, ih]

/-! ### Amounts -/

namespace Conventions

/-- The conventions have marks of their own, neither digits nor a minus, and the gap is a space. -/
structure IsClear (c : Conventions) : Prop where
  group : c.group.isDigit = false
  mark : c.mark.isDigit = false
  gap : c.gap = [] ∨ c.gap = [noBreakSpace]
  ne : c.mark ≠ c.group
  lacks : c.Lacks '-'

theorem isClear_ofTag (tag : String) : (ofTag tag).IsClear := by
  obtain ⟨hgroup, hmark, hgap, hne, hlacks⟩ := of_ofTag (p := fun c => c.group.isDigit = false ∧
    c.mark.isDigit = false ∧ (c.gap = [] ∨ c.gap = [noBreakSpace]) ∧ c.mark ≠ c.group ∧
    c.Lacks '-') (by decide) (by decide) (by decide) tag
  exact ⟨hgroup, hmark, hgap, hne, hlacks⟩

/-- The characters are a numeral in these conventions. -/
structure Shows (c : Conventions) (n : Numeral) (shown : List Char) : Prop where
  layout : ∃ whole, IsGrouped c.group n.whole whole ∧
    shown = whole ++ (if n.fraction = [] then [] else c.mark :: n.fraction)
  chars : (shown.filter (· ≠ c.group)).map (fun x => if x = c.mark then '.' else x) = n.chars
  noMinus : '-' ∉ shown

variable {c : Conventions} {n : Numeral}

theorem ne_of_isDigit {x d : Char} (hx : x.isDigit = false) (hd : d.isDigit = true) : d ≠ x := by
  rintro rfl
  rw [hd] at hx
  cases hx

/-- What drops the separators only leaves the numeral with the mark of the locale. -/
theorem filter_amount {p : Char → Bool} (hn : n.IsWritten)
    (hdigit : ∀ d : Char, d.isDigit = true → p d = true) (hgroup : p c.group = false)
    (hmark : p c.mark = true) : (c.amount n).filter p
      = n.whole ++ (if n.fraction = [] then [] else c.mark :: n.fraction) := by
  have hwhole := filter_grouped hgroup fun d hd => hdigit d (hn.whole d hd)
  have hfraction : n.fraction.filter p = n.fraction :=
    List.filter_eq_self.2 fun d hd => hdigit d (hn.fraction d hd)
  unfold amount
  rw [List.filter_append, hwhole]
  simp only [List.isEmpty_iff]
  split
  · rfl
  · rw [List.filter_cons_of_pos hmark, hfraction]

theorem shows_amount (hc : c.IsClear) (hn : n.IsWritten) : c.Shows n (c.amount n) where
  layout := by
    refine ⟨_, isGrouped_grouped hn.whole_ne_nil fun h => ?_, ?_⟩
    · exact ne_of_isDigit hc.group (hn.whole _ h) rfl
    · simp only [amount, List.isEmpty_iff]
  chars := by
    have hmap : ∀ digits : List Char, (∀ d ∈ digits, d.isDigit = true) →
        digits.map (fun x => if x = c.mark then '.' else x) = digits := fun digits h =>
      (List.map_congr_left fun d hd => if_neg (ne_of_isDigit hc.mark (h d hd))).trans
        (List.map_id' digits)
    rw [filter_amount hn (fun d hd => decide_eq_true (ne_of_isDigit hc.group hd)) (by simp)
      (decide_eq_true hc.ne), List.map_append, hmap _ hn.whole, Numeral.chars]
    split
    · rfl
    · rw [List.map_cons, if_pos rfl, hmap _ hn.fraction]
  noMinus := not_mem_amount hn hc.lacks (by decide)

/-- Beside an amount there are no digits, unless the currency has some. -/
theorem Beside.isDigit_eq_false {code : String} {before after : List Char}
    (h : c.Beside code before after) (hc : c.IsClear)
    (hcode : ∀ x ∈ code.toList, x.isDigit = false) {x : Char} (hx : x ∈ before ++ after) :
    x.isDigit = false := by
  rcases h.mem hx with hmem | hgap | ⟨hdigit, -⟩
  · exact hcode x hmem
  · rcases hc.gap with hnil | hspace
    · rw [hnil] at hgap
      cases hgap
    · rw [hspace, List.mem_singleton] at hgap
      rw [hgap]
      decide
  · exact hdigit

end Conventions

/-! ### Zeros at the end -/

theorem exists_zeros (digits : List Char) : ∃ zeros,
    digits = dropZerosEnd digits ++ List.replicate zeros '0' ∧
      (dropZerosEnd digits).getLast? ≠ some '0' := by
  obtain ⟨hzeros, hstop, happend⟩ := takeWhile_spec (· == '0') digits.reverse
  refine ⟨(digits.reverse.takeWhile (· == '0')).length, ?_, fun hlast => ?_⟩
  · have hreplicate : digits.reverse.takeWhile (· == '0')
        = List.replicate (digits.reverse.takeWhile (· == '0')).length '0' :=
      List.eq_replicate_of_mem fun c hc => beq_iff_eq.1 (hzeros c hc)
    rw [← List.reverse_inj, List.reverse_append, List.reverse_replicate, ← hreplicate,
      dropZerosEnd, List.reverse_reverse, happend]
  · rw [dropZerosEnd, List.getLast?_reverse] at hlast
    exact absurd (hstop '0' hlast) (by decide)

/-! ### Reading what was displayed -/

/-- A numeral behind a minus or behind nothing, as a decimal. -/
def Decimal.Numeral.IsWritten.decimal {n : Numeral} (h : n.IsWritten) (negative : Bool) :
    WrittenDecimal where
  sign := if negative then some true else none
  whole := n.whole
  fraction := if n.fraction = [] then none else some n.fraction
  exponent := none
  whole_isDigit := h.whole
  fraction_isDigit := fun digits hdigits => by
    split at hdigits <;> cases hdigits
    exact h.fraction
  hasDigit := .inl h.whole_ne_nil

section

variable {n : Numeral} (h : n.IsWritten) (negative : Bool)

include h in
theorem Decimal.Numeral.IsWritten.isBlank_of_mem_chars {c : Char} (hc : c ∈ n.chars) :
    Text.isBlank c = false := by
  have hdigit : ∀ {d : Char}, d.isDigit = true → Text.isBlank d = false := fun hd =>
    Text.isBlank_of_isWord (Text.isWord_of_isDigit hd)
  rcases List.mem_append.1 hc with hwhole | hfraction
  · exact hdigit (h.whole c hwhole)
  · split at hfraction
    · cases hfraction
    · rcases List.mem_cons.1 hfraction with rfl | hmem
      · decide
      · exact hdigit (h.fraction c hmem)

theorem Decimal.Numeral.IsWritten.chars_decimal :
    (h.decimal negative).chars = (if negative then ['-'] else []) ++ n.chars := by
  have hfraction : pointChars (if n.fraction = [] then none else some n.fraction)
      = if n.fraction = [] then [] else '.' :: n.fraction := by
    split <;> rfl
  have hsign : signChars (if negative then some true else none)
      = if negative then ['-'] else [] := by
    cases negative <;> rfl
  rw [Numeral.chars, ← hfraction, ← hsign, WrittenDecimal.chars, WrittenDecimal.unsigned]
  simp only [decimal, exponentChars, List.append_nil]

theorem Decimal.Numeral.IsWritten.size_decimal : (h.decimal negative).size = n.size := by
  have hfraction : (if n.fraction = [] then none else some n.fraction : Option _).getD []
      = n.fraction := by
    split
    · rename_i hnil
      exact hnil.symm
    · rfl
  rw [WrittenDecimal.size, Numeral.size]
  simp only [decimal, hfraction]
  rfl

end

/-- In the English conventions a numeral behind a minus or behind nothing is read as the nearest
number. -/
theorem literal?_amount_english {n : Numeral} (hn : n.IsWritten) (hsize : n.size < overflowBound)
    (negative : Bool) : ∃ x, literal? (String.ofList ((if negative then ['-'] else [])
      ++ Conventions.english.amount n)) = some x ∧ IsNearest negative n.size x := by
  have hornaments : ∀ d ∈ ornaments, d.isDigit = false := by simp [ornaments]
  have hdigit : ∀ d : Char, d.isDigit = true → (!ornaments.contains d) = true := by
    intro d hd
    rw [Bool.not_eq_true', Bool.eq_false_iff]
    intro h
    exact Conventions.ne_of_isDigit (hornaments d (List.contains_iff_mem.1 h)) hd rfl
  have hfilter : ((if negative then ['-'] else []) ++ Conventions.english.amount n).filter
      (fun c => !ornaments.contains c) = (hn.decimal negative).chars := by
    rw [List.filter_append, Conventions.filter_amount hn hdigit (by decide) (by decide),
      hn.chars_decimal, Numeral.chars]
    cases negative <;> rfl
  have htrim : Text.trim (hn.decimal negative).chars = (hn.decimal negative).chars := by
    have hblank : ∀ c ∈ (hn.decimal negative).chars, Text.isBlank c = false := by
      have hminus : ∀ c ∈ if negative then ['-'] else [], Text.isBlank c = false := by
        intro c hc
        split at hc
        · obtain rfl := List.mem_singleton.1 hc
          decide
        · cases hc
      rw [hn.chars_decimal]
      exact List.forall_mem_append.2 ⟨hminus, fun c hc => hn.isBlank_of_mem_chars hc⟩
    exact Text.trim_eq_self (fun c hc => hblank c (List.mem_of_mem_head? hc))
      fun c hc => hblank c (List.mem_of_mem_getLast? hc)
  obtain ⟨x, hnearest, hread⟩ := numericStart?_chars (hn.decimal negative)
  rw [hn.size_decimal] at hnearest
  have hnegative : (hn.decimal negative).negative = negative := by
    cases negative <;> rfl
  rw [hnegative] at hnearest
  refine ⟨x, ?_, hnearest⟩
  rw [literal?, String.toList_ofList, hfilter, htrim, hread, if_pos (hnearest.isFinite_iff.2 hsize)]

/-! ### The displayed text -/

theorem Decimal.Numeral.not_isZero_iff (n : Numeral) :
    (!n.isZero) = true ↔ ∃ d ∈ n.whole ++ n.fraction, d ≠ '0' := by
  simp only [Numeral.isZero, Bool.not_eq_true', List.all_eq_false, beq_iff_eq, ne_eq]

theorem Settings.places_eq_min (s : Settings) : s.places = min s.precision.toNat 10 := by
  show (if s.precision ≤ Settings.maxPrecision then s.precision else Settings.maxPrecision).toNat
    = min s.precision.toNat 10
  have hmax : Settings.maxPrecision.toNat = 10 := rfl
  simp only [apply_ite UInt8.toNat, UInt8.le_iff_toNat_le, hmax, min_def]

/-- The characters of a finite number, with its minus in front. -/
theorem toList_text (s : Settings) {v : Float} (hv : v.isFinite = true) (currency : Option String) :
    let n := fixed s.places v
    (s.formatter.text v currency).toList
      = (if decide (v < 0 ∧ ∃ d ∈ n.whole ++ n.fraction, d ≠ '0') then ['-'] else [])
        ++ match currency with
          | none => (Conventions.ofTag s.locale).amount
              { n with fraction := dropZerosEnd n.fraction }
          | some code => (Conventions.ofTag s.locale).withCurrency code
              ((Conventions.ofTag s.locale).amount n) := by
  intro n
  have hminus : (if decide (v < 0 ∧ ∃ d ∈ n.whole ++ n.fraction, d ≠ '0') then ['-'] else [])
      = if v < 0 ∧ !n.isZero then ['-'] else [] :=
    if_congr (decide_eq_true_iff.trans (and_congr_right' n.not_isZero_iff.symm)) rfl rfl
  rw [hminus, Formatter.text, if_pos hv, String.toList_ofList]
  unfold Formatter.finiteChars Settings.formatter
  rcases currency with _ | code <;> dsimp only

/-- A finite number is displayed as its fixed places, of which a plain number leaves out the zeros
at the end, in the conventions of the locale.  An amount of money has all of them, between what
stands beside every amount of its currency.  In the English conventions the plain number is read as
the number nearest to those places. -/
theorem text_loses_only_rounding (s : Settings) {v : Float} (hv : v.isFinite = true) :
    let c := Conventions.ofTag s.locale
    let n := fixed s.places v
    let negative := decide (v < 0 ∧ ∃ d ∈ n.whole ++ n.fraction, d ≠ '0')
    let minus := if negative then ['-'] else []
    (∃ mantissa exponent, (Binary.ofFloat v).magnitude = .finite mantissa exponent ∧
      n.IsFixed (min s.precision.toNat 10) (mantissa * 2 ^ exponent)) ∧
    (∃ kept zeros plain, n.fraction = kept ++ List.replicate zeros '0' ∧
      kept.getLast? ≠ some '0' ∧ c.Shows { n with fraction := kept } plain ∧
      (s.formatter.text v none).toList = minus ++ plain) ∧
    (∃ money, c.Shows n money ∧ ∀ code, ∃ before after, c.Beside code before after ∧
      (s.formatter.text v (some code)).toList = minus ++ (before ++ money ++ after) ∧
      ((∀ x ∈ code.toList, x.isDigit = false) → ∀ x ∈ before ++ after, x.isDigit = false)) ∧
    (c = .english → ∃ x, literal? (s.formatter.text v none) = some x ∧
      IsNearest negative n.size x) := by
  intro c n negative minus
  have hclear := Conventions.isClear_ofTag s.locale
  have hwritten : n.IsWritten := isWritten_fixed hv s.places
  obtain ⟨mantissa, exponent, hx⟩ := magnitude_of_isFinite hv
  have hfixed : n.IsFixed (min s.precision.toNat 10) (mantissa * 2 ^ exponent) := by
    rw [← s.places_eq_min]
    exact isFixed_fixed hx s.places
  obtain ⟨zeros, hzeros, hlast⟩ := exists_zeros n.fraction
  refine ⟨⟨mantissa, exponent, hx, hfixed⟩, ⟨dropZerosEnd n.fraction, zeros, _, hzeros, hlast,
    Conventions.shows_amount hclear hwritten.dropZerosEnd, toList_text s hv none⟩,
    ⟨_, Conventions.shows_amount hclear hwritten, fun code => ?_⟩, fun henglish => ?_⟩
  · obtain ⟨before, after, hbeside, heq⟩ := c.exists_beside code
    refine ⟨before, after, hbeside, ?_, fun hcode x => hbeside.isDigit_eq_false hclear hcode⟩
    rw [← heq]
    exact toList_text s hv (some code)
  · have hsize : n.size = Numeral.size { n with fraction := dropZerosEnd n.fraction } := by
      rw [← Numeral.size_append_zeros n.whole (dropZerosEnd n.fraction) zeros, ← hzeros]
    have hlt := hfixed.lt_overflowBound hx
    rw [hsize] at hlt ⊢
    have htext := congrArg String.ofList (toList_text s hv none)
    rw [String.ofList_toList] at htext
    rw [htext]
    dsimp only
    rw [show Conventions.ofTag s.locale = .english from henglish]
    exact literal?_amount_english hwritten.dropZerosEnd hlt negative

theorem english_text_read_back : (-1234567.891 : Float).isFinite = true ∧
    ∃ x, literal? (({} : Settings).formatter.text (-1234567.891) none) = some x ∧
      IsNearest true (123456789 / 100) x := by
  have hfinite : (-1234567.891 : Float).isFinite = true := by decide +kernel
  have hfixed : fixed ({} : Settings).places (-1234567.891)
      = ⟨['1', '2', '3', '4', '5', '6', '7'], ['8', '9']⟩ := by decide +kernel
  have hminus : decide ((-1234567.891 : Float) < 0 ∧
      ∃ d ∈ ['1', '2', '3', '4', '5', '6', '7'] ++ ['8', '9'], d ≠ '0') = true :=
    decide_eq_true ⟨by decide +kernel, '1', by simp, by decide⟩
  have hsize : Numeral.size ⟨['1', '2', '3', '4', '5', '6', '7'], ['8', '9']⟩
      = 123456789 / 100 := by
    have hdigits : ofDigits (['1', '2', '3', '4', '5', '6', '7'] ++ ['8', '9']) = 123456789 := rfl
    rw [Numeral.size, decimalSize, hdigits]
    norm_num
  obtain ⟨-, -, -, hread⟩ := text_loses_only_rounding {} hfinite
  obtain ⟨x, hx, hnearest⟩ := hread (by decide +kernel)
  rw [hfixed, hminus, hsize] at hnearest
  exact ⟨hfinite, x, hx, hnearest⟩

end ComputedTables
