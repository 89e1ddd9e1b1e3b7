import ComputedTables.Proofs.DecimalsRead
import ComputedTables.Proofs.PlainNumbers
import ComputedTables.Proofs.Writings

/-!
# Literals are read by their longest numeric start

A decimal is an optional sign, digits with at most one point, and an optional exponent
(`WrittenDecimal`).  What is read of a text is the longest decimal that the text starts with, and
its value is the number nearest to that decimal (`reads_longest_start`).  Each part takes as much as
it can, and a decimal that takes less of one part has nothing behind it: digits that stop early are
followed by a digit, which starts no other part.  A point without digits and a letter without an
exponent are where this has to be looked at (`exists_longest_tail`, `exists_longest_exponent`).
-/

namespace ComputedTables.Decimal

/-! ### Written decimals -/

/-- An optional sign, `true` for a minus. -/
def signChars : Option Bool → List Char
  | none => []
  | some false => ['+']
  | some true => ['-']

/-- A letter, an optional sign and digits. -/
@[ext]
structure WrittenExponent where
  letter : Char
  sign : Option Bool
  digits : List Char
  isLetter : letter = 'e' ∨ letter = 'E'
  isDigit : ∀ c ∈ digits, c.isDigit = true
  digits_ne_nil : digits ≠ []

namespace WrittenExponent

def chars (x : WrittenExponent) : List Char :=
  x.letter :: (signChars x.sign ++ x.digits)

def power (x : WrittenExponent) : ℤ :=
  if x.sign = some true then -ofDigits x.digits else ofDigits x.digits

end WrittenExponent

def pointChars : Option (List Char) → List Char
  | none => []
  | some digits => '.' :: digits

def exponentChars : Option WrittenExponent → List Char
  | none => []
  | some x => x.chars

def exponentPower (exponent : Option WrittenExponent) : ℤ :=
  (exponent.map WrittenExponent.power).getD 0

/-- A decimal `[+-]?(d+(.d*)?|.d+)([eE][+-]?d+)?`: an optional sign, digits with at most one point,
and an optional exponent. -/
@[ext]
structure WrittenDecimal where
  sign : Option Bool
  whole : List Char
  /-- The digits after the point, if there is a point. -/
  fraction : Option (List Char)
  exponent : Option WrittenExponent
  whole_isDigit : ∀ c ∈ whole, c.isDigit = true
  fraction_isDigit : ∀ digits ∈ fraction, ∀ c ∈ digits, c.isDigit = true
  hasDigit : whole ≠ [] ∨ fraction.getD [] ≠ []

namespace WrittenDecimal

/-- The characters of a decimal behind its sign. -/
def unsigned (n : WrittenDecimal) : List Char :=
  n.whole ++ (pointChars n.fraction ++ exponentChars n.exponent)

def chars (n : WrittenDecimal) : List Char :=
  signChars n.sign ++ n.unsigned

def negative (n : WrittenDecimal) : Bool :=
  n.sign == some true

/-- The number that a decimal writes, without its sign. -/
def size (n : WrittenDecimal) : ℚ :=
  decimalSize n.whole (n.fraction.getD []) (exponentPower n.exponent)

/-- The decimal is the longest one that the characters start with. -/
structure IsLongestIn (n : WrittenDecimal) (cs : List Char) : Prop where
  starts : n.chars <+: cs
  longest : ∀ n' : WrittenDecimal, n'.chars <+: cs → n'.chars.length ≤ n.chars.length

end WrittenDecimal

/-! ### Runs of digits -/

theorem eq_or_length_lt {l l' : List Char} (h : l <+: l') :
    l = l' ∨ l.length < l'.length :=
  h.length_le.eq_or_lt.imp_left h.eq_of_length

/-- What starts with digits and goes on with something else has all the digits, unless it ends
there. -/
theorem start_takeDigits {run rest cs : List Char} (hrun : ∀ c ∈ run, c.isDigit = true)
    (hrest : ∀ c ∈ rest.head?, c.isDigit = false) (h : run ++ rest <+: cs) :
    (run = (takeDigits cs).1 ∧ rest <+: (takeDigits cs).2) ∨
      (rest = [] ∧ run.length < (takeDigits cs).1.length) := by
  obtain ⟨behind, rfl⟩ := h
  rcases rest with _ | ⟨c, rest⟩
  · have hstart : run <+: (takeDigits (run ++ [] ++ behind)).1 := by
      rw [List.append_nil, takeDigits, List.takeWhile_append_of_pos hrun]
      exact List.prefix_append ..
    exact (eq_or_length_lt hstart).imp (⟨·, List.nil_prefix⟩) (⟨rfl, ·⟩)
  · have hstop : ∀ d ∈ ((c :: rest) ++ behind).head?, d.isDigit = false := by simpa using hrest
    rw [List.append_assoc, takeDigits_append hrun hstop]
    exact .inl ⟨rfl, List.prefix_append ..⟩

/-! ### Signs -/

/-- No sign is at the start. -/
def LacksSign (cs : List Char) : Prop :=
  ∀ c ∈ cs.head?, c ≠ '-' ∧ c ≠ '+'

theorem exists_sign (cs : List Char) : ∃ sign rest, cs = signChars sign ++ rest ∧
    takeSign cs = (sign == some true, rest) ∧ (sign = none → LacksSign rest) := by
  unfold takeSign
  split
  · exact ⟨some true, _, rfl, rfl, nofun⟩
  · exact ⟨some false, _, rfl, rfl, nofun⟩
  · rename_i hminus hplus
    refine ⟨none, cs, rfl, rfl, fun _ => ?_⟩
    rcases cs with _ | ⟨c, cs⟩
    · exact nofun
    · intro d hd
      cases hd
      exact ⟨fun h => hminus cs (h ▸ rfl), fun h => hplus cs (h ▸ rfl)⟩

theorem not_lacksSign (negative : Bool) (rest : List Char) :
    ¬ LacksSign (signChars (some negative) ++ rest) := by
  intro h
  cases negative
  · exact (h '+' rfl).2 rfl
  · exact (h '-' rfl).1 rfl

theorem sign_eq_of_append_eq {sign sign' : Option Bool} {rest rest' : List Char}
    (hsign : sign = none → LacksSign rest) (hsign' : sign' = none → LacksSign rest')
    (h : signChars sign ++ rest = signChars sign' ++ rest') : sign = sign' ∧ rest = rest' := by
  rcases sign with _ | negative <;> rcases sign' with _ | negative'
  · exact ⟨rfl, h⟩
  · obtain rfl : rest = signChars (some negative') ++ rest' := h
    exact absurd (hsign rfl) (not_lacksSign negative' rest')
  · obtain rfl : signChars (some negative) ++ rest = rest' := h
    exact absurd (hsign' rfl) (not_lacksSign negative rest)
  · cases negative <;> cases negative' <;> simp_all [signChars]

/-- What starts with the same characters starts with the same sign. -/
theorem sign_eq_of_start {sign sign' : Option Bool} {rest rest' : List Char}
    (hsign : sign = none → LacksSign rest) (hne : rest' ≠ []) (hrest' : LacksSign rest')
    (h : signChars sign' ++ rest' <+: signChars sign ++ rest) : sign' = sign ∧ rest' <+: rest := by
  obtain ⟨behind, heq⟩ := h
  rw [List.append_assoc] at heq
  have hlacks : LacksSign (rest' ++ behind) := by
    rwa [LacksSign, List.head?_append_of_ne_nil _ hne]
  obtain ⟨hsame, hrest⟩ := sign_eq_of_append_eq (fun _ => hlacks) hsign heq
  exact ⟨hsame, behind, hrest⟩

theorem lacksSign_of_isDigit {cs : List Char} (h : ∀ c ∈ cs, c.isDigit = true) : LacksSign cs := by
  intro c hc
  have hdigit := h c (List.mem_of_mem_head? hc)
  constructor <;> rintro rfl <;> exact absurd hdigit (by decide)

/-! ### Exponents -/

/-- A letter is no digit. -/
theorem isDigit_eq_false_of_exponentChars {exponent : Option WrittenExponent} :
    ∀ c ∈ (exponentChars exponent).head?, c.isDigit = false := by
  rcases exponent with _ | x
  · exact nofun
  · intro c hc
    cases hc
    rcases x.isLetter with h | h <;> rw [h] <;> decide

/-- An exponent that starts behind the same letter has the same sign, and its digits are a start of
those that are there. -/
theorem WrittenExponent.start_takeDigits (x : WrittenExponent) {letter : Char} {sign : Option Bool}
    {rest : List Char} (hsign : sign = none → LacksSign rest)
    (h : x.chars <+: letter :: (signChars sign ++ rest)) :
    x.letter = letter ∧ x.sign = sign ∧ x.digits <+: (takeDigits rest).1 := by
  obtain ⟨hletter, htail⟩ := List.cons_prefix_cons.1 h
  obtain ⟨hsame, hdigits⟩ :=
    sign_eq_of_start hsign x.digits_ne_nil (lacksSign_of_isDigit x.isDigit) htail
  refine ⟨hletter, hsame, ?_⟩
  obtain ⟨behind, rfl⟩ := hdigits
  rw [takeDigits, List.takeWhile_append_of_pos x.isDigit]
  exact List.prefix_append ..

/-- The characters start with the exponent, and with no other one that is as long. -/
structure IsLongestExponent (exponent : Option WrittenExponent) (cs : List Char) : Prop where
  starts : exponentChars exponent <+: cs
  longest : ∀ exponent', exponentChars exponent' <+: cs → exponent' = exponent ∨
    (exponentChars exponent').length < (exponentChars exponent).length

theorem isLongestExponent_none {cs : List Char} (h : ∀ x : WrittenExponent, ¬ x.chars <+: cs) :
    IsLongestExponent none cs := by
  refine ⟨List.nil_prefix, fun exponent' hstart => .inl ?_⟩
  rcases exponent' with _ | x
  · rfl
  · exact absurd hstart (h x)

theorem isLongestExponent_some {x : WrittenExponent} {rest : List Char}
    (hsign : x.sign = none → LacksSign rest) (hdigits : x.digits = (takeDigits rest).1) :
    IsLongestExponent (some x) (x.letter :: (signChars x.sign ++ rest)) := by
  obtain ⟨-, -, happend⟩ := takeDigits_spec rest
  constructor
  · refine List.cons_prefix_cons.2 ⟨rfl, (List.prefix_append_right_inj _).2 ?_⟩
    exact ⟨_, hdigits ▸ happend⟩
  · intro exponent' hstart
    rcases exponent' with _ | x'
    · exact .inr (Nat.succ_pos _)
    · obtain ⟨hletter, hsame, hshorter⟩ := x'.start_takeDigits hsign hstart
      rw [← hdigits] at hshorter
      rcases eq_or_length_lt hshorter with hequal | hlt
      · exact .inl (congrArg some (WrittenExponent.ext hletter hsame hequal))
      · refine .inr ?_
        simpa [exponentChars, WrittenExponent.chars, hsame] using hlt

/-- The exponent that is taken is the longest one. -/
theorem exists_longest_exponent (cs : List Char) : ∃ exponent, IsLongestExponent exponent cs ∧
    exponentPower exponent = takeExponent cs := by
  rcases cs with _ | ⟨letter, cs⟩
  · exact ⟨none, isLongestExponent_none fun x h => List.cons_ne_nil _ _ (List.prefix_nil.1 h), rfl⟩
  by_cases hletter : letter = 'e' ∨ letter = 'E'
  · obtain ⟨sign, rest, rfl, htake, hsign⟩ := exists_sign cs
    obtain ⟨hdigits, -, -⟩ := takeDigits_spec rest
    have hpower : takeExponent (letter :: (signChars sign ++ rest))
        = if sign = some true then -(ofDigits (takeDigits rest).1 : ℤ)
          else ofDigits (takeDigits rest).1 := by
      unfold takeExponent
      simp [hletter, htake]
    by_cases hne : (takeDigits rest).1 = []
    · refine ⟨none, isLongestExponent_none fun x h => ?_, ?_⟩
      · obtain ⟨-, -, hstart⟩ := x.start_takeDigits hsign h
        rw [hne] at hstart
        exact x.digits_ne_nil (List.prefix_nil.1 hstart)
      · rw [hpower, hne]
        split <;> rfl
    · let x : WrittenExponent := ⟨letter, sign, (takeDigits rest).1, hletter, hdigits, hne⟩
      exact ⟨some x, isLongestExponent_some (x := x) hsign rfl, hpower.symm⟩
  · refine ⟨none, isLongestExponent_none fun x h => ?_, ?_⟩
    · obtain ⟨hsame, -⟩ := List.cons_prefix_cons.1 h
      exact hletter (hsame ▸ x.isLetter)
    · unfold takeExponent
      simp [hletter]
      rfl

/-! ### Fractions -/

/-- The characters start with a fraction and an exponent, and no other fraction and exponent that
they start with is as long. -/
structure IsLongestTail (fraction : Option (List Char)) (exponent : Option WrittenExponent)
    (cs : List Char) : Prop where
  isDigit : ∀ digits ∈ fraction, ∀ c ∈ digits, c.isDigit = true
  starts : pointChars fraction ++ exponentChars exponent <+: cs
  fraction_longest : ∀ fraction' exponent', (∀ digits ∈ fraction', ∀ c ∈ digits, c.isDigit = true) →
    pointChars fraction' ++ exponentChars exponent' <+: cs →
      (fraction'.getD []).length ≤ (fraction.getD []).length
  longest : ∀ fraction' exponent', (∀ digits ∈ fraction', ∀ c ∈ digits, c.isDigit = true) →
    pointChars fraction' ++ exponentChars exponent' <+: cs →
      fraction' = fraction ∧ exponent' = exponent ∨
        (pointChars fraction' ++ exponentChars exponent').length
          < (pointChars fraction ++ exponentChars exponent).length

theorem IsLongestTail.getD_isDigit {fraction : Option (List Char)}
    {exponent : Option WrittenExponent} {cs : List Char} (h : IsLongestTail fraction exponent cs) :
    ∀ c ∈ fraction.getD [], c.isDigit = true := by
  rcases fraction with _ | digits
  · exact nofun
  · exact h.isDigit digits rfl

theorem isLongestTail_point {cs : List Char} {exponent : Option WrittenExponent}
    (hexponent : IsLongestExponent exponent (takeDigits cs).2) :
    IsLongestTail (some (takeDigits cs).1) exponent ('.' :: cs) := by
  obtain ⟨hdigits, -, happend⟩ := takeDigits_spec cs
  refine ⟨?_, ?_, fun fraction' exponent' hfraction' h => ?_,
    fun fraction' exponent' hfraction' h => ?_⟩
  · rintro _ ⟨⟩
    exact hdigits
  · refine List.cons_prefix_cons.2 ⟨rfl, ?_⟩
    conv_rhs => rw [← happend]
    exact (List.prefix_append_right_inj _).2 hexponent.starts
  · rcases fraction' with _ | digits
    · exact Nat.zero_le _
    · obtain ⟨-, htail⟩ := List.cons_prefix_cons.1 h
      rcases start_takeDigits (hfraction' _ rfl) isDigit_eq_false_of_exponentChars htail with
        ⟨hsame, -⟩ | ⟨-, hlt⟩
      · exact (congrArg List.length hsame).le
      · exact hlt.le
  · rcases fraction' with _ | digits
    · -- an exponent does not start with a point
      rcases exponent' with _ | x
      · exact .inr (Nat.succ_pos _)
      · obtain ⟨hletter, -⟩ := List.cons_prefix_cons.1 h
        rcases x.isLetter with hx | hx <;> rw [hx] at hletter <;> cases hletter
    · obtain ⟨-, htail⟩ := List.cons_prefix_cons.1 h
      rcases start_takeDigits (hfraction' _ rfl) isDigit_eq_false_of_exponentChars htail with
        ⟨rfl, hstart⟩ | ⟨hnil, hlt⟩
      · refine (hexponent.longest exponent' hstart).imp (⟨rfl, ·⟩) fun hlt => ?_
        simpa [pointChars] using hlt
      · refine .inr ?_
        rw [hnil]
        simp only [pointChars, List.length_append, List.length_cons, List.length_nil]
        omega

theorem isLongestTail_none {cs : List Char} (hpoint : '.' ∉ cs.head?)
    {exponent : Option WrittenExponent} (hexponent : IsLongestExponent exponent cs) :
    IsLongestTail none exponent cs := by
  have hnone : ∀ fraction' exponent', pointChars fraction' ++ exponentChars exponent' <+: cs →
      fraction' = none := by
    rintro (_ | digits) exponent' ⟨behind, rfl⟩
    · rfl
    · exact absurd rfl hpoint
  refine ⟨nofun, hexponent.starts, fun fraction' exponent' _ h => ?_,
    fun fraction' exponent' _ h => ?_⟩
  · rw [hnone fraction' exponent' h]
  · obtain rfl := hnone fraction' exponent' h
    exact (hexponent.longest exponent' h).imp_left (⟨rfl, ·⟩)

/-- The fraction and the exponent that are taken are the longest ones. -/
theorem exists_longest_tail (cs : List Char) : ∃ fraction exponent,
    IsLongestTail fraction exponent cs ∧ fraction.getD [] = (takeFraction cs).1 ∧
      exponentPower exponent = takeExponent (takeFraction cs).2 := by
  obtain ⟨exponent, hexponent, hpower⟩ := exists_longest_exponent (takeFraction cs).2
  by_cases hpoint : '.' ∈ cs.head?
  · obtain ⟨rest, rfl⟩ : ∃ rest, cs = '.' :: rest := by
      rcases cs with _ | ⟨c, rest⟩
      · cases hpoint
      · cases hpoint
        exact ⟨rest, rfl⟩
    exact ⟨some (takeDigits rest).1, exponent, isLongestTail_point hexponent, rfl, hpower⟩
  · have htake : takeFraction cs = ([], cs) := by
      unfold takeFraction
      split
      · exact absurd rfl hpoint
      · rfl
    rw [htake] at hexponent hpower ⊢
    exact ⟨none, exponent, isLongestTail_none hpoint hexponent, rfl, hpower⟩

/-! ### The whole decimal -/

theorem isDigit_eq_false_of_tail {fraction : Option (List Char)}
    {exponent : Option WrittenExponent} :
    ∀ c ∈ (pointChars fraction ++ exponentChars exponent).head?, c.isDigit = false := by
  rcases fraction with _ | digits
  · exact isDigit_eq_false_of_exponentChars
  · intro c hc
    cases hc
    decide

namespace WrittenDecimal

variable (n : WrittenDecimal)

theorem unsigned_ne_nil : n.unsigned ≠ [] := by
  rcases n.hasDigit with h | h
  · simp [unsigned, h]
  · rcases hfraction : n.fraction with _ | digits
    · simp [hfraction] at h
    · simp [unsigned, hfraction, pointChars]

theorem lacksSign_unsigned : LacksSign n.unsigned := by
  unfold unsigned
  rcases hwhole : n.whole with _ | ⟨c, rest⟩
  · have hdigit := n.hasDigit.resolve_left (not_not.2 hwhole)
    rcases hfraction : n.fraction with _ | digits
    · simp [hfraction] at hdigit
    · intro c hc
      cases hc
      decide
  · have hdigit := n.whole_isDigit
    rw [hwhole] at hdigit
    intro d hd
    cases hd
    exact lacksSign_of_isDigit hdigit c rfl

end WrittenDecimal

/-- The sign and the digits before the point are those that are there, or else nothing follows fewer
digits. -/
theorem WrittenDecimal.parts_of_start (n : WrittenDecimal) {sign : Option Bool} {cs : List Char}
    (hsign : sign = none → LacksSign cs) (h : n.chars <+: signChars sign ++ cs) : n.sign = sign ∧
      (n.whole = (takeDigits cs).1 ∧
          pointChars n.fraction ++ exponentChars n.exponent <+: (takeDigits cs).2 ∨
        pointChars n.fraction ++ exponentChars n.exponent = [] ∧
          n.whole.length < (takeDigits cs).1.length) := by
  obtain ⟨hsame, hunsigned⟩ := sign_eq_of_start hsign n.unsigned_ne_nil n.lacksSign_unsigned h
  exact ⟨hsame, start_takeDigits n.whole_isDigit isDigit_eq_false_of_tail hunsigned⟩

/-- The decimal that takes as much as it can of each part is the longest one. -/
theorem longest_of_isLongestTail {sign : Option Bool} {cs : List Char}
    (hsign : sign = none → LacksSign cs) {n n' : WrittenDecimal} (hn : n.sign = sign)
    (hwhole : n.whole = (takeDigits cs).1)
    (htail : IsLongestTail n.fraction n.exponent (takeDigits cs).2)
    (h : n'.chars <+: signChars sign ++ cs) : n' = n ∨ n'.chars.length < n.chars.length := by
  obtain ⟨hsame, hparts⟩ := n'.parts_of_start hsign h
  rw [← hwhole] at hparts
  simp only [WrittenDecimal.chars, WrittenDecimal.unsigned, List.length_append, hsame, hn]
  rcases hparts with ⟨hwhole', hstart⟩ | ⟨hnil, hlt⟩
  · rcases htail.longest _ _ n'.fraction_isDigit hstart with ⟨hfraction, hexponent⟩ | hlt
    · exact .inl (WrittenDecimal.ext (hsame.trans hn.symm) hwhole' hfraction hexponent)
    · refine .inr ?_
      rw [List.length_append, List.length_append] at hlt
      rw [hwhole']
      omega
  · refine .inr ?_
    have hlength := congrArg List.length hnil
    rw [List.length_append, List.length_nil] at hlength
    omega

/-- What is read is the longest decimal at the start of the characters, and there is nothing to read
only where there is no decimal. -/
theorem exists_longest (cs : List Char) :
    ((∀ n : WrittenDecimal, ¬ n.chars <+: cs) ∧ numericStart? cs = none) ∨
      ∃ n : WrittenDecimal, n.chars <+: cs ∧
        (∀ n' : WrittenDecimal, n'.chars <+: cs →
          n' = n ∨ n'.chars.length < n.chars.length) ∧
        ∃ x, IsNearest n.negative n.size x ∧
          numericStart? cs = if x.isFinite then some x else none := by
  obtain ⟨sign, unsigned, rfl, htake, hsign⟩ := exists_sign cs
  obtain ⟨hwhole, -, happend⟩ := takeDigits_spec unsigned
  obtain ⟨fraction, exponent, htail, hfraction, hpower⟩ :=
    exists_longest_tail (takeDigits unsigned).2
  have hread : numericStart? (signChars sign ++ unsigned)
      = if (takeDigits unsigned).1.isEmpty && (fraction.getD []).isEmpty then none
        else
          let value := nearest (sign == some true) (takeDigits unsigned).1 (fraction.getD [])
            (exponentPower exponent)
          if value.isFinite then some value else none := by
    rw [hfraction, hpower]
    unfold numericStart?
    rw [htake]
  by_cases hdigit : (takeDigits unsigned).1 ≠ [] ∨ fraction.getD [] ≠ []
  · refine .inr ⟨⟨sign, _, fraction, exponent, hwhole, htail.isDigit, hdigit⟩, ?_,
      fun n' h => longest_of_isLongestTail hsign rfl rfl htail h, _,
      isNearest_nearest _ hwhole htail.getD_isDigit _, ?_⟩
    · refine (List.prefix_append_right_inj _).2 ?_
      conv_rhs => rw [← happend]
      exact (List.prefix_append_right_inj _).2 htail.starts
    · rw [hread, if_neg (by simpa [imp_iff_not_or] using hdigit)]
      rfl
  · refine .inl ⟨fun n h => hdigit ?_, by rw [hread, if_pos (by simpa using hdigit)]⟩
    obtain ⟨-, ⟨hsame, hstart⟩ | ⟨-, hlt⟩⟩ := n.parts_of_start hsign h
    · refine n.hasDigit.imp (hsame ▸ ·) fun hne => ?_
      have hle := htail.fraction_longest _ _ n.fraction_isDigit hstart
      exact List.length_pos_iff.1 ((List.length_pos_iff.2 hne).trans_le hle)
    · exact .inl (List.length_pos_iff.1 (Nat.zero_lt_of_lt hlt))

/-- A decimal is read to its end. -/
theorem numericStart?_chars (n : WrittenDecimal) : ∃ x, IsNearest n.negative n.size x ∧
    numericStart? n.chars = if x.isFinite then some x else none := by
  rcases exists_longest n.chars with ⟨hnone, -⟩ | ⟨n', hstart, hlongest, hread⟩
  · exact absurd List.prefix_rfl (hnone n)
  · obtain rfl := (hlongest n List.prefix_rfl).resolve_right (not_lt.2 hstart.length_le)
    exact hread

/-- The nearest number is finite where the size is not too large. -/
theorem IsNearest.isFinite_iff {negative : Bool} {q : ℚ} {x : Float} (h : IsNearest negative q x) :
    x.isFinite = true ↔ q < overflowBound := by
  have hmagnitude := h.magnitude
  rcases hfinite : x.isFinite with _ | _
  · refine iff_of_false nofun ?_
    rcases magnitude_of_not_isFinite hfinite with hx | hx <;> rw [hx] at hmagnitude
    · exact hmagnitude.elim
    · exact not_lt.2 hmagnitude
  · obtain ⟨mantissa, exponent, hx⟩ := magnitude_of_isFinite hfinite
    rw [hx] at hmagnitude
    exact iff_of_true rfl hmagnitude.1

/-- What is read of the characters is the value of the longest decimal that they start with, if
there is such a decimal and its value is finite. -/
structure ReadsLongest (cs : List Char) (value : Option Float) : Prop where
  none_iff : value = none ↔ (∀ n : WrittenDecimal, ¬ n.chars <+: cs) ∨
    ∃ (n : WrittenDecimal) (x : Float), n.IsLongestIn cs ∧ IsNearest n.negative n.size x ∧
      x.isFinite = false
  some_iff : ∀ x, value = some x ↔ ∃ n : WrittenDecimal, n.IsLongestIn cs ∧
    IsNearest n.negative n.size x ∧ x.isFinite = true

theorem readsLongest_numericStart? (cs : List Char) : ReadsLongest cs (numericStart? cs) := by
  rcases exists_longest cs with ⟨hnone, hread⟩ | ⟨n, hn, hlongest, x, hx, hread⟩
  · rw [hread]
    refine ⟨iff_of_true rfl (.inl hnone), fun x => iff_of_false nofun ?_⟩
    rintro ⟨n, hn, -⟩
    exact hnone n hn.starts
  · have hsound : n.IsLongestIn cs := by
      refine ⟨hn, fun n' h => ?_⟩
      rcases hlongest n' h with rfl | hlt
      · exact le_rfl
      · exact hlt.le
    -- there is one longest decimal and one number nearest to it
    have hunique (n' : WrittenDecimal) (y : Float) (hn' : n'.IsLongestIn cs)
        (hy : IsNearest n'.negative n'.size y) : y = x := by
      obtain rfl := (hlongest n' hn'.starts).resolve_right (not_lt.2 (hn'.longest n hn))
      exact hy.unique hx
    rw [hread]
    constructor
    · rw [ite_eq_right_iff]
      constructor
      · intro h
        refine .inr ⟨n, x, hsound, hx, Bool.eq_false_iff.2 fun hfinite => ?_⟩
        cases h hfinite
      · rintro (h | ⟨n', y, hn', hy, hfinite⟩) htrue
        · exact absurd hn (h n)
        · rw [hunique n' y hn' hy, htrue] at hfinite
          cases hfinite
    · intro y
      rw [Option.ite_none_right_eq_some, Option.some_inj]
      constructor
      · rintro ⟨hfinite, rfl⟩
        exact ⟨n, hsound, hx, hfinite⟩
      · rintro ⟨n', hn', hy, hfinite⟩
        obtain rfl := hunique n' y hn' hy
        exact ⟨hfinite, rfl⟩

/-- A literal is read by the longest decimal at its start, once blanks at its ends are dropped and,
for a cell, its ornaments. -/
theorem reads_longest_start (text : String) :
    ReadsLongest (Text.trim text.toList) (leading? text) ∧
      ReadsLongest (Text.trim (text.toList.filter (· ∉ [',', '$', '€', '£', '¥', '₹'])))
        (literal? text) := by
  have hornaments : text.toList.filter (fun c => !ornaments.contains c)
      = text.toList.filter (· ∉ [',', '$', '€', '£', '¥', '₹']) := by
    refine List.filter_congr fun c _ => ?_
    rw [List.contains_eq_mem, ← decide_not, ornaments]
  refine ⟨readsLongest_numericStart? _, ?_⟩
  rw [literal?, hornaments]
  exact readsLongest_numericStart? _

end ComputedTables.Decimal
