import ComputedTables.Decimal.Fixed
import ComputedTables.Proofs.NumericStarts
import ComputedTables.Proofs.ShownNumbers

/-!
# Fixed places are rounded correctly

A finite number with a fixed count of places is the decimal with that many fraction digits that is
nearest to it, ties to the even last digit, and it is written without needless zeros in front
(`isFixed_fixed`).  Rounding it does not make it infinite (`Numeral.IsFixed.lt_overflowBound`): a
number whose mantissa stands for a whole number stays as it is, and the others are small.
-/

namespace ComputedTables.Decimal

/-! ### Whole quotients -/

theorem isRounded_roundedQuotient (n : ℕ) {d : ℕ} (hd : 0 < d) :
    IsRounded (n / d) (roundedQuotient n d) := by
  have hrest := sub_eq_of_eq_add' (natCast_div_eq n hd)
  have hone := natCast_mod_div_lt_one n hd
  unfold roundedQuotient
  dsimp only
  generalize n % d = r at hrest hone ⊢
  split
  · rename_i hlt
    refine .of_lt ?_
    rw [hrest, abs_of_nonneg (by positivity)]
    exact (natCast_div_lt_half_iff hd).2 hlt
  · split
    · rename_i heq
      exact .of_half (hrest.trans (natCast_div_eq_half hd heq))
    · have hhalf := (half_lt_natCast_div_iff hd).2 (by omega : d < 2 * r)
      refine .of_lt ?_
      push_cast
      rw [abs_lt]
      constructor <;> linarith

theorem isRounded_unitsOf (places mantissa : ℕ) (exponent : ℤ) :
    IsRounded (mantissa * 2 ^ exponent * 10 ^ places) (unitsOf places mantissa exponent) := by
  have hrounded := isRounded_roundedQuotient (mantissa * 10 ^ places * 2 ^ exponent.toNat)
    (Nat.two_pow_pos (-exponent).toNat)
  have hvalue : ((mantissa * 10 ^ places * 2 ^ exponent.toNat : ℕ) : ℚ)
      / (2 ^ (-exponent).toNat : ℕ) = mantissa * 2 ^ exponent * 10 ^ places := by
    have hexp : exponent = exponent.toNat - (-exponent).toNat := by omega
    conv_rhs => rw [hexp, zpow_sub₀ two_ne_zero, zpow_natCast, zpow_natCast]
    push_cast
    ring
  rw [hvalue] at hrounded
  exact hrounded

/-! ### Digits -/

theorem ofDigits_append (digits more : List Char) :
    ofDigits (digits ++ more) = 10 ^ more.length * ofDigits digits + ofDigits more :=
  (Nat.ofDigitChars_append 0).trans Nat.ofDigitChars_eq_ofDigitChars_zero

theorem ofDigits_replicate_zero (n : ℕ) : ofDigits (List.replicate n '0') = 0 :=
  Nat.ofDigitChars_replicate_zero

theorem ofDigits_digitChars (n : ℕ) : ofDigits (digitChars n) = n :=
  Nat.ofDigitChars_ten_toDigits

/-- A number of more than one digit does not start with a zero. -/
theorem head?_digitChars {n : ℕ} (h : 2 ≤ (digitChars n).length) :
    (digitChars n).head? ≠ some '0' := by
  intro hzero
  obtain ⟨rest, hrest⟩ : ∃ rest, digitChars n = '0' :: rest := by
    rcases hdigits : digitChars n with _ | ⟨c, rest⟩ <;> rw [hdigits] at hzero
    · cases hzero
    · cases hzero
      exact ⟨rest, rfl⟩
  rw [hrest, List.length_cons] at h
  have hdigits : ∀ c ∈ rest, c.isDigit = true := fun c hc =>
    Nat.isDigit_of_mem_toDigits (by omega) le_rfl (hrest ▸ List.mem_cons_of_mem _ hc)
  have hvalue : ofDigits rest = n := by
    rw [← ofDigits_digitChars n, hrest]
    rfl
  -- so few digits would be enough
  have hlt : n < 10 ^ rest.length := hvalue ▸ ofDigits_lt hdigits
  have hlength := (Nat.length_toDigits_le_iff (by omega) (by omega)).2 hlt
  have : (digitChars n).length = rest.length + 1 := by rw [hrest, List.length_cons]
  unfold digitChars at this
  omega

namespace Numeral

/-- The number that a numeral writes. -/
def size (n : Numeral) : ℚ :=
  decimalSize n.whole n.fraction 0

/-- The characters of a numeral with a point, unless there is nothing behind the point. -/
def chars (n : Numeral) : List Char :=
  n.whole ++ (if n.fraction = [] then [] else '.' :: n.fraction)

/-- The numeral is `q`, rounded to a fixed count of places, ties to the even last digit. -/
structure IsFixed (places : ℕ) (q : ℚ) (n : Numeral) : Prop extends n.IsWritten where
  length_fraction : n.fraction.length = places
  /-- Only a single digit before the point is a zero. -/
  noLeadingZero : 2 ≤ n.whole.length → n.whole.head? ≠ some '0'
  rounded : ∃ units, IsRounded (q * 10 ^ places) units ∧ n.size = units / 10 ^ places

variable (places units : ℕ)

theorem length_fraction_ofUnits : (ofUnits places units).fraction.length = places := by
  simp only [ofUnits, List.length_drop, List.length_append, List.length_replicate]
  omega

theorem whole_append_fraction_ofUnits :
    (ofUnits places units).whole ++ (ofUnits places units).fraction
      = List.replicate (places + 1 - (digitChars units).length) '0' ++ digitChars units :=
  List.take_append_drop ..

theorem head?_whole_ofUnits (h : 2 ≤ (ofUnits places units).whole.length) :
    (ofUnits places units).whole.head? ≠ some '0' := by
  have hlength := congrArg List.length (whole_append_fraction_ofUnits places units)
  rw [List.length_append, List.length_append, length_fraction_ofUnits,
    List.length_replicate] at hlength
  have hhead : (ofUnits places units).whole.head? = (digitChars units).head? := by
    have hsame := congrArg List.head? (whole_append_fraction_ofUnits places units)
    rw [List.head?_append_of_ne_nil _ (List.ne_nil_of_length_pos (by omega))] at hsame
    rw [hsame, show places + 1 - (digitChars units).length = 0 by omega, List.replicate_zero,
      List.nil_append]
  rw [hhead]
  exact head?_digitChars (by omega)

theorem size_ofUnits : (ofUnits places units).size = units / 10 ^ places := by
  have hdigits : ofDigits ((ofUnits places units).whole ++ (ofUnits places units).fraction)
      = units := by
    rw [whole_append_fraction_ofUnits, ofDigits_append, ofDigits_replicate_zero,
      ofDigits_digitChars, Nat.mul_zero, Nat.zero_add]
  rw [size, decimalSize, hdigits, length_fraction_ofUnits, zero_sub, zpow_neg, zpow_natCast,
    div_eq_mul_inv]

/-- Zeros at the end of the fraction do not count. -/
theorem size_append_zeros (whole fraction : List Char) (zeros : ℕ) :
    size ⟨whole, fraction ++ List.replicate zeros '0'⟩ = size ⟨whole, fraction⟩ := by
  have hten : (10 : ℚ) ≠ 0 := by norm_num
  simp only [size, decimalSize]
  rw [← List.append_assoc, ofDigits_append, ofDigits_replicate_zero, List.length_append,
    List.length_replicate, Nat.add_zero]
  push_cast
  rw [show (0 : ℤ) - (fraction.length + zeros) = -zeros + (0 - fraction.length) by ring,
    zpow_add₀ hten, zpow_neg, zpow_natCast]
  field_simp

end Numeral

/-! ### Finite numbers -/

/-- A number with a fixed count of places is rounded correctly. -/
theorem isFixed_fixed {x : Float} {mantissa : ℕ} {exponent : ℤ}
    (hx : (Binary.ofFloat x).magnitude = .finite mantissa exponent) (places : ℕ) :
    (fixed places x).IsFixed places (mantissa * 2 ^ exponent) := by
  unfold fixed
  rw [hx]
  exact {
    toIsWritten := isWritten_ofUnits places _
    length_fraction := Numeral.length_fraction_ofUnits ..
    noLeadingZero := Numeral.head?_whole_ofUnits places _
    rounded := ⟨_, isRounded_unitsOf .., Numeral.size_ofUnits ..⟩ }

/-- Every finite number is at most as large as a finite number that is whole. -/
theorem exists_whole_ge {mantissa : ℕ} {exponent : ℤ} (h : IsCanonical mantissa exponent)
    (hle : exponent ≤ 971) :
    ∃ k : ℕ, (mantissa : ℚ) * 2 ^ exponent ≤ k ∧ (k : ℚ) < overflowBound := by
  have hm : (mantissa : ℚ) ≤ 2 ^ 53 - 1 := by
    have : ((mantissa + 1 : ℕ) : ℚ) ≤ (2 ^ 53 : ℕ) := by exact_mod_cast h.lt
    push_cast at this
    linarith
  rcases le_or_gt 0 exponent with hwhole | hfraction
  · obtain ⟨e, rfl⟩ := Int.eq_ofNat_of_zero_le hwhole
    refine ⟨mantissa * 2 ^ e, ?_, ?_⟩ <;> push_cast
    · rw [zpow_natCast]
    · calc (mantissa : ℚ) * 2 ^ e ≤ (2 ^ 53 - 1) * 2 ^ (971 : ℤ) := by
            rw [← zpow_natCast]
            gcongr
            exact one_le_two
        _ < (2 ^ 53 - 1 / 2) * 2 ^ (971 : ℤ) := by
            gcongr
            norm_num
        _ = overflowBound := overflowBound_eq.symm
  · refine ⟨2 ^ 53, ?_, ?_⟩ <;> push_cast
    · calc (mantissa : ℚ) * 2 ^ exponent ≤ mantissa * 2 ^ (0 : ℤ) := by
            gcongr
            exact one_le_two
        _ ≤ 2 ^ 53 := by
            rw [zpow_zero]
            linarith
    · calc (2 : ℚ) ^ 53 = 2 ^ (53 : ℤ) := (zpow_natCast 2 53).symm
        _ < 2 ^ (1023 : ℤ) := zpow_lt_zpow_right₀ one_lt_two (by decide)
        _ ≤ overflowBound := two_pow_le_overflowBound

theorem Numeral.IsFixed.lt_overflowBound {places : ℕ} {x : Float} {mantissa : ℕ} {exponent : ℤ}
    (hx : (Binary.ofFloat x).magnitude = .finite mantissa exponent) {n : Numeral}
    (h : n.IsFixed places (mantissa * 2 ^ exponent)) : n.size < overflowBound := by
  obtain ⟨hcanonical, hle⟩ := isCanonical_of_ofFloat hx
  obtain ⟨k, hk, hlt⟩ := exists_whole_ge hcanonical hle
  obtain ⟨units, hrounded, hsize⟩ := h.rounded
  have hunits : units ≤ k * 10 ^ places := by
    refine hrounded.natCast_le ?_
    push_cast
    gcongr
  calc n.size = units / 10 ^ places := hsize
    _ ≤ k := by
      rw [div_le_iff₀ (by positivity)]
      exact_mod_cast hunits
    _ < overflowBound := hlt

end ComputedTables.Decimal
