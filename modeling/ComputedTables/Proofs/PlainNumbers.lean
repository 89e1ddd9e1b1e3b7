import Mathlib
import ComputedTables.Proofs.Writings

/-!
# Finite numbers are written as literals

The plain text of a finite number is a literal of an expression: digits, or digits, a point and more
digits, behind a minus if the number is negative (`exists_literal_of_isFinite`).
-/

namespace ComputedTables

open Decimal

/-- Digits, or digits, a point and digits. -/
def IsUnsigned (cs : List Char) : Prop :=
  ∃ n : WrittenNumber, n.IsLiteral ∧ n.negative = false ∧ n.chars = cs

theorem IsUnsigned.exists_literal {cs : List Char} (h : IsUnsigned cs) (negative : Bool) :
    ∃ n : Literal, n.chars = (if negative then ['-'] else []) ++ cs := by
  obtain ⟨⟨_, whole, pointed, fraction⟩, hn, rfl, rfl⟩ := h
  refine ⟨⟨⟨negative, whole, pointed, fraction⟩,
    hn.whole, hn.fraction, hn.pointed, hn.hasDigit⟩, ?_⟩
  simp [Literal.chars, WrittenNumber.chars]

theorem isUnsigned_positionalText {digits : List Char} (hne : digits ≠ [])
    (hdigits : ∀ c ∈ digits, c.isDigit = true) (point : Int) :
    IsUnsigned (positionalText digits point false) := by
  have hzeros : ∀ k, ∀ c ∈ List.replicate k '0', c.isDigit = true := fun k c hc => by
    rw [List.eq_of_mem_replicate hc]
    decide
  unfold positionalText
  split
  · exact ⟨⟨false, ['0'], true, List.replicate (-point).toNat '0' ++ digits⟩,
      ⟨by simp, List.forall_mem_append.2 ⟨hzeros _, hdigits⟩, nofun, by simp⟩, rfl, rfl⟩
  · split
    · refine ⟨⟨false, digits.take point.toNat, true, digits.drop point.toNat⟩,
        ⟨fun c hc => hdigits c (List.mem_of_mem_take hc),
          fun c hc => hdigits c (List.mem_of_mem_drop hc), nofun, .inl ?_⟩, rfl, ?_⟩
      · have : point.toNat ≠ 0 := by omega
        simp [hne, this]
      · simp [WrittenNumber.chars]
    · refine ⟨⟨false, digits ++ List.replicate (point.toNat - digits.length) '0', false, []⟩,
        ⟨List.forall_mem_append.2 ⟨hdigits, hzeros _⟩, by simp, fun _ => rfl, .inl (by simp [hne])⟩,
        rfl, ?_⟩
      simp [WrittenNumber.chars]

theorem isUnsigned_magnitudeText (mantissa : Nat) (exponent : Int) :
    IsUnsigned (plain.magnitudeText mantissa exponent) := by
  unfold Layout.magnitudeText
  split
  · exact isUnsigned_positionalText (List.cons_ne_nil '0' []) (by simp) 1
  · exact isUnsigned_positionalText Nat.toDigits_ne_nil
      (fun c hc => Nat.isDigit_of_mem_toDigits (by omega) le_rfl hc) _

/-- What is not finite has all bits of the exponent set. -/
theorem isFinite_iff_exponent (x : Float) :
    x.isFinite = true ↔ x.toBits.toNat / Nat.pow 2 52 % Nat.pow 2 11 ≠ 2047 := by
  have hexponent : @Float.Model.UnpackedFloat.unpackExponent .binary64
      x.toModel.toBits.toBitVec = BitVec.allOnes 11 ↔
        x.toBits.toNat / Nat.pow 2 52 % Nat.pow 2 11 = 2047 := by
    rw [← BitVec.toNat_inj]
    simp [Float.toBits, Float.Model.UnpackedFloat.unpackExponent, Nat.shiftRight_eq_div_pow]
  unfold Float.isFinite Float.Model.isFinite Float.Model.unpack Float.Model.UnpackedFloat.unpack
  dsimp only
  rw [Ne, ← hexponent]
  split
  · rename_i hall
    refine iff_of_false ?_ (not_not.2 hall)
    split <;> exact Bool.false_ne_true
  · rename_i hnot
    refine iff_of_true ?_ hnot
    split
    · split <;> rfl
    · rfl

theorem magnitude_of_isFinite {x : Float} (h : x.isFinite = true) :
    ∃ mantissa exponent, (Binary.ofFloat x).magnitude = .finite mantissa exponent := by
  unfold Binary.ofFloat
  dsimp only
  rw [if_neg ((isFinite_iff_exponent x).1 h)]
  split <;> exact ⟨_, _, rfl⟩

theorem magnitude_of_not_isFinite {x : Float} (h : x.isFinite = false) :
    (Binary.ofFloat x).magnitude = .nan ∨ (Binary.ofFloat x).magnitude = .infinite := by
  have hexponent := mt (isFinite_iff_exponent x).2 (Bool.eq_false_iff.1 h)
  unfold Binary.ofFloat
  dsimp only
  rw [if_pos (not_not.1 hexponent)]
  split <;> simp

/-- A finite number is written as a literal. -/
theorem exists_literal_of_isFinite {x : Float} (h : x.isFinite = true) :
    ∃ n : Literal, n.chars = plain.chars x := by
  obtain ⟨mantissa, exponent, hx⟩ := magnitude_of_isFinite h
  have hchars : plain.chars x = (if (Binary.ofFloat x).negative then ['-'] else [])
      ++ plain.magnitudeText mantissa exponent := by
    unfold Layout.chars
    dsimp only
    rw [hx]
  rw [hchars]
  exact (isUnsigned_magnitudeText mantissa exponent).exists_literal _

end ComputedTables
