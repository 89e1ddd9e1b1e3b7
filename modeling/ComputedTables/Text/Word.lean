import ComputedTables.Text.Blank

/-!
# Words and letter case

Names inside a formula are words of ASCII letters, digits and underscores, and where a formula
ignores the case of a letter it means the ASCII letters only.  All functions here are those of
`Char`, which know ASCII alone.
-/

namespace ComputedTables.Text

/-- Holds of the characters that names are made of. -/
def isWord (c : Char) : Bool :=
  c.isAlphanum || c == '_'

/-- Each ASCII capital letter made small. -/
def lowercase (cs : List Char) : List Char :=
  cs.map Char.toLower

/-- Each ASCII small letter made a capital. -/
def uppercase (cs : List Char) : List Char :=
  cs.map Char.toUpper

/-- Whether two texts differ at most in the case of ASCII letters. -/
def sameLetters (cs ds : List Char) : Bool :=
  lowercase cs == lowercase ds

/-- The longest word that the characters start with, and what follows it. -/
def leadingWord (cs : List Char) : List Char × List Char :=
  (cs.takeWhile isWord, cs.dropWhile isWord)

/-- Whether the text holds `part` as consecutive characters. -/
def holds (part : List Char) : List Char → Bool
  | [] => part.isEmpty
  | c :: cs => part.isPrefixOf (c :: cs) || holds part cs

theorem length_of_sameLetters {cs ds : List Char} (h : sameLetters cs ds = true) :
    cs.length = ds.length := by
  simpa [lowercase] using congrArg List.length (eq_of_beq h)

theorem leadingWord_append (cs : List Char) : (leadingWord cs).1 ++ (leadingWord cs).2 = cs :=
  List.takeWhile_append_dropWhile

theorem leadingWord_append_of_stop {word rest : List Char} (hw : ∀ c ∈ word, isWord c = true)
    (hr : ∀ c ∈ rest.head?, isWord c = false) : leadingWord (word ++ rest) = (word, rest) :=
  Prod.ext (takeWhile_append_of_stop hw hr) (dropWhile_append_of_stop hw hr)

theorem isBlank_of_isWord {c : Char} (h : isWord c = true) : isBlank c = false := by
  have halpha : c.isAlpha = (decide (c.val ≥ 65 ∧ c.val ≤ 90) ||
      (decide (c.val ≥ 97) && decide (c.val ≤ 122))) := rfl
  simp only [isWord, isBlank, Char.isAlphanum, halpha, Char.isDigit, Bool.or_eq_true,
    Bool.and_eq_true, decide_eq_true_eq, beq_iff_eq, Bool.or_eq_false_iff, Bool.and_eq_false_iff,
    decide_eq_false_iff_not, beq_eq_false_iff_ne, ne_eq, Char.ext_iff, ← UInt32.toNat_inj,
    UInt32.le_iff_toNat_le, ge_iff_le] at h ⊢
  simp at h ⊢
  omega

theorem isWord_of_isAlpha {c : Char} (h : c.isAlpha = true) : isWord c = true := by
  simp [isWord, Char.isAlphanum, h]

theorem isWord_of_isDigit {c : Char} (h : c.isDigit = true) : isWord c = true := by
  simp [isWord, Char.isAlphanum, h]

end ComputedTables.Text
