import ComputedTables.Text.ClusterTable

/-!
# Classes of characters in clusters

Where a text may be cut between two characters is decided by the classes of characters alone.  The
classes are those of extended grapheme clusters; a Hangul syllable is of the class of its last part,
which follows from its place in the block of syllables.
-/

namespace ComputedTables.Text

/-- The part of a Hangul syllable that a character ends with. -/
inductive HangulPart where
  | leading
  | vowel
  | trailing
  deriving DecidableEq, Repr

/-- The class of a character.  A Hangul character has the part that it begins with and the one that
it ends with. -/
inductive ClusterClass where
  | other
  | carriageReturn
  | lineFeed
  | control
  | extender
  /-- An extender that keeps consonants from being linked across it. -/
  | nonJoiner
  | linker
  | joiner
  | spacingMark
  | prepended
  | consonant
  | pictograph
  | regional
  | hangul (first last : HangulPart)
  deriving DecidableEq, Repr

/-- The class of a Hangul character, if it is one. -/
def hangulClass? (c : Char) : Option ClusterClass :=
  if inRanges [(0x1100, 0x115F), (0xA960, 0xA97C)] c then some (.hangul .leading .leading)
  else if
    inRanges [(0x1160, 0x11A7), (0xD7B0, 0xD7C6), (0x16D63, 0x16D63), (0x16D67, 0x16D6A)] c then
    some (.hangul .vowel .vowel)
  else if inRanges [(0x11A8, 0x11FF), (0xD7CB, 0xD7FB)] c then some (.hangul .trailing .trailing)
  else if inRanges [(0xAC00, 0xD7A3)] c then
    some (.hangul .leading (if (c.toNat - 0xAC00) % 28 = 0 then .vowel else .trailing))
  else none

/-- The class of a character. -/
def clusterClass (c : Char) : ClusterClass :=
  if ' ' ≤ c ∧ c ≤ '~' then .other
  else if c = '\r' then .carriageReturn
  else if c = '\n' then .lineFeed
  else if c = '\u200c' then .nonJoiner
  else if c = '\u200d' then .joiner
  else if inRanges ClusterTable.controls c then .control
  else if inRanges ClusterTable.linkers c then .linker
  else if inRanges ClusterTable.extenders c then .extender
  else if inRanges ClusterTable.spacingMarks c then .spacingMark
  else if inRanges ClusterTable.prepended c then .prepended
  else if inRanges ClusterTable.consonants c then .consonant
  else if inRanges ClusterTable.pictographs c then .pictograph
  else if inRanges [(0x1F1E6, 0x1F1FF)] c then .regional
  else (hangulClass? c).getD .other

end ComputedTables.Text
