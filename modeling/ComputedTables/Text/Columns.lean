import ComputedTables.Text.ColumnTable

/-!
# Columns on a screen

A screen shows one character to a column, except that the wide characters of East Asian writing and
of pictures take two and that marks take none.  Some characters take another number of columns
where certain others follow: parts of an emoji take the room of one, letters that join into one
form share a column, and a selector can make a character an emoji or plain text.  So a text is
measured from its end, and what has been measured of it is kept as far as the characters before it
can depend on it.
-/

namespace ComputedTables.Text

/-- A style that a selector gives the character before it. -/
inductive Presentation where
  | text
  | emoji
  deriving DecidableEq, Repr

/-- The end of letters that can join with letters before it. -/
inductive Ending where
  | alef
  | lamed
  | ya
  | signAndYa
  | tifinagh
  | joinedTifinagh
  | lisuTone
  | orkhonI
  | khmerLetter
  deriving DecidableEq, Repr

/-- What stands behind a character, as far as its width can depend on it. -/
inductive Behind where
  | other
  | lineFeed
  /-- Letters, with a joiner before them or not. -/
  | letters (ending : Ending) (joined : Bool)
  | skinTone
  /-- The letters of flags, one or more. -/
  | flagLetters (several : Bool)
  | emoji
  /-- An emoji with a joiner before it. -/
  | joinedEmoji
  /-- The mark of a key with a joined emoji behind it. -/
  | joinedKey
  /-- The letters of flags with a joined emoji behind them, an even or an odd number. -/
  | joinedFlag (even : Bool)
  /-- The tags of a flag, so many of them, with a joined emoji behind them. -/
  | joinedTags (count : Nat)
  deriving DecidableEq, Repr

/-- What stands behind a character, and the selector before it, if there is one. -/
structure Following where
  behind : Behind := .other
  selector : Option Presentation := none
  deriving DecidableEq, Repr

/-- Whether a character can be drawn as an emoji or as text, by the selector behind it. -/
def isStyled (c : Char) : Bool :=
  inRanges ColumnTable.styled c

/-- Whether a character is an emoji that a selector can make text; enclosed ideographs stay
wide. -/
def isNarrowedByStyle (c : Char) : Bool :=
  isStyled c && inRanges ColumnTable.emoji c && !inRanges [(0x1F200, 0x1F2FF)] c

/-- Whether a character is a mark that does not keep letters from joining. -/
def isPassedByLetters (c : Char) : Bool :=
  inRanges [(0x34F, 0x34F), (0x17B4, 0x17B5), (0x180B, 0x180D), (0x180F, 0x180F), (0x200D, 0x200D),
    (0xFE00, 0xFE0F), (0xE0100, 0xE01EF)] c

def isLam (c : Char) : Bool :=
  inRanges [(0x644, 0x644), (0x6B5, 0x6B8), (0x76A, 0x76A), (0x8A6, 0x8A6), (0x8C7, 0x8C7)] c

def isAlef (c : Char) : Bool :=
  inRanges [(0x622, 0x623), (0x625, 0x625), (0x627, 0x627), (0x671, 0x673), (0x675, 0x675),
    (0x773, 0x774), (0x870, 0x882)] c

def isTifinaghConsonant (c : Char) : Bool :=
  inRanges [(0x2D31, 0x2D65), (0x2D6F, 0x2D6F)] c

/-- Whether a Khmer letter can be written below another one. -/
def isKhmerSubscript (c : Char) : Bool :=
  inRanges [(0x1780, 0x1782), (0x1784, 0x1787), (0x1789, 0x178C), (0x178E, 0x1793),
    (0x1795, 0x1798), (0x179B, 0x179D), (0x17A0, 0x17A0), (0x17A2, 0x17A2), (0x17A7, 0x17A7),
    (0x17AB, 0x17AC), (0x17AF, 0x17AF)] c

def isFlagLetter (c : Char) : Bool :=
  inRanges [(0x1F1E6, 0x1F1FF)] c

def isSkinTone (c : Char) : Bool :=
  inRanges [(0x1F3FB, 0x1F3FF)] c

/-- Whether a character is a tag that stands for a letter or a digit. -/
def isTag (c : Char) : Bool :=
  inRanges [(0xE0030, 0xE0039), (0xE0061, 0xE007A)] c

/-- The ending that a letter is by itself. -/
def ending? (c : Char) : Option Ending :=
  if isAlef c then some .alef
  else if c = '\u05dc' then some .lamed
  else if c = '\u1a10' then some .ya
  else if isTifinaghConsonant c then some .tifinagh
  else if c = '\ua4fc' ∨ c = '\ua4fd' then some .lisuTone
  else if c.toNat = 0x10C03 then some .orkhonI
  else if isKhmerSubscript c then some .khmerLetter
  else none

/-- The columns of a character by itself, and what it is for the characters before it. -/
def soleColumns (c : Char) : Int × Following :=
  if c = '\ufe0f' then (0, { selector := some .emoji })
  else if c = '\ufe0e' then (0, { selector := some .text })
  else if c = '\u17d8' then (3, {})
  else if isFlagLetter c then (1, { behind := .flagLetters false })
  else if isSkinTone c then (2, { behind := .skinTone })
  else if inRanges ColumnTable.emoji c then (2, { behind := .emoji })
  else
    match ending? c with
    | some e => (1, { behind := .letters e (e = .lisuTone || e = .khmerLetter) })
    | none =>
      (if inRanges ColumnTable.unseen c then 0
        else if inRanges ColumnTable.wide c then 2
        else 1, {})

/-- The columns of a character that joins with what is behind it, and what the two are for the
characters before them; none where it stands by itself. -/
def joinedColumns? (behind : Behind) (c : Char) : Option (Int × Behind) :=
  match behind with
  | .letters .alef _ =>
    if isLam c then some (0, .other)
    else if inRanges ColumnTable.unseen c && !inRanges ColumnTable.unseenApart c then
      some (0, behind)
    else none
  | .letters .lamed true => if c = '\u05d0' then some (0, .other) else none
  | .letters .khmerLetter _ => if c = '\u17d2' then some (-1, .other) else none
  | .letters .ya true => if c = '\u1a17' then some (0, .letters .signAndYa true) else none
  | .letters .signAndYa _ => if c = '\u1a15' then some (0, .other) else none
  | .letters .tifinagh joined =>
    if c = '\u2d7f' then some (1, .letters .joinedTifinagh true)
    else if joined && isTifinaghConsonant c then some (0, .other)
    else none
  | .letters .joinedTifinagh _ => if isTifinaghConsonant c then some (-1, .other) else none
  | .letters .lisuTone _ => if inRanges [(0xA4F8, 0xA4FB)] c then some (0, .other) else none
  | .letters .orkhonI true => if c.toNat = 0x10C32 then some (0, .other) else none
  | .skinTone =>
    if inRanges ColumnTable.toned c then some (0, .emoji)
    else if c = '\u200d' then some (0, .joinedEmoji)
    else none
  | .flagLetters several =>
    if isFlagLetter c then some (1, .flagLetters true)
    else if several && c = '\u200d' then some (0, .joinedEmoji)
    else none
  | .emoji => if c = '\u200d' then some (0, .joinedEmoji) else none
  | .joinedFlag even =>
    if isFlagLetter c then some (if even then (3, .joinedFlag false) else (-1, .joinedFlag true))
    else if even && c = '\u200d' then some (0, .joinedEmoji)
    else none
  | .joinedEmoji =>
    if c = '\u20e3' then some (0, .joinedKey)
    else if isFlagLetter c then some (1, .joinedFlag false)
    else if isSkinTone c then some (0, .skinTone)
    else if c.toNat = 0xE007F then some (0, .joinedTags 0)
    else if inRanges ColumnTable.emoji c then some (0, .emoji)
    else none
  | .joinedTags count =>
    if isTag c && count < 6 then some (0, .joinedTags (count + 1))
    else if c.toNat = 0x1F3F4 && 3 ≤ count then some (0, .emoji)
    else none
  | _ => none

/-- What is behind a selector once it is read: letters stay what they were for the letters before
them, and joined emoji do before an emoji. -/
def Behind.select (behind : Behind) (style : Presentation) : Following :=
  match behind, style with
  | .letters _ _, _ | .joinedEmoji, .emoji | .joinedKey, .emoji =>
    { behind, selector := some style }
  | _, _ => { selector := some style }

/-- What is behind a selector that does not change the character before it. -/
def Behind.unselected : Behind → Behind
  | .letters e joined => .letters e joined
  | _ => .other

/-- The columns of a character beyond the first ones, before which a selector of emoji does
nothing. -/
def columnsBefore (f : Following) (c : Char) : Int × Following :=
  if f = {} then soleColumns c
  else if c = '\ufe0f' then (0, f.behind.select .emoji)
  else if c = '\ufe0e' then (0, f.behind.select .text)
  else if f.selector = some .text && isNarrowedByStyle c then (1, {})
  else
    let behind := if f.selector = none then f.behind else f.behind.unselected
    match behind with
    | .letters e _ =>
      if e ≠ .alef && c = '\u200d' then (0, { behind := .letters e true })
      else if e ≠ .alef && isPassedByLetters c then (0, { behind })
      else
        match joinedColumns? behind c with
        | some (n, behind) => (n, { behind })
        | none => soleColumns c
    | _ =>
      match joinedColumns? behind c with
      | some (n, behind) => (n, { behind })
      | none => soleColumns c

/-- The columns of a character, given what is behind it, and what it is for the characters before
it. -/
def charColumns (f : Following) (c : Char) : Int × Following :=
  if f.selector = some .emoji && isStyled c then
    (if f.behind = .joinedEmoji || f.behind = .joinedKey then 0 else 2, { behind := .emoji })
  else
    let f := if f.selector = some .emoji then { behind := f.behind.unselected } else f
    if c.toNat ≤ 0xA0 then
      if c = '\n' then (1, { behind := .lineFeed })
      else if c = '\r' ∧ f.behind = .lineFeed then (0, {})
      else (1, {})
    else columnsBefore f c

/-- The columns of a text. -/
def columns (cs : List Char) : Nat :=
  (cs.foldr (fun c (n, f) =>
    let (m, f) := charColumns f c
    (n + m, f)) ((0 : Int), ({} : Following))).1.toNat

end ComputedTables.Text
