import Mathlib
import ComputedTables.Formula.Segments

/-!
# How calls are written

A call is a keyword, blanks and an opening parenthesis (`Keyword.Opens`), followed by the words of
an aggregate or by the quoted name, the parenthesis and the variable of a reference
(`Call.WrittenAs`).  A formula writes segments if it is their texts and written calls one after the
other, where no call could also be read inside a text or across the end of one
(`SegmentsWrittenAs`).  Cutting a formula gives exactly the segments that it writes: it writes those
it is cut into, and no others.
-/

namespace ComputedTables

open Text

/-! ### Keywords -/

/-- A keyword in letters of either case, blanks and the opening parenthesis. -/
def Keyword.Opens (k : Keyword) (opening : List Char) : Prop :=
  ∃ name gap, sameLetters name k.letters = true ∧ IsGap gap ∧ opening = name ++ gap ++ ['(']

def OpensCall (cs : List Char) : Prop :=
  ∃ (k : Keyword) (opening arguments : List Char), k.Opens opening ∧ cs = opening ++ arguments

theorem isAlpha_of_sameLetters {cs ds : List Char} (h : sameLetters cs ds = true)
    (hd : ∀ d ∈ ds, d.isAlpha = true) : ∀ c ∈ cs, c.isAlpha = true := by
  intro c hc
  have hlower : c.toLower ∈ lowercase ds := by
    rw [← eq_of_beq h]
    exact List.mem_map_of_mem hc
  obtain ⟨d, hmem, heq⟩ := List.mem_map.1 hlower
  rw [← Char.isAlpha_toLower_eq_isAlpha, ← heq, Char.isAlpha_toLower_eq_isAlpha]
  exact hd d hmem

theorem isWord_of_sameLetters {cs letters : List Char} (h : sameLetters cs letters = true)
    (hne : letters ≠ []) (hletters : letters.all Char.isAlpha = true) :
    cs ≠ [] ∧ ∀ c ∈ cs, isWord c = true := by
  refine ⟨?_, fun c hc => isWord_of_isAlpha ?_⟩
  · rw [← List.length_pos_iff, length_of_sameLetters h]
    exact List.length_pos_iff.2 hne
  · exact isAlpha_of_sameLetters h (List.all_eq_true.1 hletters) c hc

theorem Keyword.isWord_of_sameLetters {k : Keyword} {name : List Char}
    (h : sameLetters name k.letters = true) : name ≠ [] ∧ ∀ c ∈ name, isWord c = true := by
  refine ComputedTables.isWord_of_sameLetters h ?_ ?_
  · rcases k with f | _
    · cases f <;> exact List.cons_ne_nil _ _
    · exact List.cons_ne_nil _ _
  · rcases k with f | _
    · cases f <;> rfl
    · rfl

theorem not_isWord_of_gap {gap rest : List Char} {c : Char} (hg : IsGap gap)
    (hc : isWord c = false) : ∀ d ∈ (gap ++ c :: rest).head?, isWord d = false := by
  rcases gap with _ | ⟨b, gap⟩
  · simpa using hc
  · intro d hd
    cases hd
    by_contra hw
    have := hg b List.mem_cons_self
    rw [isBlank_of_isWord (Bool.not_eq_false _ ▸ hw)] at this
    cases this

/-- What stands before a parenthesis of a call is its keyword and blanks. -/
theorem Keyword.opened?_eq_some_iff {k : Keyword} {cs arguments : List Char} :
    k.opened? cs = some arguments ↔ ∃ opening, k.Opens opening ∧ cs = opening ++ arguments := by
  unfold Keyword.opened?
  constructor
  · intro h
    split at h
    · rename_i hname
      split at h
      · rename_i rest hdrop
        cases h
        obtain ⟨gap, hgap, happend⟩ := exists_gap_append (cs.drop k.letters.length)
        refine ⟨_, ⟨_, gap, hname, hgap, rfl⟩, ?_⟩
        rw [hdrop] at happend
        simp [happend]
      · cases h
    · cases h
  · rintro ⟨_, ⟨name, gap, hname, hgap, rfl⟩, rfl⟩
    have hlength := length_of_sameLetters hname
    have hdrop : dropBlanks (gap ++ '(' :: arguments) = '(' :: arguments :=
      dropBlanks_gap_cons hgap (by decide)
    simp [← hlength, hname, hdrop]

/-- A word in front of blanks and another character is the same in every reading. -/
theorem word_gap_inj {word word' gap gap' rest rest' : List Char} {c c' : Char}
    (hw : ∀ c ∈ word, isWord c = true) (hw' : ∀ c ∈ word', isWord c = true)
    (hg : IsGap gap) (hg' : IsGap gap') (hc : isWord c = false ∧ isBlank c = false)
    (hc' : isWord c' = false ∧ isBlank c' = false)
    (h : word ++ (gap ++ c :: rest) = word' ++ (gap' ++ c' :: rest')) :
    word = word' ∧ c :: rest = c' :: rest' := by
  have hleading := congrArg leadingWord h
  rw [leadingWord_append_of_stop hw (not_isWord_of_gap hg hc.1),
    leadingWord_append_of_stop hw' (not_isWord_of_gap hg' hc'.1), Prod.mk.injEq] at hleading
  have hdrop := congrArg dropBlanks hleading.2
  rw [dropBlanks_gap_cons hg hc.2, dropBlanks_gap_cons hg' hc'.2] at hdrop
  exact ⟨hleading.1, hdrop⟩

theorem Keyword.Opens.inj {k k' : Keyword} {opening opening' arguments arguments' : List Char}
    (h : k.Opens opening) (h' : k'.Opens opening')
    (heq : opening ++ arguments = opening' ++ arguments') : k = k' ∧ arguments = arguments' := by
  obtain ⟨name, gap, hname, hgap, rfl⟩ := h
  obtain ⟨name', gap', hname', hgap', rfl⟩ := h'
  have hparen : isWord '(' = false ∧ isBlank '(' = false := by decide
  rw [List.append_assoc, List.append_assoc, List.append_assoc, List.append_assoc] at heq
  obtain ⟨rfl, hrest⟩ := word_gap_inj (isWord_of_sameLetters hname).2
    (isWord_of_sameLetters hname').2 hgap hgap' hparen hparen heq
  have hletters : lowercase k.letters = lowercase k'.letters :=
    (eq_of_beq hname).symm.trans (eq_of_beq hname')
  refine ⟨?_, List.cons.inj hrest |>.2⟩
  revert hletters
  rcases k with f | _ <;> rcases k' with f' | _ <;> (try cases f) <;> (try cases f') <;> decide

theorem Keyword.mem_all (k : Keyword) : k ∈ Keyword.all := by
  rcases k with f | _
  · cases f <;> decide
  · decide

theorem Keyword.at?_eq_some_iff {k : Keyword} {cs arguments : List Char} :
    Keyword.at? cs = some (k, arguments) ↔
      ∃ opening, k.Opens opening ∧ cs = opening ++ arguments := by
  rw [← opened?_eq_some_iff]
  constructor
  · intro h
    obtain ⟨k', -, hk⟩ := List.exists_of_findSome?_eq_some h
    obtain ⟨rest, hr, heq⟩ := Option.map_eq_some_iff.1 hk
    cases heq
    exact hr
  · intro h
    rcases hat : Keyword.at? cs with _ | ⟨k', arguments'⟩
    · have := List.findSome?_eq_none_iff.1 hat k k.mem_all
      simp [h] at this
    · obtain ⟨k'', -, hk⟩ := List.exists_of_findSome?_eq_some hat
      obtain ⟨rest, hr, heq⟩ := Option.map_eq_some_iff.1 hk
      cases heq
      obtain ⟨o, ho, rfl⟩ := opened?_eq_some_iff.1 h
      obtain ⟨o', ho', heq⟩ := opened?_eq_some_iff.1 hr
      obtain ⟨rfl, rfl⟩ := ho.inj ho' heq
      rfl

theorem Keyword.at?_eq_none_iff {cs : List Char} : Keyword.at? cs = none ↔ ¬ OpensCall cs := by
  rw [Option.eq_none_iff_forall_ne_some]
  constructor
  · rintro h ⟨k, opening, arguments, hopens, rfl⟩
    exact h (k, arguments) (at?_eq_some_iff.2 ⟨opening, hopens, rfl⟩)
  · rintro h ⟨k, arguments⟩ hat
    obtain ⟨opening, hopens, rfl⟩ := at?_eq_some_iff.1 hat
    exact h ⟨k, opening, arguments, hopens, rfl⟩

/-! ### Arguments -/

/-- Words with blanks around each and commas between them, up to the closing parenthesis. -/
inductive WrittenArguments : List (List Char) → List Char → Prop
  | last {before word after : List Char} : IsGap before → IsGap after →
      WrittenArguments [word] (before ++ word ++ after ++ [')'])
  | cons {before word after rest : List Char} {words : List (List Char)} : IsGap before →
      IsGap after → WrittenArguments words rest →
        WrittenArguments (word :: words) (before ++ word ++ after ++ ',' :: rest)

theorem readWord_append {before word after rest : List Char} {c : Char} (hb : IsGap before)
    (ha : IsGap after) (hne : word ≠ []) (hw : ∀ c ∈ word, isWord c = true)
    (hc : c = ',' ∨ c = ')') :
    readWord (before ++ word ++ after ++ c :: rest) = .ok (word, c :: rest) := by
  have hstop : isWord c = false ∧ isBlank c = false := by rcases hc with rfl | rfl <;> decide
  have hstart : dropBlanks (before ++ word ++ after ++ c :: rest)
      = word ++ (after ++ c :: rest) := by
    rw [List.append_assoc, List.append_assoc]
    refine dropBlanks_gap_append hb fun d hd => isBlank_of_isWord (hw d ?_)
    rw [List.head?_append_of_ne_nil _ hne] at hd
    exact List.mem_of_mem_head? hd
  have hcall : Keyword.at? (word ++ (after ++ c :: rest)) = none := by
    rw [Keyword.at?_eq_none_iff]
    rintro ⟨k, _, arguments, ⟨name, gap, hname, hgap, rfl⟩, heq⟩
    rw [List.append_assoc, List.append_assoc] at heq
    have hparen := (word_gap_inj hw (Keyword.isWord_of_sameLetters hname).2 ha hgap hstop
      (by decide) heq).2
    rcases hc with rfl | rfl <;> simp at hparen
  have hword : leadingWord (word ++ (after ++ c :: rest)) = (word, after ++ c :: rest) :=
    leadingWord_append_of_stop hw (not_isWord_of_gap ha hstop.1)
  have hafter : dropBlanks (after ++ c :: rest) = c :: rest :=
    dropBlanks_gap_cons ha hstop.2
  unfold readWord
  rw [hstart]
  simp [hcall, hword, hne, hafter]

theorem append_of_readWord {cs word rest : List Char} (h : readWord cs = .ok (word, rest)) :
    ∃ before after, IsGap before ∧ IsGap after ∧ cs = before ++ word ++ after ++ rest := by
  unfold readWord at h
  dsimp only at h
  split at h
  · cases h
  · split at h
    · cases h
    · cases h
      obtain ⟨before, hb, happend⟩ := exists_gap_append cs
      obtain ⟨after, ha, happend'⟩ := exists_gap_append (leadingWord (dropBlanks cs)).2
      refine ⟨before, after, hb, ha, ?_⟩
      rw [List.append_assoc, List.append_assoc, happend', leadingWord_append, happend]

theorem readArguments_last {cs word rest : List Char}
    (h : readWord cs = .ok (word, ')' :: rest)) : readArguments cs = .ok ([word], rest) := by
  rw [readArguments]
  split <;> simp_all

theorem readArguments_comma {cs word rest after : List Char} {words : List (List Char)}
    (h : readWord cs = .ok (word, ',' :: rest)) (hrest : readArguments rest = .ok (words, after)) :
    readArguments cs = .ok (word :: words, after) := by
  rw [readArguments]
  split <;> simp_all

theorem readArguments_append {words : List (List Char)} {written : List Char}
    (h : WrittenArguments words written)
    (hw : ∀ word ∈ words, word ≠ [] ∧ ∀ c ∈ word, isWord c = true) (rest : List Char) :
    readArguments (written ++ rest) = .ok (words, rest) := by
  induction h with
  | last hb ha =>
    obtain ⟨hne, hword⟩ := hw _ List.mem_cons_self
    apply readArguments_last
    simpa using readWord_append hb ha hne hword (.inr rfl)
  | cons hb ha _ ih =>
    obtain ⟨hne, hword⟩ := hw _ List.mem_cons_self
    apply readArguments_comma _ (ih fun word hmem => hw word (List.mem_cons_of_mem _ hmem))
    simpa using readWord_append hb ha hne hword (.inl rfl)

theorem written_of_readArguments (cs : List Char) {words : List (List Char)} {rest : List Char}
    (h : readArguments cs = .ok (words, rest)) :
    ∃ written, WrittenArguments words written ∧ cs = written ++ rest := by
  fun_induction readArguments cs generalizing words with
  | case1 => cases h
  | case2 => cases h
  | case3 cs word after hword words' rest' hrec ih =>
    cases h
    obtain ⟨written, hwritten, rfl⟩ := ih hrec
    obtain ⟨before, gap, hb, ha, rfl⟩ := append_of_readWord hword
    exact ⟨_, .cons hb ha hwritten, by simp⟩
  | case4 cs word after hword =>
    cases h
    obtain ⟨before, gap, hb, ha, rfl⟩ := append_of_readWord hword
    exact ⟨_, .last hb ha, by simp⟩
  | case5 => cases h

/-! ### Calls -/

def Range.word : Range → List Char
  | .row => "row".toList
  | .column => "col".toList

/-- Whether a word asks to leave formula cells out. -/
def isData (word : List Char) : Bool :=
  sameLetters word "data".toList

/-- The characters write the call. -/
inductive Call.WrittenAs : Call → List Char → Prop
  | aggregate {function : Aggregate} {range : Range} {opening word written : List Char}
      {options : List (List Char)} : (Keyword.aggregate function).Opens opening →
      sameLetters word range.word = true →
      (∀ option ∈ options, isData option = true ∨ isCurrencyCode option = true) →
      WrittenArguments (word :: options) written →
        WrittenAs (.aggregate function range (options.any isData)
            ((options.find? isCurrencyCode).map fun code => String.ofList (uppercase code)))
          (opening ++ written)
  | note {opening before document after name : List Char} : Keyword.note.Opens opening →
      IsGap before → document ≠ [] → '"' ∉ document → IsGap after → name ≠ [] →
      (∀ c ∈ name, isWord c = true) →
        WrittenAs (.note (String.ofList document) (String.ofList name))
          (opening ++ (before ++ '"' :: (document ++ '"' :: (after ++ ')' :: '.' :: name))))

theorem foldlM_add?_eq_some_iff : ∀ (options : List (List Char)) {o o' : Options},
    options.foldlM Options.add? o = some o' ↔
      (∀ option ∈ options, isData option = true ∨ isCurrencyCode option = true) ∧
        o' = ⟨o.dataOnly || options.any isData, o.currency <|>
          (options.find? isCurrencyCode).map fun code => String.ofList (uppercase code)⟩
  | [], o, o' => by
    have heq : (⟨o.dataOnly || false, o.currency <|> none⟩ : Options) = o := by simp
    simpa [heq] using eq_comm
  | option :: options, o, o' => by
    have hadd : o.add? option = if isData option then some { o with dataOnly := true }
        else if isCurrencyCode option then
          some { o with currency := o.currency <|> some (String.ofList (uppercase option)) }
        else none := rfl
    have hcode : isData option = true → isCurrencyCode option = false := by
      intro hdata
      have : option.length = 4 := length_of_sameLetters hdata
      simp [isCurrencyCode, this]
    rw [List.foldlM_cons, hadd]
    split
    · rename_i hdata
      show options.foldlM Options.add? _ = _ ↔ _
      rw [foldlM_add?_eq_some_iff options]
      simp [hdata, hcode hdata]
    · rename_i hdata
      split
      · rename_i hcurrency
        show options.foldlM Options.add? _ = _ ↔ _
        rw [foldlM_add?_eq_some_iff options]
        rcases o with ⟨dataOnly, _ | currency⟩ <;> simp [hdata, hcurrency]
      · rename_i hcurrency
        simp [hdata, hcurrency]

theorem Range.ofWord?_eq_some_iff {word : List Char} {range : Range} :
    Range.ofWord? word = some range ↔ sameLetters word range.word = true := by
  have hdistinct : sameLetters word Range.row.word = true →
      sameLetters word Range.column.word = false := by
    intro h
    unfold sameLetters at h ⊢
    rw [eq_of_beq h]
    rfl
  have hword : Range.ofWord? word = if sameLetters word Range.row.word then some .row
      else if sameLetters word Range.column.word then some .column else none := rfl
  rw [hword]
  cases range <;> grind

theorem Call.ofWords?_cons_eq_some_iff {function : Aggregate} {word : List Char}
    {options : List (List Char)} {call : Call} :
    Call.ofWords? function (word :: options) = some call ↔ ∃ range,
      sameLetters word range.word = true ∧
      (∀ option ∈ options, isData option = true ∨ isCurrencyCode option = true) ∧
      call = .aggregate function range (options.any isData)
        ((options.find? isCurrencyCode).map fun code => String.ofList (uppercase code)) := by
  simp only [Call.ofWords?, Option.bind_eq_bind, Option.bind_eq_some_iff, Option.pure_def,
    Option.some.injEq, Range.ofWord?_eq_some_iff, foldlM_add?_eq_some_iff]
  constructor
  · rintro ⟨range, hrange, o, ⟨hoptions, rfl⟩, rfl⟩
    exact ⟨range, hrange, hoptions, by simp⟩
  · rintro ⟨range, hrange, hoptions, rfl⟩
    exact ⟨range, hrange, _, ⟨hoptions, rfl⟩, by simp⟩

theorem isWord_of_isOption {option : List Char}
    (h : isData option = true ∨ isCurrencyCode option = true) :
    option ≠ [] ∧ ∀ c ∈ option, isWord c = true := by
  rcases h with h | h
  · exact isWord_of_sameLetters h (List.cons_ne_nil _ _) rfl
  · simp only [isCurrencyCode, Bool.and_eq_true, beq_iff_eq, List.all_eq_true] at h
    exact ⟨fun hnil => by simp [hnil] at h, fun c hc => isWord_of_isAlpha (h.2 c hc)⟩

theorem isWord_of_range {word : List Char} {range : Range}
    (h : sameLetters word range.word = true) : word ≠ [] ∧ ∀ c ∈ word, isWord c = true := by
  cases range <;> exact isWord_of_sameLetters h (List.cons_ne_nil _ _) rfl

def Call.isNote : Call → Bool
  | .aggregate .. => false
  | .note .. => true

/-- Whether the first character belongs to a word. -/
def startsInWord (cs : List Char) : Bool :=
  cs.head?.any isWord

theorem startsInWord_eq_false_iff {cs : List Char} :
    startsInWord cs = false ↔ ∀ c ∈ cs.head?, isWord c = false := by
  rcases cs with _ | ⟨c, cs⟩ <;> simp [startsInWord]

theorem expectChar_self (c : Char) (cs : List Char) : expectChar c (c :: cs) = .ok cs := by
  simp [expectChar]

theorem readQuoted_append {document rest : List Char} (hne : document ≠ [])
    (hquote : '"' ∉ document) :
    readQuoted ('"' :: (document ++ '"' :: rest)) = .ok (document, rest) := by
  have hdocument : ∀ c ∈ document, (c != '"') = true :=
    fun c hc => bne_iff_ne.2 fun heq => hquote (heq ▸ hc)
  have hstop : ∀ c ∈ ('"' :: rest).head?, (c != '"') = false := by simp
  have htake := takeWhile_append_of_stop hdocument hstop
  have hdrop := dropWhile_append_of_stop hdocument hstop
  simp only [readQuoted, expectChar_self, ok_bind, htake, hdrop, List.isEmpty_iff, hne, ↓reduceIte]

theorem Call.WrittenAs.read {call : Call} {cs rest : List Char} (h : call.WrittenAs cs)
    (hrest : call.isNote = true → startsInWord rest = false) :
    ∃ (k : Keyword) (opening written : List Char),
      k.Opens opening ∧ cs = opening ++ written ∧ k.read (written ++ rest) = .ok (call, rest) := by
  cases h with
  | @aggregate function range opening word written options hopens hword hoptions hwritten =>
    refine ⟨_, opening, written, hopens, rfl, ?_⟩
    have hwords : ∀ w ∈ word :: options, w ≠ [] ∧ ∀ c ∈ w, isWord c = true :=
      List.forall_mem_cons.2 ⟨isWord_of_range hword, fun w hw => isWord_of_isOption (hoptions w hw)⟩
    have hcall : Call.ofWords? function (word :: options) = some _ :=
      Call.ofWords?_cons_eq_some_iff.2 ⟨range, hword, hoptions, rfl⟩
    show readAggregate function _ = _
    simp only [readAggregate, readArguments_append hwritten hwords, ok_bind, hcall]
  | @note opening before document after name hopens hb hne hquote ha hname hword =>
    refine ⟨_, opening, _, hopens, rfl, ?_⟩
    have hquoted : isBlank '"' = false := by decide
    have hparen : isBlank ')' = false := by decide
    have hleading := leadingWord_append_of_stop hword (startsInWord_eq_false_iff.1 (hrest rfl))
    show readNote _ = _
    simp [readNote, dropBlanks_gap_cons hb hquoted, readQuoted_append hne hquote, ok_bind,
      dropBlanks_gap_cons ha hparen, expectChar_self, hleading, hname]

theorem expectChar_eq_ok_iff {c : Char} {cs rest : List Char} :
    expectChar c cs = .ok rest ↔ cs = c :: rest := by
  unfold expectChar
  split
  · split <;> simp_all
  · simp

theorem append_of_readQuoted {cs document rest : List Char}
    (h : readQuoted cs = .ok (document, rest)) :
    document ≠ [] ∧ '"' ∉ document ∧ cs = '"' :: (document ++ '"' :: rest) := by
  obtain ⟨quoted, hquoted, hread⟩ := bind_eq_ok h
  obtain rfl := expectChar_eq_ok_iff.1 hquoted
  dsimp only at hread
  split at hread
  · cases hread
  · rename_i hne
    obtain ⟨after, hafter, hok⟩ := bind_eq_ok hread
    cases hok
    refine ⟨by simpa using hne, fun hmem => ?_, ?_⟩
    · have := List.all_eq_true.1 List.all_takeWhile _ hmem
      simp at this
    · rw [← expectChar_eq_ok_iff.1 hafter, List.takeWhile_append_dropWhile]

theorem Call.writtenAs_of_read {k : Keyword} {opening cs rest : List Char} {call : Call}
    (hopens : k.Opens opening) (h : k.read cs = .ok (call, rest)) : ∃ written,
      call.WrittenAs (opening ++ written) ∧ cs = written ++ rest ∧
        (call.isNote = true → startsInWord rest = false) := by
  cases k with
  | aggregate function =>
    obtain ⟨⟨words, after⟩, hwords, hcall⟩ := bind_eq_ok h
    obtain ⟨written, hwritten, rfl⟩ := written_of_readArguments cs hwords
    dsimp only at hcall
    split at hcall
    · rename_i call' hof
      cases hcall
      rcases words with _ | ⟨word, options⟩
      · cases hwritten
      · obtain ⟨range, hrange, hoptions, rfl⟩ := Call.ofWords?_cons_eq_some_iff.1 hof
        exact ⟨written, .aggregate hopens hrange hoptions hwritten, rfl, nofun⟩
    · cases hcall
  | note =>
    obtain ⟨⟨document, r1⟩, h1, h⟩ := bind_eq_ok h
    obtain ⟨r2, h2, h⟩ := bind_eq_ok h
    obtain ⟨r3, h3, h⟩ := bind_eq_ok h
    obtain ⟨before, hb, hbefore⟩ := exists_gap_append cs
    obtain ⟨after, ha, hafter⟩ := exists_gap_append r1
    obtain ⟨hne, hquote, hquoted⟩ := append_of_readQuoted h1
    rw [expectChar_eq_ok_iff.1 h2, expectChar_eq_ok_iff.1 h3] at hafter
    dsimp only at h
    split at h
    · cases h
    · rename_i hname
      cases h
      refine ⟨_, .note hopens hb hne hquote ha (by simpa using hname)
        (List.all_eq_true.1 List.all_takeWhile), ?_, fun _ => ?_⟩
      · rw [← hbefore, hquoted, ← hafter]
        simp [leadingWord_append]
      · rw [startsInWord_eq_false_iff]
        intro c hc
        have hnot := List.head?_dropWhile_not isWord r3
        rwa [show (r3.dropWhile isWord).head? = some c from hc] at hnot

/-! ### Segments -/

def endsInWord (cs : List Char) : Bool :=
  cs.getLast?.any isWord

/-- No call starts inside the text behind a character that belongs to no word; the character in
front of the text belongs to one if `afterWord` holds. -/
def CallFree : Bool → List Char → Prop
  | _, [] => True
  | afterWord, c :: cs => (afterWord = false → ¬ OpensCall (c :: cs)) ∧ CallFree (isWord c) cs

def Segment.isCall : Segment → Bool
  | .text _ => false
  | .call _ => true

/-- The characters write the segments, given whether the character before them belongs to a word.
That of a reference does, but what follows a reference starts with no word, so it does not matter
there. -/
inductive SegmentsWrittenAs : Bool → List Segment → List Char → Prop
  | nil {afterWord : Bool} : SegmentsWrittenAs afterWord [] []
  | text {afterWord : Bool} {text rest : List Char} {segments : List Segment} : text ≠ [] →
      CallFree afterWord text →
      (∀ next ∈ segments.head?, next.isCall = true ∧ endsInWord text = false) →
      SegmentsWrittenAs false segments rest →
        SegmentsWrittenAs afterWord (.text text :: segments) (text ++ rest)
  | call {call : Call} {written rest : List Char} {segments : List Segment} :
      call.WrittenAs written → (call.isNote = true → startsInWord rest = false) →
      SegmentsWrittenAs false segments rest →
        SegmentsWrittenAs false (.call call :: segments) (written ++ rest)

theorem OpensCall.append {cs : List Char} (h : OpensCall cs) (rest : List Char) :
    OpensCall (cs ++ rest) := by
  obtain ⟨k, opening, arguments, hopens, rfl⟩ := h
  exact ⟨k, opening, arguments ++ rest, hopens, List.append_assoc ..⟩

theorem cutFrom_cons {afterWord : Bool} {c : Char} {rest : List Char}
    (h : afterWord = false → ¬ OpensCall (c :: rest)) : cutFrom afterWord (c :: rest) =
      cutFrom (isWord c) rest >>= fun segments => .ok (Segment.prepend c segments) := by
  rw [cutFrom]
  split
  · rename_i hk
    split at hk
    · cases hk
    · rename_i hword
      rw [Keyword.at?_eq_none_iff.2 (h (Bool.eq_false_iff.2 hword))] at hk
      cases hk
  · rfl

theorem cutFrom_call {k : Keyword} {opening arguments rest : List Char} {call : Call}
    (hopens : k.Opens opening) (hread : k.read arguments = .ok (call, rest)) :
    cutFrom false (opening ++ arguments) =
      cutFrom false rest >>= fun segments => .ok (.call call :: segments) := by
  have hat : Keyword.at? (opening ++ arguments) = some (k, arguments) :=
    Keyword.at?_eq_some_iff.2 ⟨opening, hopens, rfl⟩
  rcases hcs : opening ++ arguments with _ | ⟨c, cs⟩
  · rw [hcs] at hat
    cases hat
  · rw [hcs] at hat
    rw [cutFrom]
    split
    · rename_i hk
      simp only [Bool.false_eq_true, ↓reduceIte, hat, Option.some.injEq, Prod.mk.injEq] at hk
      obtain ⟨rfl, rfl⟩ := hk
      split <;> rename_i heq <;> rw [hread] at heq <;> cases heq
      rfl
    · rename_i hk
      simp [hat] at hk

theorem startsInWord_of_opens {k : Keyword} {opening : List Char} (h : k.Opens opening)
    (rest : List Char) : startsInWord (opening ++ rest) = true := by
  obtain ⟨name, gap, hname, hgap, rfl⟩ := h
  obtain ⟨hne, hword⟩ := Keyword.isWord_of_sameLetters hname
  rcases name with _ | ⟨c, name⟩
  · exact absurd rfl hne
  · simpa [startsInWord] using hword c List.mem_cons_self

theorem Call.WrittenAs.startsInWord {call : Call} {cs : List Char} (h : call.WrittenAs cs)
    (rest : List Char) : ComputedTables.startsInWord (cs ++ rest) = true := by
  cases h with
  | aggregate hopens => simpa using startsInWord_of_opens hopens _
  | note hopens => simpa using startsInWord_of_opens hopens _

/-- The opening of a call that starts inside a text ends there, unless a word goes on past the end
of the text. -/
theorem OpensCall.of_append {cs rest : List Char} (h : OpensCall (cs ++ rest)) (hne : cs ≠ [])
    (hrest : ∀ d ∈ rest.head?, isWord d = true ∧ endsInWord cs = false) : OpensCall cs := by
  obtain ⟨k, opening, arguments, hopens, heq⟩ := h
  rcases List.append_eq_append_iff.1 heq with ⟨past, hopening, hpast⟩ | ⟨bs, rfl, -⟩
  · rcases past with _ | ⟨d, past⟩
    · exact ⟨k, opening, [], hopens, by simp [hopening]⟩
    · obtain ⟨hd, hends⟩ := hrest d (by simp [hpast])
      obtain ⟨name, gap, hname, hgap, rfl⟩ := hopens
      rw [List.append_assoc] at hopening
      rcases List.append_eq_append_iff.1 hopening with ⟨bs, -, hbs⟩ | ⟨ds, hds, -⟩
      · -- no word character stands in the blanks or the parenthesis
        have hmem : d ∈ gap ++ ['('] := by simp [hbs]
        rcases List.mem_append.1 hmem with hmem | hmem
        · have := hgap d hmem
          rw [isBlank_of_isWord hd] at this
          cases this
        · rw [List.mem_singleton.1 hmem] at hd
          exact absurd hd (by decide)
      · -- the text would end inside the keyword
        have hlast : isWord (cs.getLast hne) = true :=
          (Keyword.isWord_of_sameLetters hname).2 _ (by simp [hds])
        simp [endsInWord, List.getLast?_eq_some_getLast hne, hlast] at hends
  · exact ⟨k, opening, bs, hopens, rfl⟩

/-- A text in front of segments that do not start with a text is cut off as one. -/
theorem cutFrom_text : ∀ {text : List Char} {afterWord : Bool} {rest : List Char}
    {segments : List Segment}, text ≠ [] → CallFree afterWord text →
      (∀ d ∈ rest.head?, isWord d = true ∧ endsInWord text = false) →
      (∀ next ∈ segments.head?, next.isCall = true) → cutFrom false rest = .ok segments →
        cutFrom afterWord (text ++ rest) = .ok (.text text :: segments)
  | c :: text, afterWord, rest, segments, hne, ⟨hfirst, hfree⟩, hrest, hnext, hcut => by
    have hclosed : afterWord = false → ¬ OpensCall (c :: (text ++ rest)) := fun hword hopens =>
      hfirst hword (hopens.of_append hne hrest)
    rw [List.cons_append, cutFrom_cons hclosed]
    rcases text with _ | ⟨d, text⟩
    · have hafter : cutFrom (isWord c) rest = .ok segments := by
        rcases rest with _ | ⟨e, rest⟩
        · rw [cutFrom] at hcut ⊢
          exact hcut
        · obtain ⟨-, hends⟩ := hrest e rfl
          obtain hc : isWord c = false := by simpa [endsInWord] using hends
          rwa [hc]
      rw [List.nil_append, hafter, ok_bind]
      rcases segments with _ | ⟨_ | _, segments⟩
      · rfl
      · cases hnext _ rfl
      · rfl
    · rw [cutFrom_text (by simp) hfree (by simpa [endsInWord] using hrest) hnext hcut]
      rfl

theorem SegmentsWrittenAs.cutFrom {afterWord : Bool} {segments : List Segment} {cs : List Char}
    (h : SegmentsWrittenAs afterWord segments cs) :
    ComputedTables.cutFrom afterWord cs = .ok segments := by
  induction h with
  | nil => rw [ComputedTables.cutFrom]
  | @text afterWord text rest segments hne hfree hnext hrest ih =>
    refine cutFrom_text hne hfree (fun d hd => ?_) (fun next hmem => (hnext next hmem).1) ih
    cases hrest with
    | nil => cases hd
    | text => cases (hnext _ rfl).1
    | @call _ written rest _ hcall =>
      have hstarts := hcall.startsInWord rest
      rw [startsInWord, Option.mem_def.1 hd] at hstarts
      exact ⟨hstarts, (hnext _ rfl).2⟩
  | call hcall hnote _ ih =>
    obtain ⟨k, opening, arguments, hopens, rfl, hread⟩ := hcall.read hnote
    rw [List.append_assoc, cutFrom_call hopens hread, ih]
    rfl

theorem SegmentsWrittenAs.prepend {afterWord : Bool} {c : Char} {segments : List Segment}
    {rest : List Char} (hcall : afterWord = false → ¬ OpensCall (c :: rest))
    (h : SegmentsWrittenAs (isWord c) segments rest) :
    SegmentsWrittenAs afterWord (Segment.prepend c segments) (c :: rest) := by
  generalize hword : isWord c = after at h
  cases h with
  | nil => exact @SegmentsWrittenAs.text _ [c] _ _ (List.cons_ne_nil c []) ⟨hcall, trivial⟩ (by simp) .nil
  | @text _ text rest segments hne hfree hnext hrest =>
    refine @SegmentsWrittenAs.text _ (c :: text) _ _ (List.cons_ne_nil c text)
      ⟨fun hw ho => hcall hw (ho.append rest), ?_⟩ ?_ hrest
    · rwa [hword]
    · intro next hmem
      refine ⟨(hnext next hmem).1, ?_⟩
      have := (hnext next hmem).2
      rcases text with _ | ⟨d, text⟩
      · exact absurd rfl hne
      · simpa [endsInWord] using this
  | call hw hnote hrest =>
    refine @SegmentsWrittenAs.text _ [c] _ _ (List.cons_ne_nil c [])
      ⟨fun hw ho => hcall hw (ho.append _), trivial⟩ ?_ (.call hw hnote hrest)
    intro next hmem
    cases hmem
    exact ⟨rfl, by simpa [endsInWord] using hword⟩

theorem SegmentsWrittenAs.of_cutFrom (afterWord : Bool) (cs : List Char) {segments : List Segment}
    (h : ComputedTables.cutFrom afterWord cs = .ok segments) :
    SegmentsWrittenAs afterWord segments cs := by
  fun_induction ComputedTables.cutFrom afterWord cs generalizing segments with
  | case1 =>
    cases h
    exact .nil
  | case2 => cases h
  | case3 afterWord c rest k arguments hk call after hread ih =>
    obtain ⟨tail, htail, hok⟩ := bind_eq_ok h
    cases hok
    split at hk
    · cases hk
    · rename_i hword
      obtain rfl : afterWord = false := Bool.eq_false_iff.2 hword
      obtain ⟨opening, hopens, heq⟩ := Keyword.at?_eq_some_iff.1 hk
      obtain ⟨written, hwritten, rfl, hnote⟩ := Call.writtenAs_of_read hopens hread
      rw [heq, ← List.append_assoc]
      exact .call hwritten hnote (ih htail)
  | case4 afterWord c rest hk ih =>
    obtain ⟨tail, htail, hok⟩ := bind_eq_ok h
    cases hok
    refine (ih htail).prepend fun hword => ?_
    rw [hword] at hk
    exact Keyword.at?_eq_none_iff.1 (by simpa using hk)

theorem SegmentsWrittenAs.texts {afterWord : Bool} {segments : List Segment} {cs : List Char}
    (h : SegmentsWrittenAs afterWord segments cs) : .text [] ∉ segments ∧
      segments.IsChain fun first second => first.isCall = true ∨ second.isCall = true := by
  induction h with
  | nil => simp
  | text hne _ hnext _ ih =>
    refine ⟨by simp [hne.symm, ih.1], List.isChain_cons.2 ⟨fun next hmem => ?_, ih.2⟩⟩
    exact .inr (hnext next hmem).1
  | call _ _ _ ih =>
    exact ⟨by simp [ih.1], List.isChain_cons.2 ⟨fun _ _ => .inl rfl, ih.2⟩⟩

/-- A formula is cut into the segments that it writes and is refused if it writes none.  So no text
among them is empty or stands next to another one. -/
theorem cuts_what_is_written (formula : List Char) (segments : List Segment) :
    (cutFormula formula = .ok segments ↔ SegmentsWrittenAs false segments formula) ∧
    (cutFormula formula = .ok segments → .text [] ∉ segments ∧
      segments.IsChain fun first second => first.isCall = true ∨ second.isCall = true) :=
  ⟨⟨.of_cutFrom false formula, fun h => h.cutFrom⟩,
    fun h => (SegmentsWrittenAs.of_cutFrom false formula h).texts⟩

end ComputedTables
