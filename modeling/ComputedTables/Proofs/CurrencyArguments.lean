import ComputedTables.Formula.Currency
import ComputedTables.Proofs.CallGrammar

/-!
# The currency looked up in the text and the one that was read

The currency of a formula is looked up behind the commas of its text, without reading the calls.  In
a formula that is cut into segments, and whose texts and names of documents hold no comma, all
commas stand between the arguments of aggregates.  Behind one of them the look-up finds a currency
if and only if the argument there is one (`currencyArgument?_option`), so in the arguments of a call
it finds the currency of the call (`currencyCode?_arguments`), and in the formula that of the first
call that has one (`currencyCode?_eq_findSome?`).
-/

namespace ComputedTables

open Text

/-- The currency that an aggregate asks for. -/
def Segment.currency? : Segment → Option String
  | .call (.aggregate _ _ _ currency) => currency
  | _ => none

/-- No comma stands in a text or in the name of a document. -/
def Segment.LacksComma : Segment → Prop
  | .text cs => ',' ∉ cs
  | .call (.note document _) => ',' ∉ document.toList
  | .call (.aggregate ..) => True

instance : (segment : Segment) → Decidable segment.LacksComma
  | .text cs => inferInstanceAs (Decidable (',' ∉ cs))
  | .call (.note document _) => inferInstanceAs (Decidable (',' ∉ document.toList))
  | .call (.aggregate ..) => inferInstanceAs (Decidable True)

/-- A word as a currency, if it is one. -/
def codeOf? (word : List Char) : Option String :=
  if isCurrencyCode word then some (String.ofList (uppercase word)) else none

theorem findSome?_codeOf? (words : List (List Char)) : words.findSome? codeOf?
    = (words.find? isCurrencyCode).map fun code => String.ofList (uppercase code) := by
  induction words with
  | nil => rfl
  | cons word words ih =>
    rw [List.findSome?_cons, List.find?_cons, codeOf?]
    rcases isCurrencyCode word with _ | _
    · exact ih
    · rfl

/-! ### Commas -/

theorem currencyCode?_append : ∀ {cs : List Char}, ',' ∉ cs → ∀ rest,
    currencyCode? (cs ++ rest) = currencyCode? rest
  | [], _, _ => rfl
  | c :: cs, h, rest => by
    obtain ⟨hc, hcs⟩ := not_or.1 (List.mem_cons.not.1 h)
    rw [List.cons_append, currencyCode?, if_neg (Ne.symm hc)]
    exact currencyCode?_append hcs rest

theorem currencyCode?_comma (cs : List Char) :
    currencyCode? (',' :: cs) = (currencyArgument? cs <|> currencyCode? cs) := by
  rw [currencyCode?, if_pos rfl]
  rcases currencyArgument? cs with _ | code <;> rfl

theorem comma_not_mem_gap {gap : List Char} (h : IsGap gap) : ',' ∉ gap := fun hmem =>
  absurd (h ',' hmem) (by decide)

theorem comma_not_mem_word {word : List Char} (h : ∀ c ∈ word, isWord c = true) : ',' ∉ word :=
  fun hmem => absurd (h ',' hmem) (by decide)

theorem Keyword.Opens.comma_not_mem {k : Keyword} {opening : List Char} (h : k.Opens opening) :
    ',' ∉ opening := by
  obtain ⟨name, gap, hname, hgap, rfl⟩ := h
  simp [comma_not_mem_word (isWord_of_sameLetters hname).2, comma_not_mem_gap hgap]

/-! ### Arguments -/

/-- The look-up finds nothing at three letters that a word goes on behind. -/
theorem currencyArgument?_longer {a b c d : Char} {cs rest : List Char}
    (hstart : dropBlanks cs = a :: b :: c :: d :: rest) (hd : isWord d = true) :
    currencyArgument? cs = none := by
  have hrest : dropBlanks (d :: rest) = d :: rest :=
    dropBlanks_gap_cons (fun _ hc => nomatch hc : IsGap []) (isBlank_of_isWord hd)
  unfold currencyArgument?
  simp only [hstart, hrest]
  split
  · split
    · next heq =>
      rw [(List.cons.inj heq).1] at hd
      exact absurd hd (by decide)
    · next heq =>
      rw [(List.cons.inj heq).1] at hd
      exact absurd hd (by decide)
    · rfl
  · rfl

theorem currencyArgument?_code {code after cs rest : List Char} {c : Char}
    (hstart : dropBlanks cs = code ++ (after ++ c :: rest)) (hcode : isCurrencyCode code = true)
    (ha : IsGap after) (hc : c = ',' ∨ c = ')') :
    currencyArgument? cs = some (String.ofList (uppercase code)) := by
  obtain ⟨hlength, hletters⟩ := Bool.and_eq_true_iff.1 hcode
  have hrest : dropBlanks (after ++ c :: rest) = c :: rest :=
    dropBlanks_gap_cons ha (by rcases hc with rfl | rfl <;> decide)
  match code, beq_iff_eq.1 hlength with
  | [d, e, f], _ =>
    unfold currencyArgument?
    simp only [hstart, List.cons_append, List.nil_append, hletters, hrest, if_true]
    rcases hc with rfl | rfl <;> rfl

theorem codeOf?_of_isData {option : List Char} (h : isData option = true) :
    codeOf? option = none := by
  have hlength : option.length = 4 := length_of_sameLetters h
  simp [codeOf?, isCurrencyCode, hlength]

/-- What the look-up finds at an option of an aggregate is the option, if it is a currency. -/
theorem currencyArgument?_option {before option after rest : List Char} {c : Char}
    (hb : IsGap before) (ha : IsGap after)
    (ho : isData option = true ∨ isCurrencyCode option = true) (hc : c = ',' ∨ c = ')') :
    currencyArgument? (before ++ option ++ after ++ c :: rest) = codeOf? option := by
  obtain ⟨hne, hword⟩ := isWord_of_isOption ho
  have hstart : dropBlanks (before ++ option ++ after ++ c :: rest)
      = option ++ (after ++ c :: rest) := by
    rw [List.append_assoc, List.append_assoc]
    refine dropBlanks_gap_append hb fun d hd => isBlank_of_isWord (hword d ?_)
    rw [List.head?_append_of_ne_nil _ hne] at hd
    exact List.mem_of_mem_head? hd
  rcases ho with hdata | hcode
  · have hlength : option.length = 4 := length_of_sameLetters hdata
    rw [codeOf?_of_isData hdata]
    match option, hlength with
    | [d, e, f, g], _ => exact currencyArgument?_longer hstart (hword g (by simp))
  · rw [currencyArgument?_code hstart hcode ha hc, codeOf?, if_pos hcode]

/-- In the arguments of an aggregate the look-up finds the first currency among the options, and if
there is none goes on behind them. -/
theorem currencyCode?_arguments {words : List (List Char)} {written : List Char}
    (h : WrittenArguments words written) (rest : List Char)
    (hwords : ∀ word ∈ words, ∀ c ∈ word, isWord c = true)
    (hoptions : ∀ option ∈ words.tail, isData option = true ∨ isCurrencyCode option = true) :
    currencyCode? (written ++ rest)
      = (words.tail.findSome? codeOf? <|> currencyCode? rest) := by
  induction h with
  | @last before word after hb ha =>
    have hno : ',' ∉ before ++ word ++ after ++ [')'] := by
      simp [comma_not_mem_gap hb, comma_not_mem_gap ha,
        comma_not_mem_word (hwords word List.mem_cons_self)]
    rw [currencyCode?_append hno]
    rfl
  | @cons before word after more words hb ha hmore ih =>
    have hno : ',' ∉ before ++ word ++ after := by
      simp [comma_not_mem_gap hb, comma_not_mem_gap ha,
        comma_not_mem_word (hwords word List.mem_cons_self)]
    have hnext := ih (fun w hw => hwords w (List.mem_cons_of_mem _ hw))
      fun w hw => hoptions w (List.mem_of_mem_tail hw)
    rw [List.append_assoc, List.cons_append, currencyCode?_append hno, currencyCode?_comma, hnext]
    obtain ⟨option, others, rfl, hfound⟩ : ∃ option others, words = option :: others ∧
        currencyArgument? (more ++ rest) = codeOf? option := by
      cases hmore with
      | last hb' ha' =>
        refine ⟨_, _, rfl, ?_⟩
        rw [List.append_assoc, List.singleton_append]
        exact currencyArgument?_option hb' ha' (hoptions _ List.mem_cons_self) (.inr rfl)
      | cons hb' ha' =>
        refine ⟨_, _, rfl, ?_⟩
        rw [List.append_assoc, List.cons_append]
        exact currencyArgument?_option hb' ha' (hoptions _ List.mem_cons_self) (.inl rfl)
    rw [hfound, List.tail_cons, List.tail_cons, List.findSome?_cons]
    rcases codeOf? option with _ | code <;> rfl

/-! ### Segments -/

/-- In a written call the look-up finds the currency of the call. -/
theorem currencyCode?_call {call : Call} {written : List Char} (h : call.WrittenAs written)
    (hcomma : (Segment.call call).LacksComma) (rest : List Char) :
    currencyCode? (written ++ rest)
      = ((Segment.call call).currency? <|> currencyCode? rest) := by
  cases h with
  | @aggregate function range opening word written options hopens hword hoptions hwritten =>
    have hwords : ∀ w ∈ word :: options, ∀ c ∈ w, isWord c = true :=
      List.forall_mem_cons.2 ⟨(isWord_of_range hword).2,
        fun w hw => (isWord_of_isOption (hoptions w hw)).2⟩
    rw [List.append_assoc, currencyCode?_append hopens.comma_not_mem,
      currencyCode?_arguments hwritten rest hwords hoptions, List.tail_cons, findSome?_codeOf?]
    rfl
  | @note opening before document after name hopens hb hne hquote ha hname hword =>
    have hdocument : ',' ∉ document := by
      simpa [Segment.LacksComma] using hcomma
    rw [currencyCode?_append]
    · rfl
    · simp [hopens.comma_not_mem, comma_not_mem_gap hb, hdocument, comma_not_mem_gap ha,
        comma_not_mem_word hword]

theorem SegmentsWrittenAs.currencyCode?_eq {afterWord : Bool} {segments : List Segment}
    {cs : List Char} (h : SegmentsWrittenAs afterWord segments cs)
    (hcomma : ∀ segment ∈ segments, segment.LacksComma) :
    currencyCode? cs = segments.findSome? Segment.currency? := by
  induction h with
  | nil => rfl
  | text _ _ _ _ ih =>
    rw [currencyCode?_append (hcomma _ List.mem_cons_self),
      ih fun segment hs => hcomma segment (List.mem_cons_of_mem _ hs)]
    rfl
  | @call call _ _ segments hcall _ _ ih =>
    rw [currencyCode?_call hcall (hcomma _ List.mem_cons_self),
      ih fun segment hs => hcomma segment (List.mem_cons_of_mem _ hs), List.findSome?_cons]
    rcases (Segment.call call).currency? with _ | code <;> rfl

/-- The currency that is looked up in the text of a formula is that of the first aggregate that has
one, if no comma stands in its texts and in the names of documents. -/
theorem currencyCode?_eq_findSome? {formula : List Char} {segments : List Segment}
    (h : cutFormula formula = .ok segments)
    (hcomma : ∀ segment ∈ segments, segment.LacksComma) :
    currencyCode? formula = segments.findSome? Segment.currency? :=
  (SegmentsWrittenAs.of_cutFrom false formula h).currencyCode?_eq hcomma

theorem currencyCode?_eq_findSome?_second_call :
    let formula := "NOTE(\"r\").v * avg (col,data)+Sum( ROW , Data , usd ,EUR)-MAX(row,GBP)".toList
    let segments : List Segment :=
      [.call (.note "r" "v"), .text " * ".toList, .call (.aggregate .average .column true none),
        .text "+".toList, .call (.aggregate .sum .row true (some "USD")), .text "-".toList,
        .call (.aggregate .maximum .row false (some "GBP"))]
    cutFormula formula = .ok segments ∧ (∀ segment ∈ segments, segment.LacksComma) ∧
      currencyCode? formula = some "USD" := by
  intro formula segments
  have hcut : cutFormula formula = .ok segments := by decide +kernel
  have hcomma : ∀ segment ∈ segments, segment.LacksComma := by decide +kernel
  exact ⟨hcut, hcomma, (currencyCode?_eq_findSome? hcut hcomma).trans (by decide +kernel)⟩

end ComputedTables
