import Mathlib
import ComputedTables.Proofs.CurrencyArguments
import ComputedTables.Proofs.Substitution
import ComputedTables.Proofs.PublishedShape

/-!
# Reading what is published

The name of a published variable is a word, so the formula that refers to it is cut into that one
reference, whatever the document is called.  It has the value that was published; it has the
currency too, unless the name of the document holds a comma, behind which a currency is looked for.
-/

namespace ComputedTables

/-- The formula that is a reference to a variable of a document and nothing else. -/
def noteFormula (document name : String) : String :=
  "=NOTE(\"" ++ document ++ "\")." ++ name

variable {document name : String}

theorem unmarked_noteFormula (document name : String) : unmarked (noteFormula document name)
    = "NOTE(".toList ++ '"' :: (document.toList ++ '"' :: ')' :: '.' :: name.toList) := by
  simp [unmarked, noteFormula]

theorem trim_noteFormula (hname : IsName name.toList) (document : String) :
    Text.trim (unmarked (noteFormula document name)) = unmarked (noteFormula document name) := by
  rw [unmarked_noteFormula]
  refine Text.trim_eq_self (by simp; decide) fun c hc => ?_
  have hsplit : "NOTE(".toList ++ '"' :: (document.toList ++ '"' :: ')' :: '.' :: name.toList)
      = ("NOTE(".toList ++ '"' :: (document.toList ++ ['"', ')', '.'])) ++ name.toList := by simp
  rw [hsplit, List.getLast?_append_of_ne_nil _ hname.ne_nil] at hc
  exact Text.isBlank_of_isWord (hname.isWord c (List.mem_of_getLast? hc))

theorem cutFormula_noteFormula (hname : IsName name.toList) (hne : document ≠ "")
    (hquote : '"' ∉ document.toList) :
    cutFormula (Text.trim (unmarked (noteFormula document name)))
      = .ok [.call (.note document name)] := by
  have hopens : Keyword.note.Opens "NOTE(".toList := ⟨"NOTE".toList, [], by decide, nofun, rfl⟩
  have hgap : Text.IsGap [] := nofun
  have hnonempty : document.toList ≠ [] := by simpa using hne
  have hwritten := Call.WrittenAs.note hopens hgap hnonempty hquote hgap hname.ne_nil hname.isWord
  have hsegments := SegmentsWrittenAs.call hwritten (fun _ => rfl) .nil
  rw [trim_noteFormula hname, unmarked_noteFormula, cutFormula]
  simpa using hsegments.cutFrom

/-- The tree of a reference is a leaf. -/
theorem writtenIn_call (call : Call) :
    (Expr.leaf (Sum.inr call) : Expr (Literal ⊕ Call)).WrittenIn [.call call] :=
  have hblank : ∀ g ∈ ([] : List Glyph), g.IsBlank := nofun
  ⟨[.number (.inr call)], .leaf _, .cons hblank (.nil hblank)⟩

variable {lookup : Lookup} {v : Variable}

theorem evalFormula_noteFormula (hv : lookup document name = some v) (hname : IsName name.toList)
    (hfinite : v.value.isFinite = true) (hne : document ≠ "") (hquote : '"' ∉ document.toList)
    (hreads : ReadsBack v.value) (grid : Grid) (p : Place) :
    evalFormula lookup grid p (noteFormula document name) = .ok v.value := by
  have hvalues : ∀ call, .call call ∈ [Segment.call (.note document name)] →
      call.value lookup grid p = .ok v.value ∧ v.value.isFinite = true ∧ ReadsBack v.value := by
    intro call hcall
    cases List.mem_singleton.1 hcall
    refine ⟨?_, hfinite, hreads⟩
    rw [Call.value, hv]
  exact (writtenIn_call _).evalFormula (cutFormula_noteFormula hname hne hquote) hvalues

theorem resultCurrency_noteFormula (hv : lookup document name = some v)
    (hname : IsName name.toList) (hne : document ≠ "") (hquote : '"' ∉ document.toList)
    (hcomma : ',' ∉ document.toList) :
    resultCurrency lookup (noteFormula document name) = v.currency := by
  have hnone : currencyCode? (unmarked (noteFormula document name)) = none := by
    have hno : ',' ∉ unmarked (noteFormula document name) := by
      rw [unmarked_noteFormula]
      simp [hcomma, comma_not_mem_word hname.isWord]
    have hcode := currencyCode?_append hno []
    rw [List.append_nil] at hcode
    exact hcode
  have hlone : loneNote? (unmarked (noteFormula document name)) = some (document, name) := by
    rw [loneNote?, cutFormula_noteFormula hname hne hquote]
  rw [resultCurrency, hnone, hlone]
  simp [hv]

/-- What is published keeps its shape in every run, and it can be referred to: the formula that is a
reference to a published variable has its value wherever it stands, and its currency if there is no
comma in the name of the document. -/
theorem Engine.published_is_readable {start : Engine} (hstart : start.Fresh)
    (hindex : start.index.WellFormed) (actions : List Action) :
    let index := (start.actAll actions).index
    index.WellFormed ∧ ∀ document name v, document ≠ "" → '"' ∉ document.toList →
      index.lookup document name = some v →
        (ReadsBack v.value → ∀ grid p,
          evalFormula index.lookup grid p (noteFormula document name) = .ok v.value) ∧
        (',' ∉ document.toList →
          resultCurrency index.lookup (noteFormula document name) = v.currency) := by
  intro index
  have hwell : index.WellFormed := (actAll_wellFormed hstart hindex actions).index
  refine ⟨hwell, fun document name v hne hquote hv => ?_⟩
  obtain ⟨hname, hvariable⟩ := hwell.lookup document name v hv
  exact ⟨evalFormula_noteFormula hv hname hvariable.finite hne hquote,
    resultCurrency_noteFormula hv hname hne hquote⟩

theorem Engine.published_is_readable_rate :
    let rates : Index :=
      (∅ : Index).insert "Rates" ((∅ : VariableSet).insert "vat" ⟨0.5, some "EUR"⟩)
    let start : Engine := { index := rates }
    let index := (start.actAll
      [.recalculate "Prices" "| VAT *rate* | =NOTE(\"Rates\").vat |\n| Net | 5 |" none false]).index
    start.Fresh ∧ start.index.WellFormed ∧
      index.lookup "Prices" "vat_rate" = some ⟨0.5, some "EUR"⟩ ∧ ReadsBack 0.5 ∧
      (∀ grid p, evalFormula index.lookup grid p "=NOTE(\"Prices\").vat_rate" = .ok 0.5) ∧
      resultCurrency index.lookup "=NOTE(\"Prices\").vat_rate" = some "EUR" := by
  intro rates start index
  have hfresh : start.Fresh := fun document => by
    simp [start, memoryOf, DocumentMemory.Forgotten]
  have hvat : IsName "vat".toList := .cons (by decide) (.cons (by decide) (.single (by decide)))
  have hvariable : Variable.WellFormed ⟨0.5, some "EUR"⟩ := by
    refine ⟨by decide +kernel, fun code hcode => ?_⟩
    cases hcode
    exact ⟨rfl, List.all_eq_true.1 (by decide)⟩
  have hempty : Index.WellFormed ∅ := fun _ _ h => by simp at h
  have hindex : start.index.WellFormed :=
    hempty.insert (by decide +kernel) (VariableSet.wellFormed_empty.insert hvat hvariable) "Rates"
  have hlookup : index.lookup "Prices" "vat_rate" = some ⟨0.5, some "EUR"⟩ := by decide +kernel
  have hreads : ReadsBack 0.5 :=
    readsBack_of_literal ⟨⟨false, ['0'], true, ['5']⟩, by simp, by simp, nofun, .inl (by simp)⟩
      (by decide +kernel) (by decide +kernel)
  obtain ⟨heval, hcurrency⟩ := (published_is_readable hfresh hindex [_]).2 "Prices" "vat_rate" _
    (by decide) (by decide) hlookup
  exact ⟨hfresh, hindex, hlookup, hreads, heval hreads, hcurrency (by decide)⟩

end ComputedTables
