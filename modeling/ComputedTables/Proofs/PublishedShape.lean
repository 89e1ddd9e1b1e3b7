import Mathlib
import ComputedTables.Proofs.EntryShape

/-!
# The shape of what is published

The name that a label gives consists of words of small letters and digits with one underscore
between each two of them, a currency is three capitals, and published values are finite.  Tables
hand this shape on (`publishedShape`), so it is kept in every run (`Engine.actAll_wellFormed`).
-/

namespace ComputedTables

/-! ### Names -/

/-- Words with one underscore between each two of them. -/
inductive IsName : List Char → Prop
  | single {c : Char} : isNameChar c = true → IsName [c]
  | cons {c : Char} {cs : List Char} : isNameChar c = true → IsName cs → IsName (c :: cs)
  | joined {c : Char} {cs : List Char} : isNameChar c = true → IsName cs → IsName (c :: '_' :: cs)

/-- What may follow a character of a name. -/
def IsNameRest (cs : List Char) : Prop :=
  cs = [] ∨ IsName cs ∨ ∃ rest, cs = '_' :: rest ∧ IsName rest

theorem IsNameRest.isName {c : Char} {cs : List Char} (hc : isNameChar c = true)
    (h : IsNameRest cs) : IsName (c :: cs) := by
  rcases h with rfl | h | ⟨rest, rfl, h⟩
  · exact .single hc
  · exact .cons hc h
  · exact .joined hc h

theorem underscored_rest : ∀ (pending : Bool) (cs : List Char),
    IsNameRest (underscored true pending cs)
  | _, [] => .inl rfl
  | pending, c :: cs => by
    rw [underscored]
    split
    · rename_i hc
      have hname := (underscored_rest false cs).isName hc
      cases pending
      · exact .inr (.inl hname)
      · exact .inr (.inr ⟨_, rfl, hname⟩)
    · exact underscored_rest true cs

theorem underscored_isName : ∀ (pending : Bool) (cs : List Char),
    underscored false pending cs = [] ∨ IsName (underscored false pending cs)
  | _, [] => .inl rfl
  | pending, c :: cs => by
    rw [underscored]
    split
    · rename_i hc
      rw [Bool.and_false]
      exact .inr ((underscored_rest false cs).isName hc)
    · exact underscored_isName true cs

theorem variableName_isName {label : String} (h : variableName label ≠ "") :
    IsName (variableName label).toList := by
  rw [variableName, String.toList_ofList]
  exact (underscored_isName false _).resolve_left fun hnil => h (by rw [variableName, hnil])

theorem IsName.ne_nil {cs : List Char} (h : IsName cs) : cs ≠ [] := by
  cases h <;> exact List.cons_ne_nil _ _

theorem isWord_of_isNameChar {c : Char} (h : isNameChar c = true) : Text.isWord c = true := by
  rcases Bool.or_eq_true_iff.1 h with hlower | hdigit
  · exact Text.isWord_of_isAlpha (by simp [Char.isAlpha, hlower])
  · exact Text.isWord_of_isDigit hdigit

theorem IsName.isWord {cs : List Char} (h : IsName cs) : ∀ c ∈ cs, Text.isWord c = true := by
  induction h with
  | single hc => simpa using isWord_of_isNameChar hc
  | cons hc _ ih => exact List.forall_mem_cons.2 ⟨isWord_of_isNameChar hc, ih⟩
  | joined hc _ ih =>
    exact List.forall_mem_cons.2 ⟨isWord_of_isNameChar hc, List.forall_mem_cons.2 ⟨by decide, ih⟩⟩

/-! ### Variables -/

/-- Three capitals. -/
def IsCurrency (code : String) : Prop :=
  code.toList.length = 3 ∧ ∀ c ∈ code.toList, c.isUpper = true

theorem isCurrency_of_currencyArgument? {cs : List Char} {code : String}
    (h : currencyArgument? cs = some code) : IsCurrency code := by
  unfold currencyArgument? at h
  split at h
  · split at h
    · rename_i a b c rest _ halpha
      have hcode : IsCurrency (String.ofList (Text.uppercase [a, b, c])) := by
        simpa [IsCurrency, Text.uppercase] using halpha
      split at h
      · cases h
        exact hcode
      · cases h
        exact hcode
      · cases h
    · cases h
  · cases h

theorem isCurrency_of_currencyCode? : ∀ {cs : List Char} {code : String},
    currencyCode? cs = some code → IsCurrency code
  | c :: cs, code, h => by
    rw [currencyCode?] at h
    split at h
    · rename_i hfound
      cases h
      split at hfound
      · exact isCurrency_of_currencyArgument? hfound
      · cases hfound
    · exact isCurrency_of_currencyCode? h

/-- A finite value, and a currency if there is one. -/
structure Variable.WellFormed (v : Variable) : Prop where
  finite : v.value.isFinite = true
  currency : ∀ code ∈ v.currency, IsCurrency code

def Lookup.WellFormed (lookup : Lookup) : Prop :=
  ∀ document name v, lookup document name = some v → IsName name.toList ∧ v.WellFormed

/-- The currency of a result is written in the formula or is that of a variable. -/
theorem resultCurrency_cases {lookup : Lookup} {formula code : String}
    (h : resultCurrency lookup formula = some code) :
    IsCurrency code ∨ ∃ document name v, lookup document name = some v ∧ code ∈ v.currency := by
  unfold resultCurrency at h
  split at h
  · rename_i hfound
    cases h
    exact .inl (isCurrency_of_currencyCode? hfound)
  · split at h
    · obtain ⟨v, hv, hc⟩ := Option.bind_eq_some_iff.1 h
      exact .inr ⟨_, _, v, hv, hc⟩
    · cases h

theorem isCurrency_of_resultCurrency {lookup : Lookup} (h : lookup.WellFormed)
    {formula code : String} (hcode : resultCurrency lookup formula = some code) :
    IsCurrency code := by
  rcases resultCurrency_cases hcode with hc | ⟨document, name, v, hv, hc⟩
  · exact hc
  · exact (h document name v hv).2.currency code hc

theorem rowVariable?_eq_some {lookup : Lookup} {row : List Cell} {name : String} {v : Variable}
    (h : rowVariable? lookup row = some (name, v)) :
    (∃ label, name = variableName label) ∧ name ≠ "" ∧
      ∀ code ∈ v.currency, ∃ formula, resultCurrency lookup formula = some code := by
  unfold rowVariable? at h
  split at h
  · simp only [] at h
    split at h
    · cases h
    · split at h
      · cases h
      · rename_i hnot
        cases h
        simp only [Bool.or_eq_true, not_or] at hnot
        refine ⟨⟨_, rfl⟩, by simpa using hnot.2, fun code hcode => ?_⟩
        split at hcode
        · exact ⟨_, hcode⟩
        · cases hcode
  · cases h

theorem rowVariable?_wellFormed {lookup : Lookup} (h : lookup.WellFormed) {row : List Cell}
    {name : String} {v : Variable} (hrow : rowVariable? lookup row = some (name, v)) :
    IsName name.toList ∧ v.WellFormed := by
  obtain ⟨⟨label, rfl⟩, hne, hcurrency⟩ := rowVariable?_eq_some hrow
  refine ⟨variableName_isName hne, rowVariable?_finite hrow, fun code hcode => ?_⟩
  obtain ⟨formula, hformula⟩ := hcurrency code hcode
  exact isCurrency_of_resultCurrency h hformula

/-! ### Sets and indices -/

def VariableSet.WellFormed (set : VariableSet) : Prop :=
  ∀ (name : String) (v : Variable), set[name]? = some v → IsName name.toList ∧ v.WellFormed

/-- No entry is empty. -/
def Index.WellFormed (index : Index) : Prop :=
  ∀ (document : String) (set : VariableSet), index[document]? = some set →
    set.isEmpty = false ∧ set.WellFormed

def publishedShape : EntryShape where
  Fits name v := IsName name.toList ∧ v.WellFormed
  Entry set := set.isEmpty = false ∧ set.WellFormed
  fits h hv := h.2 _ _ hv
  entry := And.intro
  row h hrow := rowVariable?_wellFormed h hrow

theorem VariableSet.wellFormed_empty : WellFormed ∅ :=
  EntryShape.ofSet_empty (S := publishedShape)

theorem VariableSet.WellFormed.insert {set : VariableSet} (h : set.WellFormed) {name : String}
    {v : Variable} (hname : IsName name.toList) (hv : v.WellFormed) :
    VariableSet.WellFormed (Std.ExtTreeMap.insert set name v) :=
  EntryShape.OfSet.insert (S := publishedShape) h ⟨hname, hv⟩

theorem Index.WellFormed.lookup {index : Index} (h : index.WellFormed) : index.lookup.WellFormed :=
  EntryShape.OfIndex.lookup (S := publishedShape) h

theorem Index.WellFormed.insert {index : Index} (h : index.WellFormed) {set : VariableSet}
    (hne : set.isEmpty = false) (hset : set.WellFormed) (document : String) :
    Index.WellFormed (Std.ExtTreeMap.insert index document set) :=
  EntryShape.OfIndex.insert (S := publishedShape) h ⟨hne, hset⟩ document

/-- What is published keeps its shape in every run. -/
theorem Engine.actAll_wellFormed {engine : Engine} (hstart : engine.Fresh)
    (hindex : engine.index.WellFormed) (actions : List Action) :
    publishedShape.Kept (fun _ => True) (engine.actAll actions) :=
  List.foldlRecOn actions _ ⟨hindex, grounded_of_fresh hstart⟩ fun _ h action _ =>
    h.act action fun _ _ => trivial

end ComputedTables
