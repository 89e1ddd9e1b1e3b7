import ComputedTables.Indexing.Bulk

/-!
# Batches make two rounds

A step of a bulk pass visits the next batch of one round.  What it does is told by the documents of
that batch alone (`step_eq`), so how the documents are cut into batches makes no difference to the
engine: steps until the end are one round over all documents followed by one over those that have
references (`run_eq_rounds`), and no more than two plain loops over their texts
(`run_eq_plainIndexing`).  The counters only tell when the end is reached (`Counted`).
-/

namespace ComputedTables

namespace Source

variable (source : Source) (id : Document)

/-- Whether the first round recalculates a document. -/
def indexes : Bool :=
  match source.read id with
  | .ok text => mayHoldFormulas text
  | .error _ => false

/-- Whether a document cannot be read. -/
def fails : Bool :=
  match source.read id with
  | .ok _ => false
  | .error _ => true

/-- Whether the first round queues a document for the second one. -/
def refers : Bool :=
  match source.read id with
  | .ok text => mayHoldFormulas text && hasReferences text
  | .error _ => false

end Source

namespace Bulk

/-- What a visit in the first round makes of the engine. -/
def visited (source : Source) (engine : Engine) (id : Document) : Engine :=
  match source.read id with
  | .ok text =>
    if mayHoldFormulas text then (engine.recalculate id.name text none true).2 else engine
  | .error _ => engine

/-- What a visit in the second round makes of the engine: what is remembered of the document is
dropped first, so that its references are looked up anew. -/
def revisited (source : Source) (engine : Engine) (id : Document) : Engine :=
  match source.read id with
  | .ok text => ((engine.invalidate id.name).recalculate id.name text none true).2
  | .error _ => engine

/-- The documents that the next step visits in the first round. -/
def firstBatch (b : Bulk) : List Document :=
  b.ahead.take b.batch

/-- The documents that the next step visits in the second round. -/
def secondBatch (b : Bulk) : List Document :=
  if b.ahead = [] then b.again.take b.batch else []

/-- What visits in the first round make of a bulk pass. -/
def took (b : Bulk) (source : Source) (ids : List Document) : Bulk :=
  { b with
    again := b.again ++ ids.filter source.refers
    progress := { b.progress with
      indexed := b.progress.indexed + ids.countP source.indexes
      failed := b.progress.failed + ids.countP source.fails
      againTotal := b.progress.againTotal + ids.countP source.refers } }

/-- What is left of a bulk pass after the next step. -/
def next (b : Bulk) (source : Source) : Bulk :=
  { b with
    ahead := b.ahead.drop b.batch
    again := b.again.drop b.secondBatch.length ++ b.firstBatch.filter source.refers
    progress := {
      visited := b.progress.visited + b.firstBatch.length
      total := b.progress.total
      indexed := b.progress.indexed + b.firstBatch.countP source.indexes
      failed := b.progress.failed + b.firstBatch.countP source.fails
      againTotal := b.progress.againTotal + b.firstBatch.countP source.refers
      revisited := b.progress.revisited + b.secondBatch.length } }

structure Counted (b : Bulk) : Prop where
  ahead : b.progress.total = b.progress.visited + b.ahead.length
  again : b.progress.againTotal = b.progress.revisited + b.again.length

variable {source : Source}

theorem counted_create (queue : List Document) (batch : Nat) : (create queue batch).Counted :=
  ⟨(Nat.zero_add _).symm, rfl⟩

theorem Counted.finished_iff {b : Bulk} (h : b.Counted) :
    b.progress.finished = true ↔ b.ahead = [] ∧ b.again = [] := by
  have h1 := h.ahead
  have h2 := h.again
  unfold Progress.finished
  rw [Bool.and_eq_true, decide_eq_true_eq, decide_eq_true_eq, ← List.length_eq_zero_iff,
    ← List.length_eq_zero_iff]
  omega

/-! ### A batch -/

theorem took_nil (b : Bulk) : b.took source [] = b := by
  simp [took]

theorem took_took (b : Bulk) (ids more : List Document) :
    (b.took source ids).took source more = b.took source (ids ++ more) := by
  simp [took, Nat.add_assoc]

theorem visit_eq (b : Bulk) (engine : Engine) (id : Document) :
    visit source (b, engine) id = (b.took source [id], visited source engine id) := by
  unfold visit took visited indexed Source.refers Source.indexes Source.fails
  rcases hr : source.read id with failure | text
  · simp [hr]
  · rcases hm : mayHoldFormulas text with _ | _
    · simp [hr, hm]
    · rcases hn : hasReferences text with _ | _ <;> simp [hr, hm, hn]

theorem foldl_visit_eq : ∀ (ids : List Document) (b : Bulk) (engine : Engine),
    ids.foldl (visit source) (b, engine)
      = (b.took source ids, ids.foldl (visited source) engine)
  | [], b, _ => by rw [took_nil, List.foldl_nil, List.foldl_nil]
  | id :: ids, b, engine => by
    rw [List.foldl_cons, visit_eq, foldl_visit_eq ids, took_took, List.singleton_append,
      List.foldl_cons]

theorem firstBatch_append (b : Bulk) : b.firstBatch ++ b.ahead.drop b.batch = b.ahead :=
  List.take_append_drop b.batch b.ahead

theorem secondBatch_append (b : Bulk) :
    b.secondBatch ++ b.again.drop b.secondBatch.length = b.again := by
  refine List.prefix_iff_eq_append.1 ?_
  unfold secondBatch
  split
  · exact List.take_prefix b.batch b.again
  · exact List.nil_prefix

/-- A step visits the documents of the next batch one after the other, and takes them off its
round. -/
theorem step_eq (b : Bulk) (source : Source) (engine : Engine) :
    b.step source engine = (b.next source,
      b.secondBatch.foldl (revisit source) (b.firstBatch.foldl (visited source) engine)) := by
  unfold step
  by_cases ha : b.ahead = []
  · simp [ha, next, firstBatch, secondBatch]
  · rw [if_neg (by simp [ha]), foldl_visit_eq]
    simp [ha, next, took, firstBatch, secondBatch]

theorem Counted.next {b : Bulk} (h : b.Counted) (source : Source) : (b.next source).Counted := by
  have h1 := h.ahead
  have h2 := h.again
  constructor
  · simp only [Bulk.next, firstBatch, List.length_take, List.length_drop]
    omega
  · simp only [Bulk.next, secondBatch, List.countP_eq_length_filter, List.length_append,
      List.length_drop]
    split
    · simp only [List.length_take]
      omega
    · simp only [List.length_nil]
      omega

/-! ### All batches -/

/-- The engine after what is left of both rounds. -/
def rounds (source : Source) (b : Bulk) (engine : Engine) : Engine :=
  (b.again ++ b.ahead.filter source.refers).foldl (revisit source)
    (b.ahead.foldl (visited source) engine)

theorem rounds_of_finished {b : Bulk} (ha : b.ahead = []) (hg : b.again = []) (engine : Engine) :
    rounds source b engine = engine := by
  unfold rounds
  rw [ha, hg]
  rfl

/-- A step leaves fewer steps to take. -/
theorem stepBound_next {b : Bulk} (hc : b.Counted) (hf : ¬ b.progress.finished = true)
    (source : Source) : (b.next source).stepBound < b.stepBound := by
  have hpos := b.batch_pos
  have hrefers := List.length_filter_le source.refers b.firstBatch
  unfold stepBound
  by_cases ha : b.ahead = []
  · have hne : 0 < b.again.length :=
      List.length_pos_iff.2 fun hg => hf (hc.finished_iff.2 ⟨ha, hg⟩)
    simp [Bulk.next, ha, firstBatch, secondBatch]
    omega
  · have hne : 0 < b.ahead.length := List.length_pos_iff.2 ha
    simp only [firstBatch, List.length_take] at hrefers
    simp [Bulk.next, ha, firstBatch, secondBatch]
    omega

/-- A step takes its share off both rounds. -/
theorem rounds_next (b : Bulk) (source : Source) (engine : Engine) :
    rounds source (b.next source) (b.step source engine).2 = rounds source b engine := by
  rw [step_eq]
  unfold rounds
  by_cases ha : b.ahead = []
  · have hfirst : b.firstBatch = [] := by simp [firstBatch, ha]
    simp only [next, ha, hfirst, List.drop_nil, List.filter_nil, List.append_nil, List.foldl_nil]
    rw [← List.foldl_append, secondBatch_append]
  · have hsecond : b.secondBatch = [] := if_neg ha
    simp only [next, hsecond, List.length_nil, List.drop_zero, List.foldl_nil]
    rw [List.append_assoc, ← List.filter_append, ← List.foldl_append, firstBatch_append]

theorem steps_eq_rounds : ∀ (n : Nat) (b : Bulk) (engine : Engine), b.Counted → b.stepBound ≤ n →
    (steps source n b engine).1.progress.finished = true ∧
      (steps source n b engine).2 = rounds source b engine
  | 0, b, engine, hc, hn => by
    unfold stepBound at hn
    have ha : b.ahead = [] := List.length_eq_zero_iff.1 (by omega)
    have hg : b.again = [] := List.length_eq_zero_iff.1 (by omega)
    exact ⟨hc.finished_iff.2 ⟨ha, hg⟩, (rounds_of_finished ha hg engine).symm⟩
  | n + 1, b, engine, hc, hn => by
    unfold steps
    by_cases hf : b.progress.finished = true
    · obtain ⟨ha, hg⟩ := hc.finished_iff.1 hf
      rw [if_pos hf, rounds_of_finished ha hg]
      exact ⟨hf, rfl⟩
    · have hless := stepBound_next hc hf source
      have ih := steps_eq_rounds n (b.next source) (b.step source engine).2 (hc.next source)
        (by omega)
      rw [rounds_next, step_eq] at ih
      rw [if_neg hf, step_eq]
      exact ih

theorem run_finished (source : Source) (queue : List Document) (batch : Nat) (engine : Engine) :
    ((create queue batch).run source engine).1.progress.finished = true :=
  (steps_eq_rounds _ _ engine (counted_create queue batch) (Nat.le_refl _)).1

/-- A bulk pass is one round over all documents and one over those with references. -/
theorem run_eq_rounds (queue : List Document) (batch : Nat) (engine : Engine) :
    ((create queue batch).run source engine).2
      = (queue.filter source.refers).foldl (revisit source)
          (queue.foldl (visited source) engine) :=
  (steps_eq_rounds _ _ engine (counted_create queue batch) (Nat.le_refl _)).2

end Bulk

/-! ### Two plain loops -/

namespace Source

variable (source : Source)

/-- The names and texts of the documents that a bulk pass recalculates. -/
def indexedTexts (ids : List Document) : List (String × String) :=
  ids.filterMap fun id =>
    match source.read id with
    | .ok text => if mayHoldFormulas text then some (id.name, text) else none
    | .error _ => none

/-- Indexing without batches: a loop over the documents that look as if they had formulas, and one
over those of them with references. -/
def plainIndexing (queue : List Document) (engine : Engine) : Engine :=
  let docs := source.indexedTexts queue
  let engine := docs.foldl (fun engine d => (engine.recalculate d.1 d.2 none true).2) engine
  (docs.filter fun d => hasReferences d.2).foldl
    (fun engine d => ((engine.invalidate d.1).recalculate d.1 d.2 none true).2) engine

theorem indexedTexts_refers (ids : List Document) :
    source.indexedTexts (ids.filter source.refers)
      = (source.indexedTexts ids).filter fun d => hasReferences d.2 := by
  unfold indexedTexts
  rw [List.filterMap_filter, List.filter_filterMap]
  congr 1
  funext id
  unfold refers
  rcases source.read id with failure | text
  · rfl
  · rcases hm : mayHoldFormulas text with _ | _ <;> rcases hn : hasReferences text with _ | _ <;>
      simp [hm, hn, Option.filter]

/-- Documents that the first round does not recalculate make no difference. -/
theorem indexedTexts_indexes (ids : List Document) :
    source.indexedTexts (ids.filter source.indexes) = source.indexedTexts ids := by
  unfold indexedTexts
  rw [List.filterMap_filter]
  congr 1
  funext id
  unfold indexes
  rcases source.read id with failure | text
  · rfl
  · rcases hm : mayHoldFormulas text with _ | _ <;> simp [hm]

end Source

namespace Bulk

theorem foldl_visited_eq (source : Source) (ids : List Document) (engine : Engine) :
    ids.foldl (visited source) engine = (source.indexedTexts ids).foldl
      (fun engine d => (engine.recalculate d.1 d.2 none true).2) engine := by
  unfold Source.indexedTexts
  rw [List.foldl_filterMap]
  congr 1
  funext engine id
  unfold visited
  rcases source.read id with failure | text
  · rfl
  · rcases hm : mayHoldFormulas text with _ | _ <;> simp [hm]

theorem foldl_revisit_eq (source : Source) (ids : List Document) (engine : Engine) :
    (ids.filter source.refers).foldl (revisit source) engine
      = (source.indexedTexts (ids.filter source.refers)).foldl
        (fun engine d => ((engine.invalidate d.1).recalculate d.1 d.2 none true).2) engine := by
  unfold Source.indexedTexts
  rw [List.foldl_filterMap, List.foldl_filter, List.foldl_filter]
  congr 1
  funext engine id
  unfold Source.refers revisit
  rcases source.read id with failure | text
  · rfl
  · rcases hm : mayHoldFormulas text with _ | _ <;> simp [hm]

/-- A bulk pass comes to its end, and leaves the engine as two plain loops leave it.  How large the
batches are, and what stands in the queue besides the documents it recalculates, makes no
difference. -/
theorem run_eq_plainIndexing (source : Source) (queue : List Document) (batch : Nat)
    (engine : Engine) :
    let ran := (create queue batch).run source engine
    ran.1.progress.finished = true ∧ ran.2 = source.plainIndexing queue engine ∧
    ∀ other, ((create (queue.filter source.indexes) other).run source engine).2 = ran.2 := by
  intro ran
  have hplain : ∀ ids size, ((create ids size).run source engine).2
      = source.plainIndexing ids engine := by
    intro ids size
    rw [run_eq_rounds, foldl_revisit_eq, foldl_visited_eq, Source.indexedTexts_refers]
    rfl
  refine ⟨run_finished source queue batch engine, hplain queue batch, fun other => ?_⟩
  show _ = ((create queue batch).run source engine).2
  rw [hplain, hplain]
  unfold Source.plainIndexing
  rw [Source.indexedTexts_indexes]

end Bulk

end ComputedTables
