import Std.Data.ExtTreeMap.Lemmas

/-!
# Waiting for edits to end

An edit of something is acted on only when it has been left alone for a while.  Each key has its own
deadline, so a burst of edits of several things delays none of them on account of another.
-/

namespace ComputedTables

open Std (ExtTreeMap TransOrd)

/-- Keys that have been touched, each with the time at which it will have been left alone for long
enough. -/
structure Deadlines (κ : Type) [Ord κ] where
  delay : Nat := 500
  deadlines : ExtTreeMap κ Nat := ∅

namespace Deadlines

variable {κ : Type} [Ord κ] [TransOrd κ]

/-- Notes an edit, which starts the wait for its key anew. -/
def restart (d : Deadlines κ) (key : κ) (now : Nat) : Deadlines κ :=
  { d with deadlines := d.deadlines.insert key (now + d.delay) }

/-- Notes an edit on a clock with a last time: this fails if the wait would end later. -/
def restart? (d : Deadlines κ) (last : Nat) (key : κ) (now : Nat) : Option (Deadlines κ) :=
  if now + d.delay ≤ last then some (d.restart key now) else none

/-- Whether an edit of the key is waited for. -/
def waitsFor (d : Deadlines κ) (key : κ) : Bool :=
  d.deadlines.contains key

/-- How many keys are waited for. -/
def size (d : Deadlines κ) : Nat :=
  d.deadlines.size

/-- Drops a key, and says whether it was waited for. -/
def drop (d : Deadlines κ) (key : κ) : Bool × Deadlines κ :=
  (d.waitsFor key, { d with deadlines := d.deadlines.erase key })

/-- Takes out the keys whose deadline has come, in their order. -/
def takeExpired (d : Deadlines κ) (now : Nat) : List κ × Deadlines κ :=
  ((d.deadlines.filter fun _ deadline => deadline ≤ now).keys,
    { d with deadlines := d.deadlines.filter fun _ deadline => now < deadline })

end Deadlines

end ComputedTables
