import SynthPatch.Queue
import SynthPatch.Scalar
/-!
# Pending teardowns

A teardown names the voice it is for, so that one that is pending for a voice cannot touch another
that has taken its key.  Teardowns are kept in the order they fall due, at equal times in the order
of their voices, and are never taken back.

Main results:

- Theorem {lit}`Schedule.mem_push`: what is pending after a teardown was added.
- Theorem {lit}`Schedule.drain_append`: what falls due and what stays pending make up the schedule.
-/

namespace SynthPatch

/-- The removal of a voice at a time. -/
structure Teardown (α : Type) where
  due : α
  /-- The number of the voice.  Fewer than 2^64 notes are ever struck, so that it fits into a word
  of 64 bits. -/
  voice : Nat
deriving DecidableEq, Repr

/-- The pending teardowns, earliest first. -/
structure Schedule (α : Type) where
  pending : List (Teardown α) := []
deriving DecidableEq, Repr

namespace Schedule

variable {α : Type}

/-- When the next teardown falls due. -/
def nextDue? (s : Schedule α) : Option α :=
  s.pending.head?.map (·.due)

variable [Scalar α]

/-- The first teardown is not later than the second, and at the same time not for a later voice. -/
def goesBefore (a b : Teardown α) : Bool :=
  ((Scalar.order a.due b.due).then (compare a.voice b.voice)).isLE

/-- Add a teardown. -/
def push (s : Schedule α) (t : Teardown α) : Schedule α :=
  ⟨Queue.insert (goesBefore · t) t s.pending⟩

/-- Take out every teardown that is due. -/
def drain (s : Schedule α) (now : α) : List (Teardown α) × Schedule α :=
  (s.pending.takeWhile fun t => t.due ≤ now, ⟨s.pending.dropWhile fun t => t.due ≤ now⟩)

/-- What is pending after a teardown was added. -/
@[simp]
theorem mem_push {s : Schedule α} {t x : Teardown α} :
    x ∈ (s.push t).pending ↔ x = t ∨ x ∈ s.pending :=
  Queue.mem_insert

/-- What falls due and what stays pending make up the schedule. -/
theorem drain_append (s : Schedule α) (now : α) :
    (s.drain now).1 ++ (s.drain now).2.pending = s.pending :=
  List.takeWhile_append_dropWhile

/-- What is pending falls due or stays pending. -/
theorem mem_pending_iff {s : Schedule α} {t : Teardown α} (now : α) :
    t ∈ s.pending ↔ t ∈ (s.drain now).1 ∨ t ∈ (s.drain now).2.pending := by
  rw [← List.mem_append, s.drain_append]

/-- What is taken out is due. -/
theorem due_of_mem_drain {s : Schedule α} {now : α} {t : Teardown α} (h : t ∈ (s.drain now).1) :
    t.due ≤ now := by
  have := List.all_takeWhile (l := s.pending) (p := fun t => decide (t.due ≤ now))
  exact of_decide_eq_true (List.all_eq_true.1 this t h)

end Schedule
end SynthPatch
