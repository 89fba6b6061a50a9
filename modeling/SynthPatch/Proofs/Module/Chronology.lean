import SynthPatch.Module.Timeline
import Mathlib.Data.List.Basic
/-!
# Events in order of time

A timeline keeps its events in order of time, and events at one time in the order in which they were
scheduled.  This module says what that means, that scheduling and cancelling keep it so, and that
there is only one such order of given events.

Times are compared as numbers, and not all numbers can be compared; the ones that can are given by a
property.

Main results:

- Structure {lit}`Chronological`: the events are the scheduled ones in order of time.
- Theorems {lit}`Chronological.filter`, {lit}`Chronological.insert`: what cancelling and scheduling
  do to that.
- Theorem {lit}`Chronological.exists_last`: where the last event of a time stands.
- Theorem {lit}`Chronological.unique`: there is only one such order.
- Theorem {lit}`Chronological.eq_mergeSort`: it is what stable sorting gives.
-/

namespace SynthPatch

variable {α : Type} [Scalar α] {known : α → Prop}

/-! ## Numbers that can be compared -/

/-- The numbers with the property can be compared with each other. -/
structure Scalar.Comparable (known : α → Prop) : Prop where
  le_trans : ∀ {a b c : α}, known a → known b → known c → a ≤ b → b ≤ c → a ≤ c
  not_le_iff : ∀ {a b : α}, known a → known b → (¬ a ≤ b ↔ b < a)
  le_of_lt : ∀ {a b : α}, known a → known b → a < b → a ≤ b
  known_of_le : ∀ {a b : α}, a ≤ b → known b

namespace Scalar.Comparable

variable (order : Comparable known) {a b : α}

include order

theorem le_total (ha : known a) (hb : known b) : a ≤ b ∨ b ≤ a := by
  by_cases below : a ≤ b
  · exact .inl below
  · exact .inr (order.le_of_lt hb ha ((order.not_le_iff ha hb).1 below))

theorem le_refl (ha : known a) : a ≤ a :=
  (order.le_total ha ha).elim id id

theorem not_lt_of_le (ha : known a) (below : a ≤ b) : ¬ b < a := by
  intro above
  exact (order.not_le_iff ha (order.known_of_le below)).2 above below

end Scalar.Comparable

namespace Event

/-- The event is at a time. -/
def isAt (time : α) (e : Event α) : Bool :=
  Scalar.same e.time time

theorem isAt_iff {time : α} {e : Event α} : e.isAt time = true ↔ e.time ≤ time ∧ time ≤ e.time := by
  simp [isAt, Scalar.same]

/-- The event does not come after another one. -/
def notAfter (a b : Event α) : Bool :=
  a.time ≤ b.time

theorem notAfter_iff {a b : Event α} : a.notAfter b = true ↔ a.time ≤ b.time := by
  simp [notAfter]

end Event

/-! ## Order of time -/

/-- The events are the scheduled ones in order of time, and those at one time in the order in which
they were scheduled. -/
structure Chronological (known : α → Prop) (scheduled events : List (Event α)) : Prop where
  times : ∀ e ∈ scheduled, known e.time
  perm : events.Perm scheduled
  ascending : events.Pairwise fun a b => a.time ≤ b.time
  steady : ∀ time, events.filter (·.isAt time) = scheduled.filter (·.isAt time)

/-- Events in order of time fall into those up to a time and those after it. -/
theorem exists_split (order : Scalar.Comparable known) {events : List (Event α)}
    (times : ∀ e ∈ events, known e.time) (ascending : events.Pairwise fun a b => a.time ≤ b.time)
    {time : α} (timed : known time) :
    ∃ front back, events = front ++ back ∧ (∀ e ∈ front, e.time ≤ time) ∧
      ∀ e ∈ back, ¬ e.time ≤ time := by
  induction events with
  | nil => exact ⟨[], [], rfl, by simp, by simp⟩
  | cons e rest ih =>
      obtain ⟨first, others⟩ := List.pairwise_cons.1 ascending
      obtain ⟨here, there⟩ := List.forall_mem_cons.1 times
      by_cases past : e.time ≤ time
      · obtain ⟨front, back, rfl, before, behind⟩ := ih there others
        exact ⟨e :: front, back, rfl, List.forall_mem_cons.2 ⟨past, before⟩, behind⟩
      · refine ⟨[], e :: rest, rfl, by simp, List.forall_mem_cons.2 ⟨past, ?_⟩⟩
        intro later mem early
        exact past (order.le_trans here (there later mem) timed (first later mem) early)

namespace Chronological

variable {scheduled events : List (Event α)}

theorem nil : Chronological known ([] : List (Event α)) [] :=
  ⟨by simp, .nil, .nil, fun _ => rfl⟩

/-- The times of the events can be compared. -/
theorem known_time (h : Chronological known scheduled events) : ∀ e ∈ events, known e.time :=
  fun e mem => h.times e (h.perm.mem_iff.1 mem)

/-- Dropping events keeps the others in order. -/
theorem filter (h : Chronological known scheduled events) (keep : Event α → Bool) :
    Chronological known (scheduled.filter keep) (events.filter keep) where
  times e mem := h.times e (List.mem_filter.1 mem).1
  perm := h.perm.filter keep
  ascending := h.ascending.filter keep
  steady time := by rw [List.filter_comm, h.steady, List.filter_comm]

variable (order : Scalar.Comparable known)

include order

/-- A new event goes behind those that are not later. -/
theorem insert (h : Chronological known scheduled events) {e : Event α} (timed : known e.time) :
    Chronological known (scheduled ++ [e])
      (Queue.insert (fun other => other.time ≤ e.time) e events) := by
  obtain ⟨front, back, rfl, before, behind⟩ :=
    exists_split order h.known_time h.ascending timed
  rw [Queue.insert_of_split e (fun x mem => decide_eq_true (before x mem))
    (fun x mem => decide_eq_false (behind x mem))]
  obtain ⟨frontOrder, backOrder, across⟩ := List.pairwise_append.1 h.ascending
  have later (x : Event α) (mem : x ∈ back) : e.time ≤ x.time :=
    (order.le_total timed (h.known_time x (by simp [mem]))).resolve_right (behind x mem)
  refine ⟨?_, ?_, ?_, fun time => ?_⟩
  · intro x mem
    rcases List.mem_append.1 mem with mem | mem
    · exact h.times x mem
    · rwa [List.mem_singleton.1 mem]
  · exact List.perm_middle.trans
      ((h.perm.cons e).trans (List.perm_append_singleton e scheduled).symm)
  · refine List.pairwise_append.2 ⟨frontOrder, List.pairwise_cons.2 ⟨later, backOrder⟩, ?_⟩
    intro a ha b hb
    rcases List.mem_cons.1 hb with rfl | hb
    · exact before a ha
    · exact across a ha b hb
  · have old := h.steady time
    rw [List.filter_append] at old
    rw [List.filter_append, List.filter_append, ← old]
    by_cases here : e.isAt time = true
    · -- No event behind the new one is at its time.
      have none : back.filter (·.isAt time) = [] := by
        refine List.filter_eq_nil_iff.2 fun x mem there => ?_
        have low := (Event.isAt_iff.1 there).1
        have high := (Event.isAt_iff.1 here).2
        exact behind x mem (order.le_trans (h.known_time x (by simp [mem]))
          (order.known_of_le low) timed low high)
      simp [here, none]
    · simp [here]

/-- The last of the scheduled events that are at its time is also the last one in order of time, and
only later events are behind it. -/
theorem exists_last (h : Chronological known scheduled events) {before after : List (Event α)}
    {e : Event α} (row : scheduled = before ++ e :: after)
    (last : ∀ later ∈ after, later.isAt e.time = false) :
    ∃ front back, events = front ++ e :: back ∧ (∀ x ∈ front, x.time ≤ e.time) ∧
      ∀ x ∈ back, ¬ x.time ≤ e.time := by
  have timed : known e.time := h.times e (by simp [row])
  have here : e.isAt e.time = true := Event.isAt_iff.2 ⟨order.le_refl timed, order.le_refl timed⟩
  obtain ⟨passed, back, rfl, early, late⟩ := exists_split order h.known_time h.ascending timed
  have gone : back.filter (·.isAt e.time) = [] :=
    List.filter_eq_nil_iff.2 fun x mem there => late x mem (Event.isAt_iff.1 there).1
  have none : after.filter (·.isAt e.time) = [] :=
    List.filter_eq_nil_iff.2 fun x mem => by simp [last x mem]
  have same := h.steady e.time
  rw [row, List.filter_append, List.filter_append, gone, List.append_nil,
    List.filter_cons_of_pos here, none] at same
  have mem : e ∈ passed := List.mem_of_mem_filter (same ▸ List.mem_append_right _ (by simp))
  obtain rfl | ⟨front, x, rfl⟩ := List.eq_nil_or_concat' passed
  · cases mem
  · -- What is passed last is not before the event, so it is at its time.
    have reached : e.time ≤ x.time := by
      rcases List.mem_append.1 mem with before | only
      · exact (List.pairwise_append.1 (List.pairwise_append.1 h.ascending).1).2.2 e before x
          (List.mem_singleton_self x)
      · rw [List.mem_singleton.1 only]
        exact order.le_refl (List.mem_singleton.1 only ▸ timed)
    have there : x.isAt e.time = true := Event.isAt_iff.2 ⟨early x (by simp), reached⟩
    rw [List.filter_append, List.filter_cons_of_pos there] at same
    obtain rfl : x = e := by simpa using (List.append_inj' same rfl).2
    exact ⟨front, back, by simp, fun y mem => early y (by simp [mem]), late⟩

/-- Two rows of events in order of time that agree on every time are the same. -/
theorem eq_of_ascending {first second : List (Event α)} (times : ∀ e ∈ first, known e.time)
    (perm : first.Perm second) (ascending : first.Pairwise fun a b => a.time ≤ b.time)
    (ascending' : second.Pairwise fun a b => a.time ≤ b.time)
    (steady : ∀ time, first.filter (·.isAt time) = second.filter (·.isAt time)) :
    first = second := by
  induction first generalizing second with
  | nil => exact (List.nil_perm.1 perm).symm
  | cons a rest ih =>
      cases second with
      | nil => exact absurd perm.length_eq (by simp)
      | cons b others =>
          have timed : known a.time := times a List.mem_cons_self
          have timed' : known b.time := times b (perm.mem_iff.2 List.mem_cons_self)
          have notAbove : a.time ≤ b.time := by
            rcases List.mem_cons.1 (perm.mem_iff.2 List.mem_cons_self) with rfl | mem
            · exact order.le_refl timed'
            · exact (List.pairwise_cons.1 ascending).1 b mem
          have notBelow : b.time ≤ a.time := by
            rcases List.mem_cons.1 (perm.mem_iff.1 List.mem_cons_self) with rfl | mem
            · exact order.le_refl timed
            · exact (List.pairwise_cons.1 ascending').1 a mem
          -- The first events are at the same time, so each is the first at that time.
          have here : a.isAt a.time = true :=
            Event.isAt_iff.2 ⟨order.le_refl timed, order.le_refl timed⟩
          have there : b.isAt a.time = true := Event.isAt_iff.2 ⟨notBelow, notAbove⟩
          have same := steady a.time
          rw [List.filter_cons_of_pos here, List.filter_cons_of_pos there] at same
          obtain ⟨rfl, -⟩ := List.cons.inj same
          rw [ih (fun e mem => times e (List.mem_cons_of_mem a mem)) perm.cons_inv
            ascending.of_cons ascending'.of_cons]
          intro time
          have same := steady time
          simp only [List.filter_cons] at same
          split at same
          · exact (List.cons.inj same).2
          · exact same

/-- There is only one order of time. -/
theorem unique {other : List (Event α)} (h : Chronological known scheduled events)
    (h' : Chronological known scheduled other) : events = other :=
  eq_of_ascending order h.known_time (h.perm.trans h'.perm.symm) h.ascending h'.ascending
    fun time => (h.steady time).trans (h'.steady time).symm

/-- What does not come after one event comes after no event that it does not come after. -/
theorem notAfter_trans (times : ∀ e ∈ scheduled, known e.time) (a b c : {e // e ∈ scheduled})
    (first : a.1.notAfter b = true) (second : b.1.notAfter c = true) : a.1.notAfter c = true := by
  rw [Event.notAfter_iff] at first second ⊢
  exact order.le_trans (times a a.2) (times b b.2) (times c c.2) first second

/-- Stable sorting puts events in order of time. -/
theorem mergeSort (times : ∀ e ∈ scheduled, known e.time) :
    Chronological known scheduled (scheduled.mergeSort Event.notAfter) := by
  -- Only the times of these events can be compared, so they are sorted among themselves.
  have sorted : scheduled.mergeSort Event.notAfter =
      (scheduled.attach.mergeSort fun a b => a.1.notAfter b).map Subtype.val := by
    rw [List.map_mergeSort (s := Event.notAfter) fun _ _ _ _ => rfl, List.attach_map_subtype_val]
  have trans := notAfter_trans order times
  have total (a b : {e // e ∈ scheduled}) : (a.1.notAfter b || b.1.notAfter a) = true := by
    rw [Bool.or_eq_true, Event.notAfter_iff, Event.notAfter_iff]
    exact order.le_total (times a a.2) (times b b.2)
  have perm := List.mergeSort_perm scheduled Event.notAfter
  refine ⟨times, perm, ?_, fun time => ?_⟩
  · rw [sorted, List.pairwise_map]
    exact (List.pairwise_mergeSort trans total _).imp fun h => Event.notAfter_iff.1 h
  · -- The events at one time are a row that is in order, and sorting keeps such rows.
    have row : (scheduled.attach.filter fun e => e.1.isAt time).Pairwise
        fun a b => a.1.notAfter b = true := by
      refine List.pairwise_of_forall_mem_list fun a ha b hb => Event.notAfter_iff.2 ?_
      have low := (Event.isAt_iff.1 (List.mem_filter.1 ha).2).1
      have high := (Event.isAt_iff.1 (List.mem_filter.1 hb).2).2
      exact order.le_trans (times a a.2) (order.known_of_le low) (times b b.2) low high
    have kept := (List.sublist_mergeSort trans total row List.filter_sublist).map Subtype.val
    have rows : (scheduled.attach.filter fun e => e.1.isAt time).map Subtype.val =
        scheduled.filter (·.isAt time) := by
      have filtered :=
        List.filter_map (p := Event.isAt time) (f := Subtype.val) (l := scheduled.attach)
      rw [List.attach_map_subtype_val] at filtered
      exact filtered.symm
    rw [← sorted, rows] at kept
    have kept := kept.filter (·.isAt time)
    rw [List.filter_filter] at kept
    simp only [Bool.and_self] at kept
    exact (kept.eq_of_length (perm.filter _).length_eq.symm).symm

/-- The order of time is what stable sorting gives. -/
theorem eq_mergeSort (h : Chronological known scheduled events) :
    events = scheduled.mergeSort Event.notAfter :=
  h.unique order (mergeSort order h.times)

end Chronological
end SynthPatch
