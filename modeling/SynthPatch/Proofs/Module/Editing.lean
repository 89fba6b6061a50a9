import SynthPatch.Proofs.Double.Order
import SynthPatch.Proofs.Module.Chronology
import SynthPatch.Proofs.Module.Exact
/-!
# Edits of a timeline

A timeline can be edited in any order and for as long as one likes: events are scheduled at any
time, also before events that are there already, and cancelled from any time on.  Whatever was done
to it, what is left are the events that no later edit has dropped, in order of time.

Main results:

- Function {lit}`Timeline.surviving`: the events that no later edit drops.
- Theorem {lit}`Edit.chronological_apply`: what one edit does to the order of time.
- Theorem {lit}`Timeline.chronological_edited`: the events after a row of edits.
- Theorem {lit}`Timeline.valueAt_holdAt`: a value that is held stays.
- Theorem {lit}`Timeline.edited_reordered`: events at different times may be scheduled in any order.
- Theorem {lit}`Timeline.events_edited`: all of this in double precision.
-/

namespace SynthPatch

variable {α : Type}

/-! ## Edits -/

/-- A change to a timeline. -/
inductive Edit (α : Type) where
  /-- Change the value of its own. -/
  | own (value : α)
  /-- Schedule an event. -/
  | schedule (time : α) (ramp : Ramp α)
  /-- Drop the events at a time or after it. -/
  | cancel (time : α)
  /-- Hold the value reached at a time. -/
  | hold (time : α)
deriving DecidableEq, Repr

namespace Edit

/-- The edit that schedules an event. -/
def ofEvent (e : Event α) : Edit α :=
  schedule e.time e.ramp

/-- The value of its own that a timeline is given. -/
def own? : Edit α → Option α
  | own value => some value
  | _ => none

/-- The time that an edit names. -/
def time? : Edit α → Option α
  | own _ => none
  | schedule time _ | cancel time | hold time => some time

/-- The edit names no time, or one that can be compared. -/
def Timed (known : α → Prop) (edit : Edit α) : Prop :=
  ∀ time, edit.time? = some time → known time

variable [Scalar α]

/-- The timeline after an edit. -/
def apply (line : Timeline α) : Edit α → Timeline α
  | own value => line.setValue value
  | schedule time ramp => line.schedule time ramp
  | cancel time => line.cancel time
  | hold time => line.holdAt time

/-- The event that an edit adds to a timeline; a hold adds a jump to the value reached. -/
def event? (line : Timeline α) : Edit α → Option (Event α)
  | schedule time ramp => some ⟨time, ramp⟩
  | hold time => some ⟨time, .jump (line.valueAt time)⟩
  | own _ | cancel _ => none

/-- The edit drops an event that was there before. -/
def drops (e : Event α) : Edit α → Bool
  | cancel time | hold time => time ≤ e.time
  | own _ | schedule _ _ => false

end Edit

namespace Timeline

variable [Scalar α]

/-- The timeline after a row of edits. -/
def edited (line : Timeline α) (edits : List (Edit α)) : Timeline α :=
  edits.foldl Edit.apply line

/-- The events that a row of edits adds to a timeline and no later one of them drops, in the order
in which they are added. -/
def surviving (line : Timeline α) : List (Edit α) → List (Event α)
  | [] => []
  | edit :: rest =>
    ((edit.event? line).toList.filter fun e => !rest.any (·.drops e)) ++
      surviving (edit.apply line) rest

theorem edited_append (line : Timeline α) (edits more : List (Edit α)) :
    line.edited (edits ++ more) = (line.edited edits).edited more :=
  List.foldl_append

/-- A timeline has the value of its own that it was given last. -/
theorem value_edited (line : Timeline α) (edits : List (Edit α)) :
    (line.edited edits).value = (edits.filterMap Edit.own?).getLastD line.value := by
  induction edits generalizing line with
  | nil => rfl
  | cons edit rest ih =>
      refine (ih (edit.apply line)).trans ?_
      cases edit with
      | own value => exact List.getLastD_cons.symm
      | _ => rfl

/-- One more edit drops some of the events and adds its own. -/
theorem surviving_snoc (line : Timeline α) (edits : List (Edit α)) (edit : Edit α) :
    line.surviving (edits ++ [edit]) =
      (line.surviving edits).filter (fun e => !edit.drops e) ++
        (edit.event? (line.edited edits)).toList := by
  induction edits generalizing line with
  | nil => simp [surviving, edited]
  | cons first rest ih =>
      have both (e : Event α) : (!(rest ++ [edit]).any (·.drops e)) =
          (!edit.drops e && !rest.any (·.drops e)) := by
        simp [Bool.and_comm]
      rw [List.cons_append, surviving, ih, surviving, List.filter_append, List.filter_filter,
        List.append_assoc]
      simp only [both]
      rfl

/-- Events that are only scheduled are all left. -/
theorem surviving_scheduled (line : Timeline α) (row : List (Event α)) :
    line.surviving (row.map Edit.ofEvent) = row := by
  induction row generalizing line with
  | nil => rfl
  | cons e rest ih =>
      have none (other : Event α) : (rest.map Edit.ofEvent).any (·.drops other) = false := by
        simp [Edit.ofEvent, Edit.drops]
      rw [List.map_cons, surviving, ih]
      simp only [none]
      rfl

end Timeline

/-! ## Order of time -/

section Order

variable [Scalar α] {known : α → Prop} {line : Timeline α} {scheduled : List (Event α)}

variable (order : Scalar.Comparable known)

include order

/-- Cancelling drops the events that are not before the time. -/
theorem Chronological.cancel (h : Chronological known scheduled line.events) {time : α}
    (timed : known time) :
    Chronological known (scheduled.filter fun e => !decide (time ≤ e.time))
      (line.cancel time).events := by
  have same : (line.cancel time).events =
      line.events.filter fun e => !decide (time ≤ e.time) := by
    refine List.filter_congr fun e mem => ?_
    rw [← decide_not, decide_eq_decide]
    exact (order.not_le_iff timed (h.known_time e mem)).symm
  rw [same]
  exact h.filter _

/-- A new event goes behind those that are not later. -/
theorem Chronological.schedule (h : Chronological known scheduled line.events) {time : α}
    (timed : known time) (ramp : Ramp α) :
    Chronological known (scheduled ++ [⟨time, ramp⟩]) (line.schedule time ramp).events :=
  h.insert order timed

/-- What one edit does to the order of time. -/
theorem Edit.chronological_apply (h : Chronological known scheduled line.events) {edit : Edit α}
    (timed : edit.Timed known) :
    Chronological known
      (scheduled.filter (fun e => !edit.drops e) ++ (edit.event? line).toList)
      (edit.apply line).events := by
  cases edit with
  | own value => simpa [drops, event?, apply] using h
  | schedule time ramp =>
      simpa [drops, event?, apply] using h.schedule order (timed time rfl) ramp
  | cancel time => simpa [drops, event?, apply] using h.cancel order (timed time rfl)
  | hold time => exact (h.cancel order (timed time rfl)).schedule order (timed time rfl) _

namespace Timeline

/-- The events after a row of edits are the surviving ones in order of time. -/
theorem chronological_edited (empty : line.events = []) {edits : List (Edit α)}
    (timed : ∀ edit ∈ edits, edit.Timed known) :
    Chronological known (line.surviving edits) (line.edited edits).events := by
  induction edits using List.reverseRecOn with
  | nil =>
      change Chronological known [] line.events
      rw [empty]
      exact .nil
  | append_singleton edits edit ih =>
      have before := ih fun other mem => timed other (List.mem_append_left _ mem)
      rw [surviving_snoc, edited_append]
      exact Edit.chronological_apply order before (timed edit (by simp))

/-! ## Holding -/

/-- A value that is held stays. -/
theorem valueAt_holdAt (h : Chronological known scheduled line.events) {time t : α}
    (timed : known time) (later : time ≤ t) : (line.holdAt time).valueAt t = line.valueAt time := by
  have after := order.known_of_le later
  have earlier (e : Event α) (mem : e ∈ (line.cancel time).events) : e.time ≤ time :=
    order.le_of_lt (h.known_time e (mem_cancel.1 mem).1) timed (mem_cancel.1 mem).2
  have passed : ∀ e ∈ (line.cancel time).events ++ [⟨time, .jump (line.valueAt time)⟩],
      ¬ t < e.time := by
    intro e mem
    rcases List.mem_append.1 mem with mem | mem
    · have reached := earlier e mem
      exact order.not_lt_of_le (h.known_time e (mem_cancel.1 mem).1)
        (order.le_trans (h.known_time e (mem_cancel.1 mem).1) timed after reached later)
    · rw [List.mem_singleton.1 mem]
      exact order.not_lt_of_le timed later
  rw [valueAt, holdAt, events_schedule_of_le earlier, ← List.append_nil (_ ++ _),
    Anchor.follow_append passed, List.foldl_append]
  rfl

/-! ## Scheduling in any order -/

/-- Scheduling a row of events puts them behind those that are there. -/
theorem chronological_scheduled (h : Chronological known scheduled line.events)
    {row : List (Event α)} (times : ∀ e ∈ row, known e.time) :
    Chronological known (scheduled ++ row) (line.edited (row.map Edit.ofEvent)).events := by
  induction row generalizing scheduled line with
  | nil => rwa [List.append_nil]
  | cons e rest ih =>
      obtain ⟨first, others⟩ := List.forall_mem_cons.1 times
      rw [List.append_cons]
      exact ih (h.schedule order first e.ramp) others

end Timeline

/-- The events are at different times. -/
def Event.Apart (a b : Event α) : Prop :=
  Scalar.same a.time b.time = false

omit order in
theorem Event.Apart.symm {a b : Event α} (h : a.Apart b) : b.Apart a := by
  unfold Event.Apart Scalar.same at h ⊢
  rwa [Bool.and_comm]

/-- Events that are both at one time are not at different times. -/
theorem Event.not_apart {a b : Event α} (ha : known a.time) (hb : known b.time) {time : α}
    (here : a.isAt time = true) (there : b.isAt time = true) : ¬ a.Apart b := by
  obtain ⟨low, high⟩ := Event.isAt_iff.1 here
  obtain ⟨low', high'⟩ := Event.isAt_iff.1 there
  have timed := order.known_of_le low
  have below := order.le_trans ha timed hb low high'
  have above := order.le_trans hb timed ha low' high
  simp [Event.Apart, Scalar.same, below, above]

/-- Events at different times may have been scheduled in any order. -/
theorem Chronological.reorder {row other events : List (Event α)}
    (h : Chronological known (scheduled ++ row) events) (apart : row.Pairwise Event.Apart)
    (perm : row.Perm other) : Chronological known (scheduled ++ other) events := by
  have same : (scheduled ++ row).Perm (scheduled ++ other) := perm.append_left scheduled
  refine ⟨fun e mem => h.times e (same.mem_iff.2 mem), h.perm.trans same, h.ascending, ?_⟩
  intro time
  rw [h.steady, List.filter_append, List.filter_append]
  congr 1
  -- At most one of the events is at the time, so there is nothing to reorder.
  have others := (perm.pairwise_iff Event.Apart.symm).1 apart
  refine List.Perm.eq_of_pairwise ?_ (apart.filter _) (others.filter _) (perm.filter _)
  intro a b ha hb different
  obtain ⟨mem, here⟩ := List.mem_filter.1 ha
  obtain ⟨mem', there⟩ := List.mem_filter.1 hb
  have known := h.times a (by simp [mem])
  have known' := h.times b (by simp [perm.mem_iff.2 mem'])
  exact absurd different (Event.not_apart order known known' here there)

namespace Timeline

/-- Events at different times may be scheduled in any order. -/
theorem edited_reordered (h : Chronological known scheduled line.events)
    {row other : List (Event α)} (times : ∀ e ∈ row, known e.time)
    (apart : row.Pairwise Event.Apart) (perm : row.Perm other) :
    line.edited (row.map Edit.ofEvent) = line.edited (other.map Edit.ofEvent) := by
  have first := chronological_scheduled order h times
  have second := chronological_scheduled order h fun e mem => times e (perm.mem_iff.2 mem)
  have events := (first.reorder order apart perm).unique order second
  have untouched (row : List (Event α)) : (row.map Edit.ofEvent).filterMap Edit.own? = [] := by
    simp [List.filterMap_eq_nil_iff, Edit.ofEvent, Edit.own?]
  have value : (line.edited (row.map Edit.ofEvent)).value =
      (line.edited (other.map Edit.ofEvent)).value := by
    rw [value_edited, value_edited, untouched, untouched]
  exact congrArg₂ Timeline.mk value events

end Timeline

end Order

/-! ## In double precision -/

/-- Doubles that are defined can be compared. -/
theorem Double.comparable : Scalar.Comparable fun x : Double => x.isUndefined = false where
  le_trans ha hb hc := le_trans ha hb hc
  not_le_iff ha hb := not_le_iff ha hb
  le_of_lt ha hb below := by
    rw [lt_iff ha hb] at below
    exact (le_iff ha hb).2 (Int.le_of_lt below)
  known_of_le := defined_of_le

/-- A new timeline that is edited at times that are defined.  Its events are the surviving ones in
order of time, those at one time in the order in which they were added; its own value is the one it
was given last; holding tells the value that was reached, which then stays; and events at different
times may be scheduled in any order. -/
theorem Timeline.events_edited {value : Double} {edits : List (Edit Double)}
    (timed : ∀ edit ∈ edits, edit.Timed fun x => x.isUndefined = false) :
    ((constant value).edited edits).events =
        ((constant value).surviving edits).mergeSort Event.notAfter ∧
      ((constant value).edited edits).value = (edits.filterMap Edit.own?).getLastD value ∧
      (∀ time, time.isUndefined = false →
        (((constant value).edited edits).hold time).1 =
            ((constant value).edited edits).valueAt time ∧
          ∀ t, time ≤ t → (((constant value).edited edits).hold time).2.valueAt t =
            (((constant value).edited edits).hold time).1) ∧
      ∀ row other : List (Event Double), (∀ e ∈ row, e.time.isUndefined = false) →
        row.Pairwise Event.Apart → row.Perm other →
          (constant value).edited (edits ++ row.map Edit.ofEvent) =
            (constant value).edited (edits ++ other.map Edit.ofEvent) := by
  have order := Double.comparable
  have empty : (constant value).events = [] := rfl
  have h := chronological_edited order empty timed
  refine ⟨h.eq_mergeSort order, value_edited _ _, ?_, ?_⟩
  · intro time known
    exact ⟨rfl, fun t later => valueAt_holdAt order h known later⟩
  · intro row other times apart perm
    rw [edited_append, edited_append]
    exact edited_reordered order h times apart perm

/-- Events scheduled out of order and at one time, and a value that is held. -/
def revisions : List (Edit Double) :=
  [.schedule 2.0 (.linear 1.0), .own 0.25, .schedule 1.0 (.jump 0.5), .hold 1.5,
    .schedule 1.0 (.jump 0.125)]

/-- The event at two seconds is dropped, and the one that came last goes before the value held. -/
theorem Timeline.events_edited_revisions :
    (∀ edit ∈ revisions, edit.Timed fun x => x.isUndefined = false) ∧
      ((constant (0.0 : Double)).edited revisions).events =
        ((constant 0.0).surviving revisions).mergeSort Event.notAfter ∧
      (((constant (0.0 : Double)).edited revisions).events.map fun e =>
        (e.isAt 1.0, e.isAt 1.5)) = [(true, false), (true, false), (false, true)] ∧
      ((constant (0.0 : Double)).edited revisions).value = 0.25 ∧
      (((constant (0.0 : Double)).edited revisions).hold 1.75).2.valueAt 3.0 =
        ((constant (0.0 : Double)).edited revisions).valueAt 1.75 ∧
      (constant (0.0 : Double)).edited (revisions ++
          [⟨2.0, .jump 1.0⟩, ⟨0.5, .linear 1.0⟩].map Edit.ofEvent) =
        (constant (0.0 : Double)).edited (revisions ++
          [⟨0.5, .linear 1.0⟩, ⟨2.0, .jump 1.0⟩].map Edit.ofEvent) := by
  have timed : ∀ edit ∈ revisions, edit.Timed fun x => x.isUndefined = false := by
    simp only [revisions, List.forall_mem_cons, Edit.Timed, Edit.time?]
    decide +kernel
  obtain ⟨events, value, held, reordered⟩ := @Timeline.events_edited 0.0 revisions timed
  obtain ⟨told, stays⟩ := held 1.75 (by decide +kernel)
  have apart : [⟨2.0, .jump 1.0⟩, ⟨0.5, .linear 1.0⟩].Pairwise (Event.Apart (α := Double)) :=
    List.pairwise_pair.2 (by unfold Event.Apart; decide +kernel)
  have either := reordered [⟨2.0, .jump 1.0⟩, ⟨0.5, .linear 1.0⟩]
    [⟨0.5, .linear 1.0⟩, ⟨2.0, .jump 1.0⟩] (by simp; decide +kernel) apart (.swap _ _ _)
  exact ⟨timed, events, by decide +kernel, value.trans rfl,
    (stays 3.0 (by decide +kernel)).trans told, either⟩

end SynthPatch
