import SynthPatch.Queue
import SynthPatch.Scalar
/-!
# Automation timelines

A property of a module has a value of its own and a timeline of scheduled changes: jumps, linear
and exponential ramps that arrive at a value, and approaches to a target that never arrive.  Events
are kept in the order of their times; events at the same time keep the order they were scheduled
in.

Main results:

- Function {lit}`Timeline.valueAt`: the value at a point of time.
- Theorem {lit}`Timeline.mem_schedule`: scheduling adds one event and loses none.
- Theorem {lit}`Timeline.mem_cancel`: cancelling drops exactly the events from a time on.
-/

namespace SynthPatch

/-- What happens at the time of an event. -/
inductive Ramp (α : Type) where
  /-- Jump to a value. -/
  | jump (value : α)
  /-- Arrive at a value along a straight line from the event before. -/
  | linear (value : α)
  /-- Arrive at a value along an exponential curve from the event before. -/
  | exponential (value : α)
  /-- Begin to approach a target with a time constant. -/
  | approach (target constant : α)
deriving DecidableEq, Repr

/-- A scheduled change. -/
structure Event (α : Type) where
  time : α
  ramp : Ramp α
deriving DecidableEq, Repr

/-- A value of its own and the changes scheduled for it. -/
structure Timeline (α : Type) where
  /-- The value before any event. -/
  value : α
  /-- The scheduled changes, earliest first. -/
  events : List (Event α) := []
deriving DecidableEq, Repr

/-- The last point of a timeline that is settled. -/
structure Anchor (α : Type) where
  time : α
  value : α
  /-- Target and time constant of an approach that begins here. -/
  approach : Option (α × α) := none

namespace Timeline

variable {α : Type}

/-- A timeline with a value of its own and nothing scheduled. -/
def constant (value : α) : Timeline α :=
  { value }

/-- Change the value of its own. -/
def setValue (line : Timeline α) (value : α) : Timeline α :=
  { line with value }

@[simp]
theorem value_setValue (line : Timeline α) (v : α) : (line.setValue v).value = v :=
  rfl

@[simp]
theorem events_setValue (line : Timeline α) (v : α) : (line.setValue v).events = line.events :=
  rfl

end Timeline

variable {α : Type} [Scalar α]

/-! ## Values between events -/

namespace Anchor

/-- The value at a time when nothing but the anchor bears on it. -/
def held (a : Anchor α) (t : α) : α :=
  match a.approach with
  | some (target, constant) =>
    if 0 < constant ∧ a.time < t then
      target + (a.value - target) * Scalar.exp (-(t - a.time) / constant)
    else if a.time < t then target
    else a.value
  | none => a.value

/-- How far a time is on the way from the anchor over a span. -/
def progress (a : Anchor α) (t span : α) : α :=
  Scalar.nonneg ((t - a.time) / span)

/-- The value at a time on a straight line that arrives at a value. -/
def linear (a : Anchor α) (t endTime endValue : α) : α :=
  let start := a.held a.time
  let span := endTime - a.time
  if span ≤ 0 then endValue
  else start + (endValue - start) * a.progress t span

/-- The value at a time on an exponential curve that arrives at a value; where there is no such
curve the anchor holds. -/
def exponential (a : Anchor α) (t endTime endValue : α) : α :=
  let start := a.held a.time
  let span := endTime - a.time
  if span ≤ 0 then endValue
  else if start * endValue ≤ 0 then a.held t
  else start * Scalar.pow (endValue / start) (a.progress t span)

/-- The anchor once an event has happened. -/
def pass (a : Anchor α) (e : Event α) : Anchor α :=
  match e.ramp with
  | .jump v | .linear v | .exponential v => { time := e.time, value := v }
  | .approach target constant =>
    { time := e.time, value := a.held e.time, approach := some (target, constant) }

/-- The value at a time before an event that is still to come. -/
def towards (a : Anchor α) (t : α) (e : Event α) : α :=
  match e.ramp with
  | .linear v => a.linear t e.time v
  | .exponential v => a.exponential t e.time v
  | .jump _ | .approach _ _ => a.held t

/-- The value at a time, given the events after the anchor. -/
def follow (t : α) (a : Anchor α) : List (Event α) → α
  | [] => a.held t
  | e :: rest => if t < e.time then a.towards t e else (a.pass e).follow t rest

end Anchor

/-! ## Scheduling -/

namespace Timeline

/-- Schedule an event; it goes behind the events that are not later. -/
def schedule (line : Timeline α) (time : α) (ramp : Ramp α) : Timeline α :=
  { line with events := Queue.insert (fun e => e.time ≤ time) ⟨time, ramp⟩ line.events }

/-- Drop every event at a time or after it. -/
def cancel (line : Timeline α) (time : α) : Timeline α :=
  { line with events := line.events.filter fun e => e.time < time }

/-- The value at a time. -/
def valueAt (line : Timeline α) (t : α) : α :=
  Anchor.follow t { time := 0, value := line.value } line.events

/-- Hold the value reached at a time and drop everything after it. -/
def holdAt (line : Timeline α) (time : α) : Timeline α :=
  (line.cancel time).schedule time (.jump (line.valueAt time))

/-- Hold the value reached at a time, and tell which it is. -/
def hold (line : Timeline α) (time : α) : α × Timeline α :=
  (line.valueAt time, line.holdAt time)

/-- Drop everything from a time on and jump to silence there. -/
def restart (line : Timeline α) (time : α) : Timeline α :=
  (line.cancel time).schedule time (.jump 0)

/-! ## What an operation does -/

@[simp]
theorem value_schedule (line : Timeline α) (time : α) (ramp : Ramp α) :
    (line.schedule time ramp).value = line.value :=
  rfl

@[simp]
theorem value_holdAt (line : Timeline α) (time : α) : (line.holdAt time).value = line.value :=
  rfl

@[simp]
theorem value_restart (line : Timeline α) (time : α) : (line.restart time).value = line.value :=
  rfl

/-- Scheduling adds one event and loses none. -/
theorem mem_schedule {line : Timeline α} {time : α} {ramp : Ramp α} {e : Event α} :
    e ∈ (line.schedule time ramp).events ↔ e = ⟨time, ramp⟩ ∨ e ∈ line.events :=
  Queue.mem_insert

/-- Cancelling drops exactly the events from a time on. -/
theorem mem_cancel {line : Timeline α} {time : α} {e : Event α} :
    e ∈ (line.cancel time).events ↔ e ∈ line.events ∧ e.time < time := by
  simp [cancel]

end Timeline
end SynthPatch
