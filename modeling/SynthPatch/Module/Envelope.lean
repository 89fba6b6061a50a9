import SynthPatch.Module.Timeline
/-!
# Envelopes

An envelope has no signal of its own; it schedules changes on the properties it drives.  The
four-stage envelope rises to its level, falls to its sustain and is released to silence along
straight lines.  The decaying envelope rises along a line and then falls exponentially, whether or
not the note is held.

Main results:

- Function {lit}`Stages.apply`: a note of the four-stage envelope.
- Function {lit}`Fall.apply`: a note of the decaying envelope.
- Theorems {lit}`Stages.value_apply`, {lit}`Fall.value_apply`: a note only schedules changes.
-/

namespace SynthPatch

variable {α : Type} [Scalar α]

/-! ## Four stages -/

/-- The settings of a four-stage envelope; the sustain is a fraction of the level. -/
structure Stages (α : Type) where
  attack : α
  decay : α
  sustain : α
  release : α
  level : α

namespace Stages

/-- How long the attack takes. -/
def attackTime (s : Stages α) : α :=
  Scalar.nonneg s.attack

/-- How long the decay takes. -/
def decayTime (s : Stages α) : α :=
  Scalar.nonneg s.decay

/-- How long the release takes. -/
def releaseTime (s : Stages α) : α :=
  Scalar.nonneg s.release

/-- The level at which a held note rests. -/
def sustainLevel (s : Stages α) : α :=
  s.sustain * s.level

/-- Schedule a note on a property.  A note without a duration is held.  A note that ends during
the attack is released from the point it has reached, one that ends during the decay likewise, and
a longer one from its sustain. -/
def apply (s : Stages α) (when : α) (duration : Option α) (line : Timeline α) : Timeline α :=
  let begun := line.restart when
  let risen := begun.schedule (when + s.attackTime) (.linear s.level)
  match duration with
  | none => risen.schedule (when + s.attackTime + s.decayTime) (.linear s.sustainLevel)
  | some duration =>
    let silent := when + duration + s.releaseTime
    if duration ≤ s.attackTime then
      let peak := if 0 < s.attackTime then s.level * duration / s.attackTime else s.level
      (begun.schedule (when + duration) (.linear peak)).schedule silent (.linear 0)
    else if duration ≤ s.attackTime + s.decayTime then
      let through := (duration - s.attackTime) / s.decayTime
      let reached := s.level - (s.level - s.sustainLevel) * through
      (risen.schedule (when + duration) (.linear reached)).schedule silent (.linear 0)
    else
      let rested := risen.schedule (when + s.attackTime + s.decayTime) (.linear s.sustainLevel)
      (rested.schedule (when + duration) (.linear s.sustainLevel)).schedule silent (.linear 0)

/-- A note leaves the value that a property has of its own. -/
@[simp]
theorem value_apply (s : Stages α) (when : α) (duration : Option α) (line : Timeline α) :
    (s.apply when duration line).value = line.value := by
  cases duration with
  | none => simp only [apply, Timeline.value_schedule, Timeline.value_restart]
  | some duration =>
      simp only [apply]
      split
      · simp only [Timeline.value_schedule, Timeline.value_restart]
      · split <;> simp only [Timeline.value_schedule, Timeline.value_restart]

/-- Release a property: it falls to silence from where it is. -/
def silence (s : Stages α) (when : α) (line : Timeline α) : Timeline α :=
  (line.holdAt when).schedule (when + s.releaseTime) (.linear 0)

@[simp]
theorem value_silence (s : Stages α) (when : α) (line : Timeline α) :
    (s.silence when line).value = line.value := by
  simp only [silence, Timeline.value_schedule, Timeline.value_holdAt]

end Stages

/-! ## Exponential fall -/

/-- The settings of a decaying envelope; it falls from its level to the floor, as a fraction of the
level, in its decay time. -/
structure Fall (α : Type) where
  attack : α
  decay : α
  level : α
  /-- The level that counts as silent. -/
  floor : α

namespace Fall

/-- The rate of the fall; a fall that takes no time has none. -/
def rate? (f : Fall α) : Option α :=
  if f.decay ≤ 0 then none else some (Scalar.log (1 / f.floor) / f.decay)

/-- The time constant of the fall. -/
def timeConstant (f : Fall α) : α :=
  match f.rate? with
  | some rate => 1 / rate
  | none => 0

/-- Schedule a note on a property; how long the note is held does not matter. -/
def apply (f : Fall α) (when : α) (line : Timeline α) : Timeline α :=
  let peak := when + Scalar.nonneg f.attack
  ((line.restart when).schedule peak (.linear f.level)).schedule peak (.approach 0 f.timeConstant)

/-- A note leaves the value that a property has of its own. -/
@[simp]
theorem value_apply (f : Fall α) (when : α) (line : Timeline α) :
    (f.apply when line).value = line.value := by
  simp only [apply, Timeline.value_schedule, Timeline.value_restart]

/-- How long the fall goes on from a level until it counts as silent. -/
def tailFrom (f : Fall α) (current : α) : α :=
  match f.rate? with
  | none => 0
  | some rate =>
    if current ≤ f.floor ∨ !Scalar.isFinite rate then 0
    else -Scalar.log (f.floor / current) / rate

end Fall
end SynthPatch
