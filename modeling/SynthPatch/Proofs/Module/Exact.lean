import Mathlib.Analysis.SpecialFunctions.Pow.Real
import SynthPatch.Module.Timeline
/-!
# Timelines in exact arithmetic

The real numbers are an arithmetic without rounding.  In it a timeline can be followed with pen and
paper: events that have happened are passed one after the other, and the value at a time only
depends on the last of them and on the next one to come.

Main results:

- Instance {lit}`Scalar ℝ`: the real numbers.
- Theorems {lit}`Anchor.follow_append`, {lit}`Anchor.follow_cons_of_lt`: which events bear on the
  value at a time.
- Theorems {lit}`Anchor.follow_linear`, {lit}`Anchor.follow_exponential`,
  {lit}`Anchor.held_approach`: the value on the way along a straight line, along an exponential
  curve and on an approach.
- Theorem {lit}`Timeline.EndsBy.events_schedule`: events that are scheduled in order stand in order.
-/

namespace SynthPatch

noncomputable instance : Scalar ℝ where
  decLt := inferInstance
  decLe := inferInstance
  log := Real.log
  exp := Real.exp
  pow x y := x ^ y
  isFinite _ := true
  order x y := compare x y

/-- A length of time that is not below zero counts in full. -/
theorem Scalar.nonneg_of_le {x : ℝ} (h : 0 ≤ x) : Scalar.nonneg x = x := by
  rcases h.eq_or_lt with rfl | pos
  · exact nonneg_of_not_pos (lt_irrefl 0)
  · exact nonneg_of_pos pos

/-- What counts of a length of time is not below zero. -/
theorem Scalar.le_nonneg (x : ℝ) : 0 ≤ Scalar.nonneg x := by
  unfold nonneg
  split
  · next positive => exact positive.le
  · exact le_refl 0

/-! ## Following events -/

namespace Anchor

section Follow

variable {α : Type} [Scalar α]

/-- Before the first event the value is on its way there. -/
theorem follow_cons_of_lt {t : α} {e : Event α} (h : t < e.time) (a : Anchor α)
    (rest : List (Event α)) : follow t a (e :: rest) = a.towards t e :=
  if_pos h

/-- An event that has happened is passed. -/
theorem follow_cons_of_not_lt {t : α} {e : Event α} (h : ¬ t < e.time) (a : Anchor α)
    (rest : List (Event α)) : follow t a (e :: rest) = follow t (a.pass e) rest :=
  if_neg h

/-- Events that have happened are passed, one after the other. -/
theorem follow_append {t : α} {events : List (Event α)} (h : ∀ e ∈ events, ¬ t < e.time)
    (a : Anchor α) (rest : List (Event α)) :
    follow t a (events ++ rest) = follow t (events.foldl pass a) rest := by
  induction events generalizing a with
  | nil => rfl
  | cons e events ih =>
      rw [List.cons_append, follow_cons_of_not_lt (h e List.mem_cons_self), List.foldl_cons]
      exact ih (fun e' mem => h e' (List.mem_cons_of_mem e mem)) (a.pass e)

/-- On the way to a jump the value is what it would be without it. -/
theorem follow_append_jump {t : α} (events rest : List (Event α)) (a : Anchor α) {time v : α}
    (h : t < time) : follow t a (events ++ ⟨time, .jump v⟩ :: rest) = follow t a events := by
  induction events generalizing a with
  | nil => exact if_pos h
  | cons e events ih =>
      simp only [List.cons_append, follow]
      split
      · rfl
      · exact ih (a.pass e)

end Follow

/-- On the way along a straight line from where nothing is approached. -/
theorem follow_linear {time t span : ℝ} (begun : time ≤ t) (ahead : t < time + span)
    (value endValue : ℝ) (rest : List (Event ℝ)) :
    follow t ⟨time, value, none⟩ (⟨time + span, .linear endValue⟩ :: rest) =
      value + (endValue - value) * ((t - time) / span) := by
  have positive : ¬ span ≤ 0 := by linarith
  have part : 0 ≤ (t - time) / span := div_nonneg (by linarith) (by linarith)
  rw [follow_cons_of_lt ahead]
  simp only [towards, linear, progress, held, add_sub_cancel_left, if_neg positive,
    Scalar.nonneg_of_le part]

/-- On the way along an exponential curve from where nothing is approached. -/
theorem follow_exponential {time t span : ℝ} (begun : time ≤ t) (ahead : t < time + span)
    {value endValue : ℝ} (alike : 0 < value * endValue) (rest : List (Event ℝ)) :
    follow t ⟨time, value, none⟩ (⟨time + span, .exponential endValue⟩ :: rest) =
      value * (endValue / value) ^ ((t - time) / span) := by
  have positive : ¬ span ≤ 0 := by linarith
  have part : 0 ≤ (t - time) / span := div_nonneg (by linarith) (by linarith)
  rw [follow_cons_of_lt ahead]
  simp only [towards, exponential, progress, held, add_sub_cancel_left, if_neg positive,
    if_neg alike.not_ge, Scalar.nonneg_of_le part]
  rfl

/-- On an approach the distance from the target falls off exponentially. -/
theorem held_approach {time t constant : ℝ} (begun : time ≤ t) (lasts : 0 < constant)
    (value target : ℝ) : held ⟨time, value, some (target, constant)⟩ t =
      target + (value - target) * Real.exp (-(t - time) / constant) := by
  simp only [held]
  rcases begun.eq_or_lt with rfl | later
  · rw [if_neg fun h => lt_irrefl time h.2, if_neg (lt_irrefl time), sub_self, neg_zero, zero_div,
      Real.exp_zero, mul_one, add_sub_cancel]
  · rw [if_pos ⟨lasts, later⟩]
    rfl

end Anchor

/-! ## Scheduling in order -/

namespace Timeline

section Schedule

variable {α : Type} [Scalar α] {line : Timeline α}

/-- An event that is not earlier than the others goes last. -/
theorem events_schedule_of_le {time : α} (h : ∀ e ∈ line.events, e.time ≤ time) (ramp : Ramp α) :
    (line.schedule time ramp).events = line.events ++ [⟨time, ramp⟩] := by
  have last := @Queue.insert_of_split (Event α) (fun e => e.time ≤ time) line.events []
    ⟨time, ramp⟩ (fun e mem => decide_eq_true (h e mem)) (by simp)
  rwa [List.append_nil] at last

end Schedule

/-- No event is later than a time. -/
def EndsBy (line : Timeline ℝ) (last : ℝ) : Prop :=
  ∀ e ∈ line.events, e.time ≤ last

namespace EndsBy

variable {line : Timeline ℝ} {last time : ℝ} (h : line.EndsBy last) (later : last ≤ time)
  (ramp : Ramp ℝ)

include h later

/-- From then on every event has happened. -/
theorem not_lt : ∀ e ∈ line.events, ¬ time < e.time :=
  fun e mem => ((h e mem).trans later).not_gt

theorem events_schedule :
    (line.schedule time ramp).events = line.events ++ [⟨time, ramp⟩] :=
  events_schedule_of_le (fun e mem => (h e mem).trans later) ramp

theorem schedule : (line.schedule time ramp).EndsBy time := by
  intro e mem
  rcases mem_schedule.1 mem with rfl | mem
  · exact le_refl time
  · exact (h e mem).trans later

end EndsBy

variable (line : Timeline ℝ) (time : ℝ)

theorem endsBy_cancel : (line.cancel time).EndsBy time :=
  fun _ mem => (mem_cancel.1 mem).2.le

/-- Holding a value keeps the events before, and jumps to the value that would have been reached. -/
theorem events_holdAt : (line.holdAt time).events =
    (line.cancel time).events ++ [⟨time, .jump (line.valueAt time)⟩] :=
  (line.endsBy_cancel time).events_schedule le_rfl _

theorem endsBy_holdAt : (line.holdAt time).EndsBy time :=
  (line.endsBy_cancel time).schedule le_rfl _

/-- Starting over keeps the events before, and jumps to silence. -/
theorem events_restart : (line.restart time).events =
    (line.cancel time).events ++ [⟨time, .jump 0⟩] :=
  (line.endsBy_cancel time).events_schedule le_rfl _

theorem endsBy_restart : (line.restart time).EndsBy time :=
  (line.endsBy_cancel time).schedule le_rfl _

/-- From a held value on, a property follows what is scheduled after that, whatever was before. -/
theorem valueAt_schedule_holdAt {next t : ℝ} (ramp : Ramp ℝ) (later : time ≤ next)
    (h : time ≤ t) : ((line.holdAt time).schedule next ramp).valueAt t =
      Anchor.follow t ⟨time, line.valueAt time, none⟩ [⟨next, ramp⟩] := by
  have passed : ∀ e ∈ (line.holdAt time).events, ¬ t < e.time :=
    (line.endsBy_holdAt time).not_lt h
  rw [valueAt, (line.endsBy_holdAt time).events_schedule later, Anchor.follow_append passed,
    events_holdAt, List.foldl_append]
  rfl

end Timeline
end SynthPatch
