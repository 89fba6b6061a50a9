import SynthPatch.Proofs.Module.Exact
import SynthPatch.Module.Envelope
/-!
# The course of a decaying envelope

A decaying envelope rises to its level along a straight line and then falls for ever; it counts as
silent once it has come down to its floor.  When it is let go of it tells how long that is going to
take.  It reckons from the level it has reached as if it were falling already, so that the tail it
tells on its way up is too short.

Main results:

- Definition {lit}`Fall.course`: the level of a decaying envelope.
- Theorem {lit}`Fall.Proper.valueAt_apply`: a property that it is applied to follows its course.
- Theorem {lit}`Fall.Proper.silent_after_tail_iff`: when the tail it tells is long enough.
-/

namespace SynthPatch
namespace Fall

variable {α : Type} [Scalar α]

/-! ## What is heard -/

/-- The rate of a fall that takes some time. -/
def rate (f : Fall α) : α :=
  Scalar.log (1 / f.floor) / f.decay

/-- The level of the envelope, so long after it was struck. -/
def course (f : Fall α) (elapsed : α) : α :=
  if elapsed < f.attack then f.level * elapsed / f.attack
  else f.level * Scalar.exp (-((elapsed - f.attack) * f.rate))

/-- The settings of an envelope that rises above silence and falls in some time. -/
structure Proper (f : Fall ℝ) : Prop where
  attack : 0 ≤ f.attack
  decay : 0 < f.decay
  level : 0 < f.level
  floor : 0 < f.floor
  below : f.floor < 1

namespace Proper

variable {f : Fall ℝ} (h : f.Proper)

include h

theorem rate_pos : 0 < f.rate :=
  div_pos (Real.log_pos (one_lt_one_div h.floor h.below)) h.decay

theorem rate?_eq : f.rate? = some f.rate :=
  if_neg (not_le.2 h.decay)

theorem timeConstant_eq : f.timeConstant = 1 / f.rate := by
  rw [timeConstant, h.rate?_eq]

/-- An envelope that is down at its floor has no tail. -/
theorem tailFrom_of_le {current : ℝ} (low : current ≤ f.floor) : f.tailFrom current = 0 := by
  rw [tailFrom, h.rate?_eq]
  exact if_pos (.inl low)

/-- The tail of a level above the floor is the time that the fall takes from there. -/
theorem tailFrom_mul_rate {current : ℝ} (high : f.floor < current) :
    f.tailFrom current * f.rate = Real.log (current / f.floor) := by
  have falling : ¬ (current ≤ f.floor ∨ (!Scalar.isFinite f.rate) = true) := by
    rintro (low | infinite)
    · exact absurd low (not_le.2 high)
    · cases infinite
  have tail : f.tailFrom current = -Real.log (f.floor / current) / f.rate := by
    rw [tailFrom, h.rate?_eq]
    exact if_neg falling
  rw [tail, div_mul_cancel₀ _ h.rate_pos.ne', ← Real.log_inv, inv_div]

theorem tailFrom_nonneg (current : ℝ) : 0 ≤ f.tailFrom current := by
  rcases le_or_gt current f.floor with low | high
  · rw [h.tailFrom_of_le low]
  · have above : 0 < Real.log (current / f.floor) :=
      Real.log_pos ((one_lt_div h.floor).2 high)
    rw [← h.tailFrom_mul_rate high] at above
    exact (pos_of_mul_pos_left above h.rate_pos.le).le

/-! ## The course -/

/-- The envelope is never above its level. -/
theorem course_le_level {elapsed : ℝ} (struck : 0 ≤ elapsed) : f.course elapsed ≤ f.level := by
  unfold course
  split
  · next rising =>
      have positive : 0 < f.attack := lt_of_le_of_lt struck rising
      rw [div_le_iff₀ positive]
      exact mul_le_mul_of_nonneg_left rising.le h.level.le
  · next risen =>
      have fallen : 0 ≤ (elapsed - f.attack) * f.rate :=
        mul_nonneg (sub_nonneg.2 (not_lt.1 risen)) h.rate_pos.le
      exact mul_le_of_le_one_right h.level.le (Real.exp_le_one_iff.2 (neg_nonpos.2 fallen))

/-- An envelope that is falling is above its floor until it has fallen for long enough. -/
theorem floor_lt_course_iff {elapsed : ℝ} (risen : f.attack ≤ elapsed) :
    f.floor < f.course elapsed ↔
      (elapsed - f.attack) * f.rate < Real.log (f.level / f.floor) := by
  have falling : f.course elapsed = f.level * Real.exp (-((elapsed - f.attack) * f.rate)) :=
    if_neg (not_lt.2 risen)
  rw [Real.lt_log_iff_exp_lt (div_pos h.level h.floor), lt_div_iff₀ h.floor, falling,
    Real.exp_neg, ← div_eq_mul_inv, lt_div_iff₀ (Real.exp_pos _), mul_comm]

/-- The course of an envelope that falls from a level is that of its tail. -/
theorem log_course_div_floor {elapsed : ℝ} (risen : f.attack ≤ elapsed) :
    Real.log (f.course elapsed / f.floor) =
      Real.log (f.level / f.floor) - (elapsed - f.attack) * f.rate := by
  have falling : f.course elapsed = f.level * Real.exp (-((elapsed - f.attack) * f.rate)) :=
    if_neg (not_lt.2 risen)
  rw [falling, mul_div_right_comm, Real.log_mul (div_pos h.level h.floor).ne' (Real.exp_ne_zero _),
    Real.log_exp, ← sub_eq_add_neg]

/-! ## The tail -/

variable {elapsed : ℝ}

/-- An envelope that is let go of while it falls is silent once its tail is over. -/
theorem silent_of_falling (risen : f.attack ≤ elapsed) {later : ℝ}
    (past : elapsed + f.tailFrom (f.course elapsed) ≤ later) : f.course later ≤ f.floor := by
  have tail := h.tailFrom_nonneg (f.course elapsed)
  rw [← not_lt, h.floor_lt_course_iff (by linarith), not_lt]
  have fallen : (elapsed + f.tailFrom (f.course elapsed) - f.attack) * f.rate ≤
      (later - f.attack) * f.rate :=
    mul_le_mul_of_nonneg_right (by linarith) h.rate_pos.le
  rcases le_or_gt (f.course elapsed) f.floor with low | high
  · rw [← not_lt, h.floor_lt_course_iff risen, not_lt] at low
    have grown : (elapsed - f.attack) * f.rate ≤ (later - f.attack) * f.rate :=
      mul_le_mul_of_nonneg_right (by linarith) h.rate_pos.le
    exact low.trans grown
  · calc Real.log (f.level / f.floor)
        = (elapsed - f.attack) * f.rate + f.tailFrom (f.course elapsed) * f.rate := by
          rw [h.tailFrom_mul_rate high, h.log_course_div_floor risen]
          ring
      _ = (elapsed + f.tailFrom (f.course elapsed) - f.attack) * f.rate := by ring
      _ ≤ (later - f.attack) * f.rate := fallen

/-- An envelope that is let go of while it rises is above its floor for some time after its tail, if
it rises above the floor at all. -/
theorem exists_loud_of_rising (struck : 0 ≤ elapsed) (rising : elapsed < f.attack)
    (loud : f.floor < f.level) :
    ∃ later, elapsed + f.tailFrom (f.course elapsed) ≤ later ∧ f.floor < f.course later := by
  have tail := h.tailFrom_nonneg (f.course elapsed)
  have peak : 0 < Real.log (f.level / f.floor) := Real.log_pos ((one_lt_div h.floor).2 loud)
  have early : (elapsed - f.attack) * f.rate < 0 :=
    mul_neg_of_neg_of_pos (sub_neg.2 rising) h.rate_pos
  refine ⟨max (elapsed + f.tailFrom (f.course elapsed)) f.attack, le_max_left _ _, ?_⟩
  rw [h.floor_lt_course_iff (le_max_right _ _)]
  rcases max_choice (elapsed + f.tailFrom (f.course elapsed)) f.attack with last | last
  · have fallen : (elapsed + f.tailFrom (f.course elapsed) - f.attack) * f.rate =
        (elapsed - f.attack) * f.rate + f.tailFrom (f.course elapsed) * f.rate := by ring
    rw [last, fallen]
    rcases le_or_gt (f.course elapsed) f.floor with low | high
    · rw [h.tailFrom_of_le low]
      linarith
    · have reached : f.course elapsed / f.floor ≤ f.level / f.floor :=
        div_le_div_of_nonneg_right (h.course_le_level struck) h.floor.le
      have longest := Real.log_le_log (div_pos (h.floor.trans high) h.floor) reached
      rw [h.tailFrom_mul_rate high]
      linarith
  · rw [last, sub_self, zero_mul]
    exact peak

/-- The tail that an envelope tells is long enough exactly if it is let go of after its attack, or
never rises above its floor. -/
theorem silent_after_tail_iff (struck : 0 ≤ elapsed) :
    (∀ later, elapsed + f.tailFrom (f.course elapsed) ≤ later → f.course later ≤ f.floor) ↔
      f.level ≤ f.floor ∨ f.attack ≤ elapsed := by
  constructor
  · intro silent
    by_contra both
    obtain ⟨loud, rising⟩ := not_or.1 both
    obtain ⟨later, past, high⟩ :=
      h.exists_loud_of_rising struck (not_le.1 rising) (not_le.1 loud)
    exact absurd (silent later past) (not_le.2 high)
  · rintro (quiet | risen) later past
    · have tail := h.tailFrom_nonneg (f.course elapsed)
      exact (h.course_le_level (by linarith)).trans quiet
    · exact h.silent_of_falling risen past

/-! ## What is scheduled -/

variable {when t : ℝ} (line : Timeline ℝ)

omit h in
/-- A note takes back what was scheduled from its start on. -/
theorem events_apply (attack : 0 ≤ f.attack) : (f.apply when line).events =
    (line.cancel when).events ++ [⟨when, .jump 0⟩, ⟨when + f.attack, .linear f.level⟩,
      ⟨when + f.attack, .approach 0 f.timeConstant⟩] := by
  have peak : when ≤ when + f.attack := by linarith
  have started := line.endsBy_restart when
  have risen := started.schedule peak (.linear f.level)
  rw [apply, Scalar.nonneg_of_le attack, risen.events_schedule le_rfl,
    started.events_schedule peak, line.events_restart]
  simp only [List.append_assoc, List.cons_append, List.nil_append]

/-- From its start on a property follows the course of the envelope, whatever was scheduled for
it. -/
theorem valueAt_apply (begun : when ≤ t) :
    (f.apply when line).valueAt t = f.course (t - when) := by
  have passed : ∀ e ∈ (line.cancel when).events ++ [⟨when, .jump 0⟩], ¬ t < e.time :=
    List.forall_mem_append.2
      ⟨(line.endsBy_cancel when).not_lt begun, List.forall_mem_singleton.2 begun.not_gt⟩
  have reached : (f.apply when line).valueAt t = Anchor.follow t ⟨when, 0, none⟩
      [⟨when + f.attack, .linear f.level⟩, ⟨when + f.attack, .approach 0 f.timeConstant⟩] := by
    rw [Timeline.valueAt, events_apply line h.attack, List.append_cons,
      Anchor.follow_append passed, List.foldl_append]
    rfl
  rw [reached, course]
  split
  · next rising =>
      rw [Anchor.follow_linear begun (by linarith)]
      ring
  · next risen =>
      have peaked : ¬ t < when + f.attack := by linarith
      have falls : 0 < f.timeConstant := by
        rw [h.timeConstant_eq]
        exact one_div_pos.2 h.rate_pos
      have falling : Anchor.follow t ⟨when, 0, none⟩ [⟨when + f.attack, .linear f.level⟩,
          ⟨when + f.attack, .approach 0 f.timeConstant⟩] =
            Anchor.held ⟨when + f.attack, f.level, some (0, f.timeConstant)⟩ t := by
        rw [Anchor.follow_cons_of_not_lt peaked, Anchor.follow_cons_of_not_lt peaked]
        rfl
      have exponent : -(t - (when + f.attack)) / f.timeConstant =
          -((t - when - f.attack) * f.rate) := by
        rw [h.timeConstant_eq, div_div_eq_mul_div, div_one, sub_sub]
        ring
      rw [falling, Anchor.held_approach (not_lt.1 peaked) falls, exponent, sub_zero, zero_add]
      rfl

end Proper
end Fall
end SynthPatch
