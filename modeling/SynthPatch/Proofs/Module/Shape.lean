import SynthPatch.Proofs.Module.Course
/-!
# The shape of a note

Without a duration the four-stage envelope schedules its contour and rests there.  With a duration
it schedules one of three rows of ramps.  They are one shape: the contour up to the end of the note,
and a straight line from there to silence, whatever the property was to do before the note.

Dividing by zero plays no part in this.  To say so, the quotients of zero are left open.

Main results:

- Theorem {lit}`Stages.valueAt_apply_none`: a note without a duration takes its contour.
- Theorem {lit}`Stages.valueAt_apply_some`: a note with a duration takes its course.
- Definition {lit}`Scalar.dividing`: real numbers where dividing by zero may give anything.
- Theorems {lit}`Stages.apply_dividing`, {lit}`Timeline.valueAt_dividing`: it plays no part.
- Theorem {lit}`Stages.apply_shape`: the durations put together.
-/

namespace SynthPatch

/-! ## Notes on any timeline -/

namespace Stages

section Course

variable {s : Stages ℝ} {when duration t : ℝ}
  (attack : 0 ≤ s.attack) (decay : 0 < s.decay) (release : 0 < s.release)

include attack decay

/-- A note without a duration is scheduled like one that is over after its decay, except for its
end. -/
theorem events_apply_none (rested : s.attack + s.decay < duration) (line : Timeline ℝ) :
    (s.apply when none line).events = (line.cancel when).events ++ s.opening when duration := by
  have started := line.endsBy_restart when
  have rise : when ≤ when + s.attack := by linarith
  have fall : when + s.attack ≤ when + s.attack + s.decay := by linarith
  have long : ¬ duration ≤ s.attack := by linarith
  simp only [apply, attackTime, decayTime, Scalar.nonneg_of_le attack,
    Scalar.nonneg_of_le decay.le, opening, if_neg long, if_neg rested.not_ge]
  rw [(started.schedule rise _).events_schedule fall, started.events_schedule rise,
    line.events_restart]
  simp only [List.append_assoc, List.cons_append, List.nil_append]

/-- A note without a duration takes its contour, and rests there. -/
theorem valueAt_apply_none (line : Timeline ℝ) (begun : when ≤ t) :
    (s.apply when none line).valueAt t = s.contour (t - when) := by
  have rested : s.attack + s.decay < s.attack + s.decay + 1 := by linarith
  rw [Timeline.valueAt, events_apply_none attack decay rested,
    Anchor.follow_append ((line.endsBy_cancel when).not_lt begun), follow_opening attack begun,
    kept_eq_contour decay (.inl rested)]

/-- On the way to its end a note takes its contour. -/
theorem follow_contour (begun : when ≤ t) (sounding : t - when < duration) (a : Anchor ℝ)
    (rest : List (Event ℝ)) :
    Anchor.follow t a (s.opening when duration ++
      ⟨when + duration, .linear (s.contour duration)⟩ :: rest) = s.contour (t - when) := by
  have lasts : 0 < duration := by linarith
  have ahead : t < when + duration := by linarith
  unfold opening
  by_cases short : duration ≤ s.attack
  · -- The one ramp of a short note is the beginning of the attack.
    have rising : t - when < s.attack := by linarith
    have positive : 0 < s.attack := by linarith
    rw [if_pos short, List.singleton_append, Anchor.follow_cons_of_not_lt (not_lt.2 begun),
      Anchor.pass, Anchor.follow_linear begun ahead, contour_of_le_attack decay lasts.le short,
      if_pos positive, contour, if_pos rising]
    field_simp
    ring
  rw [if_neg short, List.cons_append, List.cons_append]
  by_cases rising : t - when < s.attack
  · exact follow_attack begun a _ rising
  rw [follow_peak attack a _ rising]
  have peaked : when + s.attack ≤ t := by linarith
  have long : 0 < duration - s.attack := by linarith
  by_cases medium : duration ≤ s.attack + s.decay
  · -- The ramp from the peak to an end within the decay is the beginning of the decay.
    have falling : t - when < s.attack + s.decay := by linarith
    have span : when + duration = when + s.attack + (duration - s.attack) := by ring
    rw [if_pos medium, List.nil_append, span, Anchor.follow_linear peaked (span ▸ ahead),
      contour_of_le_decay decay short medium, contour, if_neg rising, if_pos falling]
    field_simp
    ring
  rw [if_neg medium, List.singleton_append, contour_of_decay_lt decay (not_le.1 medium), contour,
    if_neg rising]
  by_cases falling : t - when < s.attack + s.decay
  · rw [if_pos falling, Anchor.follow_linear peaked (by linarith)]
    ring
  · -- The ramp to a later end has no way to go.
    have span : when + duration =
        when + s.attack + s.decay + (duration - (s.attack + s.decay)) := by ring
    rw [if_neg falling, Anchor.follow_cons_of_not_lt (by simp only; linarith), Anchor.pass, span,
      Anchor.follow_linear (by linarith) (span ▸ ahead), sub_self, zero_mul, add_zero]

include release

/-- A note with a duration takes the course of such a note. -/
theorem valueAt_apply_some (lasts : 0 ≤ duration) (line : Timeline ℝ) (begun : when ≤ t) :
    (s.apply when (some duration) line).valueAt t = s.course duration (t - when) := by
  unfold course
  split
  · next sounding =>
      rw [Timeline.valueAt, events_apply attack decay release lasts,
        Anchor.follow_append ((line.endsBy_cancel when).not_lt begun),
        follow_contour attack decay begun sounding]
  · next ended =>
      exact valueAt_apply_of_le attack decay release lasts line (by linarith)

end Course
end Stages

/-! ## Division by zero -/

/-- The real numbers, where dividing by zero may give anything. -/
@[reducible]
noncomputable def Scalar.dividing (quotient : ℝ → ℝ) : Scalar ℝ :=
  { (inferInstance : Scalar ℝ) with
    div := fun a b => if b = 0 then quotient a else a / b }

section Dividing

variable (quotient : ℝ → ℝ)

theorem Scalar.div_dividing (a : ℝ) {b : ℝ} (nonzero : b ≠ 0) :
    (dividing quotient).div a b = a / b :=
  if_neg nonzero

namespace Anchor

variable (a : Anchor ℝ) (t : ℝ)

theorem held_dividing : @held ℝ (Scalar.dividing quotient) a t = a.held t := by
  unfold held
  split
  · next target constant _ =>
      split
      · next part =>
          have quotients := Scalar.div_dividing quotient (-(t - a.time)) part.1.ne'
          exact congrArg (fun x => target + (a.value - target) * Real.exp x) quotients
      · rfl
  · rfl

theorem progress_dividing {span : ℝ} (nonzero : span ≠ 0) :
    @progress ℝ (Scalar.dividing quotient) a t span = a.progress t span :=
  congrArg (fun x : ℝ => if 0 < x then x else 0)
    (Scalar.div_dividing quotient (t - a.time) nonzero)

theorem linear_dividing (endTime endValue : ℝ) :
    @linear ℝ (Scalar.dividing quotient) a t endTime endValue = a.linear t endTime endValue := by
  unfold linear
  simp only
  split
  · rfl
  · next lasts => rw [held_dividing, progress_dividing _ _ _ (not_le.1 lasts).ne']

theorem exponential_dividing (endTime endValue : ℝ) :
    @exponential ℝ (Scalar.dividing quotient) a t endTime endValue =
      a.exponential t endTime endValue := by
  unfold exponential
  simp only
  split
  · rfl
  · next lasts =>
      rw [held_dividing, held_dividing, progress_dividing _ _ _ (not_le.1 lasts).ne']
      split
      · rfl
      · next curved =>
          have start : a.held a.time ≠ 0 := left_ne_zero_of_mul (not_le.1 curved).ne'
          have quotients := Scalar.div_dividing quotient endValue start
          exact congrArg (fun x => a.held a.time * x ^ a.progress t (endTime - a.time)) quotients

theorem pass_dividing (e : Event ℝ) : @pass ℝ (Scalar.dividing quotient) a e = a.pass e := by
  cases e with
  | mk time ramp =>
      cases ramp with
      | approach target constant =>
          exact congrArg (Anchor.mk time · (some (target, constant)))
            (held_dividing quotient a time)
      | jump v | linear v | exponential v => rfl

theorem towards_dividing (e : Event ℝ) :
    @towards ℝ (Scalar.dividing quotient) a t e = a.towards t e := by
  cases e with
  | mk time ramp =>
      cases ramp with
      | linear v => exact linear_dividing quotient a t time v
      | exponential v => exact exponential_dividing quotient a t time v
      | jump v | approach target constant => exact held_dividing quotient a t

theorem follow_dividing (events : List (Event ℝ)) :
    @follow ℝ (Scalar.dividing quotient) t a events = follow t a events := by
  induction events generalizing a with
  | nil => exact held_dividing quotient a t
  | cons e rest ih =>
      unfold follow
      rw [towards_dividing, pass_dividing, ih]

end Anchor

/-- The value of a timeline does not depend on what dividing by zero gives. -/
theorem Timeline.valueAt_dividing (line : Timeline ℝ) (t : ℝ) :
    @valueAt ℝ (Scalar.dividing quotient) line t = line.valueAt t :=
  Anchor.follow_dividing quotient _ t line.events

/-- What is scheduled for a note does not depend on what dividing by zero gives. -/
theorem Stages.apply_dividing (s : Stages ℝ) (when : ℝ) (duration : Option ℝ)
    (line : Timeline ℝ) :
    @apply ℝ (Scalar.dividing quotient) s when duration line = s.apply when duration line := by
  cases duration with
  | none => rfl
  | some duration =>
      refine if_ctx_congr Iff.rfl (fun _ => ?_) fun long =>
        if_ctx_congr Iff.rfl (fun medium => ?_) fun _ => rfl
      · have peaks : (if 0 < s.attackTime then
            (Scalar.dividing quotient).div (s.level * duration) s.attackTime else s.level) =
              if 0 < s.attackTime then s.level * duration / s.attackTime else s.level :=
          if_ctx_congr Iff.rfl (fun rises => Scalar.div_dividing quotient _ rises.ne') fun _ => rfl
        exact congrArg (fun peak => ((line.restart when).schedule (when + duration)
          (.linear peak)).schedule (when + duration + s.releaseTime) (.linear 0)) peaks
      · -- The decay takes some time, or the note would be over after its attack.
        have falls : s.decayTime ≠ 0 := fun none => long (by rwa [none, add_zero] at medium)
        have quotients := Scalar.div_dividing quotient (duration - s.attackTime) falls
        exact congrArg (fun through => (((line.restart when).schedule (when + s.attackTime)
          (.linear s.level)).schedule (when + duration)
            (.linear (s.level - (s.level - s.sustainLevel) * through))).schedule
              (when + duration + s.releaseTime) (.linear 0)) quotients

end Dividing

/-! ## One shape -/

/-- A note without a duration takes its contour.  With a duration it takes the same values up to its
end, falls from there to silence along a straight line and stays silent, whatever was scheduled
before.  What dividing by zero gives plays no part. -/
theorem Stages.apply_shape {s : Stages ℝ} (attack : 0 ≤ s.attack) (decay : 0 < s.decay)
    (release : 0 < s.release) (line : Timeline ℝ) (when : ℝ) :
    (∀ t, when ≤ t → (s.apply when none line).valueAt t = s.contour (t - when)) ∧
      (∀ duration, 0 ≤ duration → ∀ t,
        (when ≤ t → t ≤ when + duration →
          (s.apply when (some duration) line).valueAt t = (s.apply when none line).valueAt t) ∧
        (when + duration ≤ t → t ≤ when + duration + s.release →
          (s.apply when (some duration) line).valueAt t =
            (s.apply when none line).valueAt (when + duration) *
              (1 - (t - when - duration) / s.release)) ∧
        (when + duration + s.release ≤ t →
          (s.apply when (some duration) line).valueAt t = 0)) ∧
      ∀ quotient duration t,
        @Timeline.valueAt ℝ (Scalar.dividing quotient)
            (@apply ℝ (Scalar.dividing quotient) s when duration line) t =
          (s.apply when duration line).valueAt t := by
  have free (t : ℝ) (begun : when ≤ t) := valueAt_apply_none attack decay line begun
  refine ⟨free, fun duration lasts t => ⟨?_, ?_, ?_⟩, ?_⟩
  · intro begun sounding
    rw [free t begun]
    rcases sounding.eq_or_lt with rfl | before
    · rw [valueAt_apply attack decay release lasts, add_sub_cancel_left]
    · rw [valueAt_apply_some attack decay release lasts line begun, course, if_pos (by linarith)]
  · intro ended fading
    rw [free _ (by linarith), add_sub_cancel_left,
      valueAt_apply_of_le attack decay release lasts line ended, ending]
    split
    · rfl
    · next silent =>
        have whole : t - when - duration = s.release := by linarith
        rw [whole, div_self release.ne', sub_self, mul_zero]
  · intro silent
    rw [valueAt_apply_of_le attack decay release lasts line (by linarith), ending,
      if_neg (by linarith)]
  · intro quotient duration t
    rw [Timeline.valueAt_dividing, apply_dividing]

/-- An envelope that takes two seconds to fall silent, and one each to rise and to decay. -/
noncomputable def slowStages : Stages ℝ :=
  ⟨1, 1, 0.5, 2.0, 1⟩

/-- A property on its way up when the note begins, at three seconds. -/
noncomputable def risingLine : Timeline ℝ :=
  ⟨0.25, [⟨2.0, .jump 0.5⟩, ⟨5.0, .linear 4.0⟩]⟩

/-- The note is over halfway through its decay. -/
theorem Stages.apply_shape_slow :
    0 ≤ slowStages.attack ∧ 0 < slowStages.decay ∧ 0 < slowStages.release ∧
      (slowStages.apply 3 none risingLine).valueAt 3.5 = 0.5 ∧
      (slowStages.apply 3 (some 1.5) risingLine).valueAt 3.5 = 0.5 ∧
      (slowStages.apply 3 (some 1.5) risingLine).valueAt 5.5 = 0.375 ∧
      (slowStages.apply 3 (some 1.5) risingLine).valueAt 7 = 0 := by
  have attack : 0 ≤ slowStages.attack := by norm_num [slowStages]
  have decay : 0 < slowStages.decay := by norm_num [slowStages]
  have release : 0 < slowStages.release := by norm_num [slowStages]
  obtain ⟨free, lasting, -⟩ := Stages.apply_shape attack decay release risingLine 3
  have sounding := (lasting 1.5 (by norm_num) 3.5).1 (by norm_num) (by norm_num)
  have fading := (lasting 1.5 (by norm_num) 5.5).2.1 (by norm_num) (by norm_num [slowStages])
  have silent := (lasting 1.5 (by norm_num) 7).2.2 (by norm_num [slowStages])
  rw [free _ (by norm_num)] at sounding fading
  refine ⟨attack, decay, release, (free _ (by norm_num)).trans ?_, sounding.trans ?_,
    fading.trans ?_, silent⟩ <;>
      norm_num [contour, slowStages, sustainLevel]

end SynthPatch
