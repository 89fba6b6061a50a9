import SynthPatch.Proofs.Module.Exact
import SynthPatch.Module.Envelope
/-!
# The course of a note

A four-stage envelope should take a property from silence to its level and on to its sustain, and
from the end of the note back to silence.  A note whose duration is known is scheduled as a whole
and then released at its end.  The release takes back whatever is scheduled from its own time on,
and with it the ramp that would have led there: the course before the end of the note is kept only
as far as the ramps that were complete by then.

Main results:

- Definition {lit}`Stages.course`: how a note of a given duration should sound.
- Theorem {lit}`Stages.valueAt_note`: how it does sound.
- Theorem {lit}`Stages.valueAt_note_eq_course_iff`: for which notes the two are the same.
-/

namespace SynthPatch
namespace Stages

variable {α : Type} [Scalar α]

/-! ## What should be heard -/

/-- The level of a note that is held, so long after it was struck. -/
def contour (s : Stages α) (elapsed : α) : α :=
  if elapsed < s.attack then s.level * elapsed / s.attack
  else if elapsed < s.attack + s.decay then
    s.level + (s.sustainLevel - s.level) * (elapsed - s.attack) / s.decay
  else s.sustainLevel

/-- The level of a note that has ended: it falls from where it was. -/
def ending (s : Stages α) (duration elapsed : α) : α :=
  if elapsed < duration + s.release then
    s.contour duration * (1 - (elapsed - duration) / s.release)
  else 0

/-- The level of a note of the given duration, so long after it was struck. -/
def course (s : Stages α) (duration elapsed : α) : α :=
  if elapsed < duration then s.contour elapsed else s.ending duration elapsed

/-! ## What is heard -/

/-- What is left of the contour of a note of the given duration: of an attack that is not complete
nothing, and of a decay that is not complete the level it starts from. -/
def kept (s : Stages α) (duration elapsed : α) : α :=
  if duration ≤ s.attack then 0
  else if duration ≤ s.attack + s.decay ∧ s.attack ≤ elapsed then s.level
  else s.contour elapsed

/-- A note of the given duration on a property that nothing is scheduled for. -/
def note (s : Stages α) (when duration value : α) : Timeline α :=
  s.silence (when + duration) (s.apply when (some duration) (.constant value))

/-! ## Releasing -/

section Silence

/-- A release takes no time or some, but not less. -/
theorem releaseTime_nonneg (s : Stages ℝ) : 0 ≤ s.releaseTime :=
  Scalar.le_nonneg s.release

/-- A property that is released holds the value it has reached, and falls to silence from there. -/
theorem events_silence (s : Stages ℝ) (line : Timeline ℝ) (when : ℝ) :
    (s.silence when line).events = (line.cancel when).events ++
      [⟨when, .jump (line.valueAt when)⟩, ⟨when + s.releaseTime, .linear 0⟩] := by
  have later : when ≤ when + s.releaseTime := le_add_of_nonneg_right s.releaseTime_nonneg
  rw [silence, (line.endsBy_holdAt when).events_schedule later, line.events_holdAt,
    List.append_assoc]
  rfl

variable {s : Stages ℝ} (release : 0 < s.release) (line : Timeline ℝ) {when t : ℝ}

/-- Before its release a property takes the course of the events that are kept. -/
theorem valueAt_silence_of_lt (h : t < when) :
    (s.silence when line).valueAt t = (line.cancel when).valueAt t := by
  rw [Timeline.valueAt, events_silence]
  exact Anchor.follow_append_jump _ _ _ h

include release

/-- From its release on a property falls from where it was, whatever was scheduled for it. -/
theorem valueAt_silence_of_le (h : when ≤ t) :
    (s.silence when line).valueAt t =
      if t < when + s.release then line.valueAt when * (1 - (t - when) / s.release) else 0 := by
  have time : s.releaseTime = s.release := Scalar.nonneg_of_pos release
  have reached : (s.silence when line).valueAt t =
      Anchor.follow t ⟨when, line.valueAt when, none⟩ [⟨when + s.release, .linear 0⟩] := by
    rw [silence, time]
    exact line.valueAt_schedule_holdAt when (.linear 0) (by linarith) h
  rw [reached]
  split
  · next falling =>
      rw [Anchor.follow_linear h falling]
      ring
  · next silent => exact if_neg silent

end Silence

/-! ## A note -/

/-- What is scheduled for a note before its end. -/
def opening (s : Stages α) (when duration : α) : List (Event α) :=
  ⟨when, .jump 0⟩ ::
    if duration ≤ s.attack then []
    else ⟨when + s.attack, .linear s.level⟩ ::
      if duration ≤ s.attack + s.decay then []
      else [⟨when + s.attack + s.decay, .linear s.sustainLevel⟩]

section Note

variable {s : Stages ℝ} {when duration : ℝ}

/-- What is scheduled for a note before its end is its beginning, or does come before its end. -/
theorem time_of_mem_opening {e : Event ℝ} (mem : e ∈ s.opening when duration) :
    e.time = when ∨ e.time < when + duration := by
  unfold opening at mem
  rcases List.mem_cons.1 mem with rfl | mem
  · exact .inl rfl
  · refine .inr ?_
    split at mem
    · cases mem
    · rcases List.mem_cons.1 mem with rfl | mem
      · dsimp only
        linarith
      · split at mem
        · cases mem
        · rw [List.mem_singleton.1 mem]
          dsimp only
          linarith

/-- The ramp that a note ends on when it is scheduled arrives at its contour. -/
theorem contour_of_le_attack (decay : 0 < s.decay) (lasts : 0 ≤ duration)
    (short : duration ≤ s.attack) :
    s.contour duration =
      if 0 < s.attack then s.level * duration / s.attack else s.level := by
  unfold contour
  by_cases rising : duration < s.attack
  · have positive : 0 < s.attack := lt_of_le_of_lt lasts rising
    rw [if_pos rising, if_pos positive]
  · have peak : duration = s.attack := le_antisymm short (not_lt.1 rising)
    have falling : duration < s.attack + s.decay := by linarith
    rw [if_neg rising, if_pos falling, peak, sub_self, mul_zero, zero_div, add_zero]
    split
    · next positive => exact (mul_div_cancel_right₀ s.level positive.ne').symm
    · rfl

theorem contour_of_le_decay (decay : 0 < s.decay) (long : ¬ duration ≤ s.attack)
    (medium : duration ≤ s.attack + s.decay) :
    s.contour duration =
      s.level - (s.level - s.sustainLevel) * ((duration - s.attack) / s.decay) := by
  have risen : ¬ duration < s.attack := fun h => long h.le
  unfold contour
  rw [if_neg risen]
  split
  · ring
  · next rested =>
      have rest : duration - s.attack = s.decay := by linarith
      rw [rest, div_self decay.ne']
      ring

theorem contour_of_decay_lt (decay : 0 < s.decay) (rested : s.attack + s.decay < duration) :
    s.contour duration = s.sustainLevel := by
  have risen : ¬ duration < s.attack := by linarith
  rw [contour, if_neg risen, if_neg rested.not_gt]

variable (attack : 0 ≤ s.attack) (decay : 0 < s.decay) (release : 0 < s.release)

section Opening

variable {t : ℝ} (begun : when ≤ t) (a : Anchor ℝ)

include begun

/-- After its first jump a note rises. -/
theorem follow_attack (rest : List (Event ℝ)) (rising : t - when < s.attack) :
    Anchor.follow t a (⟨when, .jump 0⟩ :: ⟨when + s.attack, .linear s.level⟩ :: rest) =
      s.contour (t - when) := by
  have ahead : t < when + s.attack := by linarith
  rw [Anchor.follow_cons_of_not_lt (not_lt.2 begun), Anchor.pass,
    Anchor.follow_linear begun ahead, contour, if_pos rising]
  ring

omit begun in
include attack in
/-- At its peak a note is at its level, and nothing that came before matters. -/
theorem follow_peak (rest : List (Event ℝ))
    (risen : ¬ t - when < s.attack) :
    Anchor.follow t a (⟨when, .jump 0⟩ :: ⟨when + s.attack, .linear s.level⟩ :: rest) =
      Anchor.follow t ⟨when + s.attack, s.level, none⟩ rest := by
  have begun : ¬ t < when := by linarith
  have passed : ¬ t < when + s.attack := by linarith
  rw [Anchor.follow_cons_of_not_lt begun, Anchor.follow_cons_of_not_lt passed]
  rfl

include attack

/-- What is scheduled for a note before its end gives what is kept of its contour. -/
theorem follow_opening :
    Anchor.follow t a (s.opening when duration) = s.kept duration (t - when) := by
  unfold opening kept
  by_cases short : duration ≤ s.attack
  · rw [if_pos short, if_pos short, Anchor.follow_cons_of_not_lt (not_lt.2 begun)]
    rfl
  rw [if_neg short, if_neg short]
  by_cases rising : t - when < s.attack
  · rw [follow_attack begun a _ rising, if_neg fun h => not_le.2 rising h.2]
  rw [follow_peak attack a _ rising]
  have risen : s.attack ≤ t - when := not_lt.1 rising
  by_cases medium : duration ≤ s.attack + s.decay
  · rw [if_pos medium, if_pos ⟨medium, risen⟩]
    rfl
  rw [if_neg medium, if_neg fun h => medium h.1, contour, if_neg rising]
  have peaked : when + s.attack ≤ t := by linarith
  by_cases falling : t - when < s.attack + s.decay
  · have ahead : t < when + s.attack + s.decay := by linarith
    rw [Anchor.follow_linear peaked ahead, if_pos falling, sub_sub]
    ring
  · have passed : ¬ t < when + s.attack + s.decay := by linarith
    rw [Anchor.follow_cons_of_not_lt passed, if_neg falling]
    rfl

end Opening

include attack decay release

/-- A note is scheduled up to its end, and a fall from there. -/
theorem events_apply (lasts : 0 ≤ duration) (line : Timeline ℝ) :
    (s.apply when (some duration) line).events = (line.cancel when).events ++
      (s.opening when duration ++ [⟨when + duration, .linear (s.contour duration)⟩,
        ⟨when + duration + s.release, .linear 0⟩]) := by
  have started := line.endsBy_restart when
  have rise : when ≤ when + s.attack := by linarith
  have fall : when + s.attack ≤ when + s.attack + s.decay := by linarith
  have silence : when + duration ≤ when + duration + s.release := by linarith
  have risen := started.schedule rise (.linear s.level)
  have rested := risen.schedule fall (.linear s.sustainLevel)
  simp only [apply, attackTime, decayTime, releaseTime, Scalar.nonneg_of_le attack,
    Scalar.nonneg_of_le decay.le, Scalar.nonneg_of_le release.le, opening]
  by_cases short : duration ≤ s.attack
  · have last : when ≤ when + duration := by linarith
    rw [if_pos short, if_pos short, contour_of_le_attack decay lasts short,
      (started.schedule last _).events_schedule silence, started.events_schedule last,
      line.events_restart]
    simp only [List.append_assoc, List.cons_append, List.nil_append]
  rw [if_neg short, if_neg short]
  by_cases medium : duration ≤ s.attack + s.decay
  · have last : when + s.attack ≤ when + duration := by linarith
    rw [if_pos medium, if_pos medium, contour_of_le_decay decay short medium,
      (risen.schedule last _).events_schedule silence, risen.events_schedule last,
      started.events_schedule rise, line.events_restart]
    simp only [List.append_assoc, List.cons_append, List.nil_append]
  · have last : when + s.attack + s.decay ≤ when + duration := by linarith
    rw [if_neg medium, if_neg medium, contour_of_decay_lt decay (not_le.1 medium),
      (rested.schedule last _).events_schedule silence, rested.events_schedule last,
      risen.events_schedule fall, started.events_schedule rise, line.events_restart]
    simp only [List.append_assoc, List.cons_append, List.nil_append]

/-- From its end on a note falls from its contour, whatever was scheduled before it. -/
theorem valueAt_apply_of_le (lasts : 0 ≤ duration) (line : Timeline ℝ) {t : ℝ}
    (ended : when + duration ≤ t) :
    (s.apply when (some duration) line).valueAt t = s.ending duration (t - when) := by
  have passed : ∀ e ∈ (line.cancel when).events ++ (s.opening when duration ++
      [⟨when + duration, .linear (s.contour duration)⟩]), ¬ t < e.time := by
    simp only [List.forall_mem_append, List.forall_mem_singleton]
    refine ⟨(line.endsBy_cancel when).not_lt (by linarith), fun e mem => ?_, not_lt.2 ended⟩
    rcases time_of_mem_opening mem with first | before <;> linarith
  have reached : (s.apply when (some duration) line).valueAt t =
      Anchor.follow t ⟨when + duration, s.contour duration, none⟩
        [⟨when + duration + s.release, .linear 0⟩] := by
    rw [Timeline.valueAt, events_apply attack decay release lasts, List.append_cons,
      ← List.append_assoc, Anchor.follow_append passed, ← List.append_assoc, List.foldl_append]
    rfl
  rw [reached, ending]
  by_cases falling : t < when + duration + s.release
  · rw [Anchor.follow_linear ended falling, if_pos (by linarith), sub_sub]
    ring
  · rw [if_neg (by linarith)]
    exact if_neg falling

/-- At its end a note has arrived at its contour. -/
theorem valueAt_apply (lasts : 0 ≤ duration) (line : Timeline ℝ) :
    (s.apply when (some duration) line).valueAt (when + duration) = s.contour duration := by
  have falling : duration < duration + s.release := by linarith
  rw [valueAt_apply_of_le attack decay release lasts line le_rfl, add_sub_cancel_left, ending,
    if_pos falling, sub_self, zero_div, sub_zero, mul_one]

/-- The release at the end of a note takes back what leads there. -/
theorem events_cancel_apply (lasts : 0 < duration) (value : ℝ) :
    ((s.apply when (some duration) (.constant value)).cancel (when + duration)).events =
      s.opening when duration := by
  have before : ∀ e ∈ s.opening when duration, decide (e.time < when + duration) = true := by
    intro e mem
    rcases time_of_mem_opening mem with first | before
    · exact decide_eq_true (by linarith)
    · exact decide_eq_true before
  have silent : ¬ when + duration + s.release < when + duration := by linarith
  rw [Timeline.cancel, events_apply attack decay release lasts.le, List.filter_append,
    List.filter_append, List.filter_eq_self.2 before]
  simp [silent, Timeline.constant, Timeline.cancel]

/-- What is heard of a note: what is kept of its contour, and from its end on its fall. -/
theorem valueAt_note (lasts : 0 ≤ duration) (value : ℝ) {t : ℝ} (begun : when ≤ t) :
    (s.note when duration value).valueAt t =
      if t - when < duration then s.kept duration (t - when)
      else s.ending duration (t - when) := by
  unfold note
  by_cases sounding : t - when < duration
  · have early : t < when + duration := by linarith
    have positive : 0 < duration := by linarith
    rw [if_pos sounding, valueAt_silence_of_lt _ early, Timeline.valueAt,
      events_cancel_apply attack decay release positive, follow_opening attack begun]
  · have ended : when + duration ≤ t := by linarith
    have fall : t < when + duration + s.release ↔ t - when < duration + s.release := by
      constructor <;> intro h <;> linarith
    rw [if_neg sounding, valueAt_silence_of_le release _ ended,
      valueAt_apply attack decay release lasts]
    simp only [ending, fall, sub_sub]

/-! ## Which notes are heard as they should -/

omit release in
/-- Of a note that ends during its attack the contour is not kept, nor of one that ends during its
decay, unless there is nothing to hear. -/
theorem exists_kept_ne_contour (lasts : 0 < duration) (ends : duration ≤ s.attack + s.decay)
    (loud : s.level ≠ 0) (steep : s.attack < duration → s.sustainLevel ≠ s.level) :
    ∃ elapsed, 0 ≤ elapsed ∧ elapsed < duration ∧ s.kept duration elapsed ≠ s.contour elapsed := by
  by_cases short : duration ≤ s.attack
  · -- Halfway through the note it should have risen.
    refine ⟨duration / 2, by linarith, by linarith, ?_⟩
    have rising : duration / 2 < s.attack := by linarith
    have positive : 0 < s.attack := by linarith
    rw [kept, if_pos short, contour, if_pos rising]
    have half : duration / 2 ≠ 0 := by linarith
    exact (div_ne_zero (mul_ne_zero loud half) positive.ne').symm
  · -- Halfway between the peak and the end it should have fallen.
    have long : s.attack < duration := not_le.1 short
    refine ⟨(s.attack + duration) / 2, by linarith, by linarith, ?_⟩
    have risen : s.attack ≤ (s.attack + duration) / 2 := by linarith
    have falling : (s.attack + duration) / 2 < s.attack + s.decay := by linarith
    rw [kept, if_neg short, if_pos ⟨ends, risen⟩, contour, if_neg risen.not_gt, if_pos falling]
    have way : s.sustainLevel - s.level ≠ 0 := sub_ne_zero.2 (steep long)
    have part : (s.attack + duration) / 2 - s.attack ≠ 0 := by linarith
    have gone := div_ne_zero (mul_ne_zero way part) decay.ne'
    intro same
    exact gone (by linarith)

omit attack release in
/-- The contour is kept of a note that is over only after its decay, that is silent anyhow, or that
has no way to go in its decay. -/
theorem kept_eq_contour (quiet : s.attack + s.decay < duration ∨ s.level = 0 ∨
    (s.attack < duration ∧ s.sustainLevel = s.level)) (elapsed : ℝ) :
    s.kept duration elapsed = s.contour elapsed := by
  unfold kept
  rcases quiet with rested | silent | ⟨long, flat⟩
  · have long : ¬ duration ≤ s.attack := by linarith
    rw [if_neg long, if_neg fun h => rested.not_ge h.1]
  · have rest : s.sustainLevel = 0 := by rw [sustainLevel, silent, mul_zero]
    have contour : s.contour elapsed = 0 := by
      unfold contour
      split
      · rw [silent, zero_mul, zero_div]
      · split
        · rw [rest, silent, sub_zero, zero_mul, zero_div, add_zero]
        · exact rest
    rw [contour]
    split
    · rfl
    · split
      · exact silent
      · rfl
  · rw [if_neg long.not_ge]
    split
    · next risen =>
        rw [contour, if_neg risen.2.not_gt, flat]
        split
        · rw [sub_self, zero_mul, zero_div, add_zero]
        · rfl
    · rfl

/-- What is heard is the course that the note should take exactly if it does not last, is over only
after its decay, is silent anyhow, or has no way to go in its decay. -/
theorem valueAt_note_eq_course_iff (lasts : 0 ≤ duration) (value : ℝ) :
    (∀ t, when ≤ t → (s.note when duration value).valueAt t = s.course duration (t - when)) ↔
      duration = 0 ∨ s.attack + s.decay < duration ∨ s.level = 0 ∨
        (s.attack < duration ∧ s.sustainLevel = s.level) := by
  constructor
  · intro same
    by_contra exception
    simp only [not_or, not_and] at exception
    obtain ⟨nonzero, ends, loud, steep⟩ := exception
    have positive : 0 < duration := lt_of_le_of_ne lasts (Ne.symm nonzero)
    obtain ⟨elapsed, after, sounding, differs⟩ :=
      exists_kept_ne_contour attack decay positive (not_lt.1 ends) loud steep
    have heard := same (when + elapsed) (by linarith)
    rw [valueAt_note attack decay release lasts value (by linarith), course,
      add_sub_cancel_left, if_pos sounding, if_pos sounding] at heard
    exact differs heard
  · intro quiet t begun
    rw [valueAt_note attack decay release lasts value begun, course]
    split
    · next sounding =>
        refine kept_eq_contour decay (quiet.resolve_left ?_) _
        rintro rfl
        linarith
    · rfl

end Note

end Stages
end SynthPatch
