import SynthPatch.Proofs.Module.Course
/-!
# Properties that several envelopes let go of

Each envelope that lets go of a property takes back what the others have scheduled from then on, and
has the property fall to silence in its own time.  Whichever was the last, the property is silent
from the end of its release on; and as long as none of them lets it fall at once, it is where it was
when they began.

Main results:

- Theorem {lit}`Stages.valueAt_silence_of_over`: a property is silent once its release is over.
- Theorem {lit}`Stages.exists_silenceAll_eq`: only the last of several releases counts.
- Theorem {lit}`Stages.valueAt_silenceAll`: several releases begin where the property was.
-/

namespace SynthPatch
namespace Stages

section Silence

variable (s : Stages ℝ) (line : Timeline ℝ) {when t : ℝ}

/-- Nothing is scheduled for later than the end of a release. -/
theorem time_le_of_mem_silence {e : Event ℝ} (mem : e ∈ (s.silence when line).events) :
    e.time ≤ when + s.releaseTime := by
  have begun : when ≤ when + s.releaseTime := le_add_of_nonneg_right s.releaseTime_nonneg
  rw [events_silence] at mem
  rcases List.mem_append.1 mem with mem | mem
  · exact (Timeline.mem_cancel.1 mem).2.le.trans begun
  · rcases List.mem_cons.1 mem with rfl | mem
    · exact begun
    · rw [List.mem_singleton.1 mem]

/-- A property is silent once its release is over. -/
theorem valueAt_silence_of_over (past : when + s.releaseTime ≤ t) :
    (s.silence when line).valueAt t = 0 := by
  have passed : ∀ e ∈ (s.silence when line).events, ¬ t < e.time := by
    intro e mem
    exact not_lt.2 ((s.time_le_of_mem_silence line mem).trans past)
  rw [Timeline.valueAt, ← List.append_nil (s.silence when line).events,
    Anchor.follow_append passed, events_silence, List.foldl_append]
  rfl

/-- A release begins where the property was, unless it is over at once. -/
theorem valueAt_silence_self (release : 0 < s.release) :
    (s.silence when line).valueAt when = line.valueAt when := by
  have begun : when < when + s.release := lt_add_of_pos_right when release
  rw [valueAt_silence_of_le release line le_rfl, if_pos begun, sub_self, zero_div, sub_zero,
    mul_one]

end Silence

/-- Several envelopes let go of a property, one after the other. -/
def silenceAll {α : Type} [Scalar α] (silencers : List (Stages α)) (when : α)
    (line : Timeline α) : Timeline α :=
  silencers.foldl (fun line s => s.silence when line) line

/-- Only the last of several releases counts. -/
theorem exists_silenceAll_eq {α : Type} [Scalar α] {silencers : List (Stages α)}
    (some : silencers ≠ []) (when : α) (line : Timeline α) :
    ∃ s ∈ silencers, ∃ before, silenceAll silencers when line = s.silence when before := by
  obtain ⟨front, last, rfl⟩ := List.eq_nil_or_concat silencers |>.resolve_left some
  refine ⟨last, by simp, silenceAll front when line, ?_⟩
  simp [silenceAll]

/-- Several releases begin where the property was, unless one of them is over at once. -/
theorem valueAt_silenceAll {silencers : List (Stages ℝ)}
    (release : ∀ s ∈ silencers, 0 < s.release) (when : ℝ) (line : Timeline ℝ) :
    (silenceAll silencers when line).valueAt when = line.valueAt when := by
  induction silencers generalizing line with
  | nil => rfl
  | cons s rest ih =>
      have later := ih (fun r mem => release r (List.mem_cons_of_mem s mem)) (s.silence when line)
      refine later.trans ?_
      exact s.valueAt_silence_self line (release s List.mem_cons_self)

end Stages
end SynthPatch
