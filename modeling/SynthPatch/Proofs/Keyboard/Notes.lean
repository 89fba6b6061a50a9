import SynthPatch.Proofs.Module.Course
import SynthPatch.Proofs.Keyboard.Playing
import SynthPatch.Proofs.Voice.Driving
import SynthPatch.Proofs.Voice.Rebuilding
/-!
# Notes of a fixed length

A note with a duration is started and released at once.  On a property that one four-stage envelope
drives it always falls to silence from its end on as it should; the rise before its end is as it
should be only if the note is long enough.

Main results:

- Theorem {lit}`Keyboard.noteOn_course`: how a note of a fixed length sounds, and which notes sound
  as they should.
-/

namespace SynthPatch
namespace Keyboard

section Voices

variable {α : Type} [Scalar α] {k : Keyboard α} {note : Note α} {draws : Nat → Draws α} {id : Nat}

/-- Letting go of a key leaves the patch and the rack. -/
theorem patch_release (k : Keyboard α) (key : UInt8) (when : α) :
    (k.release key when).1.patch = k.patch := by
  obtain ⟨-, same⟩ | ⟨_, -, -, after⟩ | ⟨_, _, -, -, after⟩ := k.release_cases key when
  · rw [same]
  · rw [after]
  · rw [after]

/-- A note of a fixed length sounds on a new voice that has been started and released. -/
theorem exists_sounding_of_noteOn {duration : α} (struck : (k.noteOn note draws).2 = .ok id)
    (fixed : note.duration = some duration) :
    ∃ built : Voice α, built.Fresh ∧ built.patch = k.patch ∧
      (k.noteOn note draws).1.voices[id]? = some ⟨note.key,
        ((built.start note.when (some duration) note.bend).release (note.when + duration)).1⟩ := by
  obtain ⟨e, -, after⟩ | ⟨voice, due, made, after⟩ := k.noteOn_cases note draws
  · rw [after] at struck
    cases struck
  · rw [after] at struck ⊢
    cases struck
    obtain ⟨built, ready, ⟨unfixed, -⟩ | ⟨duration', released, given, done, rfl, -⟩⟩ :=
      strike_cases made
    · rw [unfixed] at fixed
      cases fixed
    · rw [fixed] at given
      cases given
      subst done
      refine ⟨built, Voice.fresh_build ready, ?_, ?_⟩
      · rw [Voice.patch_build ready, patch_release]
      · simp only [hold, nextId_release, Std.ExtTreeMap.getElem?_insert_self]

end Voices

/-- A note of a fixed length, on a property that one four-stage envelope drives.  From its end on it
falls to silence from where it should be.  It takes the whole course it should exactly if it does
not last, is over only after its decay, is silent anyhow, or has no way to go in its decay. -/
theorem noteOn_course {k : Keyboard ℝ} {note : Note ℝ} {draws : Nat → Draws ℝ} {id : Nat}
    {duration : ℝ} (struck : (k.noteOn note draws).2 = .ok id)
    (fixed : note.duration = some duration) (straight : note.bend = none) (lasts : 0 ≤ duration) :
    ∃ s, (k.noteOn note draws).1.voices[id]? = some s ∧ s.key = note.key ∧
      ∀ (c : Cable) (m : Instance Endpoint ℝ) (line : Timeline ℝ),
        k.patch.envelopes.filter (·.target = c.target) = [c] →
        s.voice.modules[c.source.module]? = some m → m.kind = .adsr →
        0 ≤ m.stages.attack → 0 < m.stages.decay → 0 < m.stages.release →
        s.voice.property? c.target = some line →
        (∀ t, note.when + duration ≤ t →
          line.valueAt t = m.stages.ending duration (t - note.when)) ∧
        ((∀ t, note.when ≤ t → line.valueAt t = m.stages.course duration (t - note.when)) ↔
          duration = 0 ∨ m.stages.attack + m.stages.decay < duration ∨ m.stages.level = 0 ∨
            (m.stages.attack < duration ∧ m.stages.sustainLevel = m.stages.level)) := by
  obtain ⟨built, fresh, patch, sounds⟩ := exists_sounding_of_noteOn struck fixed
  refine ⟨_, sounds, rfl, ?_⟩
  intro c m line only found kind attack decay release there
  rw [← patch] at only
  rw [straight] at found there
  obtain ⟨value, rfl⟩ := Voice.property?_release_start fresh only found kind there
  refine ⟨fun t ended => ?_, ?_⟩
  · have begun : note.when ≤ t := by linarith
    have silent : ¬ t - note.when < duration := by linarith
    have heard := Stages.valueAt_note attack decay release lasts value begun
    rwa [if_neg silent] at heard
  · exact Stages.valueAt_note_eq_course_iff attack decay release lasts value

/-! ## A patch in exact arithmetic -/

/-- The patch of {lit}`swellSource` in exact arithmetic, on a new keyboard. -/
noncomputable def exactSwell : Keyboard ℝ where
  rack := {
    config := {
      limits := ⟨8.18, 12543.85, 440, 0, 1, 0.8⟩
      decayFloor := 0.001
      bendFraction := 0.75
      noiseSeed := 42
      noiseSeconds := 1
      sampleRate := 44100
      wavetables := none }
    registry := .standard
    wavetables := ∅ }
  patch := {
    header := { shortname := "swell" }
    parameters := []
    modules := [⟨"osc", .saw, none⟩, ⟨"amp", .vca, none⟩, ⟨"env", .adsr, none⟩]
    cables := [⟨⟨"osc", "out"⟩, ⟨"amp", "in"⟩⟩, ⟨⟨"amp", "out"⟩, ⟨"audio", "in"⟩⟩]
    envelopes := [⟨⟨"env", "out"⟩, ⟨"amp", "level"⟩⟩]
    tweaks := [⟨⟨"env", "attack"⟩, [.number 1]⟩, ⟨⟨"env", "decay"⟩, [.number 1]⟩,
      ⟨⟨"env", "release"⟩, [.number 1]⟩]
    controls := Patch.implicitControls ⟨8.18, 12543.85, 440, 0, 1, 0.8⟩
    tables := ∅ }

/-- A note of the swell that is struck at once. -/
noncomputable def swellNote (duration : ℝ) : Note ℝ where
  key := 60
  when := 0
  duration := some duration

/-- The settings of the envelope of the swell. -/
noncomputable def swellStages : Stages ℝ where
  attack := 1
  decay := 1
  sustain := 0.5
  release := 1
  level := 1

/-- The cable from the envelope of the swell. -/
def swellCable : Cable :=
  ⟨⟨"env", "out"⟩, ⟨"amp", "level"⟩⟩

/-- A note of the swell is struck under the first number.  Its envelope has the settings of the
patch, and its level has been through a note of that envelope. -/
theorem exists_swell (duration : ℝ) :
    (exactSwell.noteOn (swellNote duration) fun _ _ => 0).2 = .ok 0 ∧
      exactSwell.patch.envelopes.filter (·.target = swellCable.target) = [swellCable] ∧
      ∃ s m, (exactSwell.noteOn (swellNote duration) fun _ _ => 0).1.voices[0]? = some s ∧
        s.voice.modules[swellCable.source.module]? = some m ∧ m.kind = .adsr ∧
        m.stages = swellStages ∧
        s.voice.property? swellCable.target = some (swellStages.note 0 duration 1) := by
  have struck : (exactSwell.noteOn (swellNote duration) fun _ _ => 0).2 = .ok 0 := by rfl
  have only : exactSwell.patch.envelopes.filter (·.target = swellCable.target) =
      [swellCable] := by rfl
  have envelope : ((exactSwell.noteOn (swellNote duration) fun _ _ => 0).1.voices[0]?.bind
      fun s => s.voice.modules[swellCable.source.module]?).map (fun m => (m.kind, m.stages)) =
        some (.adsr, swellStages) := by rfl
  have level : ((exactSwell.noteOn (swellNote duration) fun _ _ => 0).1.voices[0]?.bind
      fun s => s.voice.property? swellCable.target) = some (swellStages.note 0 duration 1) := by
    rfl
  obtain ⟨m, found, profile⟩ := Option.map_eq_some_iff.1 envelope
  obtain ⟨s, sounds, found⟩ := Option.bind_eq_some_iff.1 found
  rw [sounds, Option.bind_some] at level
  rw [Prod.mk.injEq] at profile
  exact ⟨struck, only, s, m, sounds, found, profile.1, profile.2, level⟩

/-- A note of three seconds takes the whole course of the swell. -/
theorem noteOn_course_swell :
    ∃ s line, (exactSwell.noteOn (swellNote 3) fun _ _ => 0).1.voices[0]? = some s ∧
      s.voice.property? swellCable.target = some line ∧
      ∀ t, 0 ≤ t → line.valueAt t = swellStages.course 3 (t - 0) := by
  obtain ⟨struck, only, s, m, sounds, found, kind, settings, there⟩ := exists_swell 3
  obtain ⟨s', sounds', -, heard⟩ := noteOn_course struck rfl rfl (by norm_num)
  rw [sounds] at sounds'
  cases sounds'
  have attack : m.stages.attack = 1 := by rw [settings, swellStages]
  have decay : m.stages.decay = 1 := by rw [settings, swellStages]
  have release : m.stages.release = 1 := by rw [settings, swellStages]
  obtain ⟨-, course⟩ := heard swellCable m _ only found kind (by linarith) (by linarith)
    (by linarith) there
  have long : m.stages.attack + m.stages.decay < 3 := by linarith
  have same := course.2 (.inr (.inl long))
  rw [settings] at same
  exact ⟨s, _, sounds, there, same⟩

/-- A note of half a second should be on its way up after a quarter of a second, and is silent. -/
theorem swell_silent_in_attack :
    (exactSwell.noteOn (swellNote 0.5) fun _ _ => 0).2 = .ok 0 ∧
      exactSwell.patch.envelopes.filter (·.target = swellCable.target) = [swellCable] ∧
      ∃ (s : Sounding ℝ) (m : Instance Endpoint ℝ) (line : Timeline ℝ),
        (exactSwell.noteOn (swellNote 0.5) fun _ _ => 0).1.voices[0]? = some s ∧
        s.voice.modules[swellCable.source.module]? = some m ∧ m.kind = .adsr ∧
        m.stages = swellStages ∧ s.voice.property? swellCable.target = some line ∧
        line.valueAt 0.25 = 0 ∧ m.stages.course 0.5 (0.25 - 0) = 0.25 := by
  obtain ⟨struck, only, s, m, sounds, found, kind, settings, there⟩ := exists_swell 0.5
  have attack : 0 ≤ swellStages.attack := by norm_num [swellStages]
  have decay : 0 < swellStages.decay := by norm_num [swellStages]
  have release : 0 < swellStages.release := by norm_num [swellStages]
  have kept : swellStages.kept 0.5 (0.25 - 0) = 0 := by norm_num [swellStages, Stages.kept]
  have sounding : (0.25 : ℝ) - 0 < 0.5 := by norm_num
  have heard : (swellStages.note 0 0.5 1).valueAt 0.25 = 0 := by
    rw [Stages.valueAt_note attack decay release (by norm_num) 1 (by norm_num), if_pos sounding,
      kept]
  have course : swellStages.course 0.5 (0.25 - 0) = 0.25 := by
    norm_num [swellStages, Stages.course, Stages.contour]
  rw [← settings] at course
  exact ⟨struck, only, s, m, _, sounds, found, kind, settings, there, heard, course⟩

end Keyboard
end SynthPatch
