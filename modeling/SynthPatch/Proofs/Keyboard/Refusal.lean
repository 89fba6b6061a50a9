import SynthPatch.Patch.Basic
import SynthPatch.Proofs.Keyboard.Provenance
/-!
# Notes that cannot be built

A note may fail to be built, since a value it is given may leave a tweak without one that a property
can take.  Its key is let go of before that is known.  So nothing happens if the key held no voice;
else that voice is released, though no other takes its place.

Main results:

- Structure {lit}`Keyboard.Refused`: what is left then.
- Theorem {lit}`Keyboard.refused_noteOn`: it is left by every note that cannot be built, and by no
  other is an error told.
-/

namespace SynthPatch
namespace Keyboard

variable {α : Type} [Scalar α] {k : Keyboard α} {note : Note α} {draws : Nat → Draws α}
  {e : VoiceError α}

/-- What a note that cannot be built leaves of a keyboard. -/
structure Refused (k : Keyboard α) (note : Note α) (after : Keyboard α) : Prop where
  setup : after.setup = k.setup
  nextId : after.nextId = k.nextId
  /-- No voice comes or goes. -/
  present : ∀ id, id ∈ after.voices ↔ id ∈ k.voices
  /-- Every other key holds what it held. -/
  held : ∀ key, after.held[key]? = if note.key = key then none else k.held[key]?
  /-- Every voice is as it was that the key did not hold. -/
  others : ∀ id, ¬ k.Holds note.key id → after.voices[id]? = k.voices[id]?
  /-- The voice that the key held has been released, and awaits its teardown. -/
  released : ∀ id, k.Holds note.key id → ∃ s, k.voices[id]? = some s ∧
    after.voices[id]? = some ⟨note.key, (s.voice.release note.when).1⟩ ∧
    after.schedule = k.schedule.push ⟨(s.voice.release note.when).2, id⟩
  /-- Nothing has happened exactly if the key held no voice. -/
  intact : after = k ↔ k.held[note.key]? = none

/-- A note fails with what building its voice fails with, and for no other reason. -/
theorem strike_eq_error_iff :
    k.strike note draws = .error e ↔ Voice.build k.rack k.patch note.values draws = .error e := by
  rw [strike, Outcome.bind_eq_error_iff]
  refine or_iff_left ?_
  rintro ⟨voice, -, failed⟩
  split at failed <;> cases failed

theorem noteOn_eq_error_iff :
    (k.noteOn note draws).2 = .error e ↔
      Voice.build k.rack k.patch note.values draws = .error e := by
  have same := k.setup_release note.key note.when
  simp only [setup, Prod.mk.injEq] at same
  rw [← same.1, ← same.2, ← strike_eq_error_iff]
  obtain ⟨d, failed, after⟩ | ⟨voice, due, struck, after⟩ := k.noteOn_cases note draws
  · rw [after, failed, Except.error.injEq, Except.error.injEq]
  · rw [after, struck]
    simp

/-- Letting go of a key leaves the other keys and their voices. -/
theorem Consistent.refused_release (consistent : Consistent k) (note : Note α) :
    Refused k note (k.release note.key note.when).1 where
  setup := k.setup_release note.key note.when
  nextId := k.nextId_release note.key note.when
  present id := mem_voices_release consistent
  held key := k.held_release note.key key note.when
  others := by
    intro id free
    obtain ⟨-, same⟩ | ⟨_, -, -, after⟩ | ⟨other, s, holds, -, after⟩ :=
      k.release_cases note.key note.when
    · rw [same]
    · rw [after]
    · have apart : other ≠ id := by
        rintro rfl
        exact free holds
      rw [after]
      simp [Std.ExtTreeMap.getElem?_insert, apart]
  released := by
    intro id holds
    obtain ⟨s, found, key⟩ := consistent.matched note.key id holds
    rw [release_of_holds holds found, ← key]
    exact ⟨s, found, Std.ExtTreeMap.getElem?_insert_self, rfl⟩
  intact := by
    constructor
    · intro same
      have freed := k.held_release note.key note.key note.when
      rwa [same, if_pos rfl] at freed
    · intro free
      rw [release_of_free free]

/-- A note fails exactly if its voice cannot be built.  It has no voice then and takes no number,
and nothing happens to other keys and their voices; but the voice that its key held has been
released, so that the keyboard is as it was exactly if the key held none. -/
theorem refused_noteOn (rack : Rack α) (patch : Patch α) (actions : List (Action α)) (note : Note α)
    (draws : Nat → Draws α) (e : VoiceError α) :
    ((({ rack, patch : Keyboard α }.play actions).noteOn note draws).2 = .error e ↔
      Voice.build rack patch note.values draws = .error e) ∧
    ((({ rack, patch : Keyboard α }.play actions).noteOn note draws).2 = .error e →
      Refused ({ rack, patch : Keyboard α }.play actions) note
        (({ rack, patch : Keyboard α }.play actions).noteOn note draws).1) := by
  have same := setup_play { rack, patch : Keyboard α } actions
  simp only [setup, Prod.mk.injEq] at same
  refine ⟨?_, fun failed => ?_⟩
  · rw [noteOn_eq_error_iff, same.1, same.2]
  · rw [noteOn_error failed]
    exact ((consistent_new rack patch).play actions).refused_release note

/-! ## A key that is struck in vain -/

/-- A tone at the pitch of its note. -/
def pitchedSource : String :=
  "@synth tone\n@end\nSAW-OSC:osc\nosc.out -> audio.in\nosc.pitch = param.pitch\n"

/-- A note that is held. -/
def heldTone : List (Action Float) :=
  [.noteOn { key := 60, when := 0 } fun _ _ => 0]

/-- A note on the same key, of a pitch that no oscillator can take. -/
def endlessPitch : Note Float where
  key := 60
  when := 1
  values := .ofList [("pitch", (1 / 0 : Float))]

/-- The note that is held has been released, and no other has taken its place. -/
theorem refused_noteOn_endlessPitch :
    ∃ patch e s, Patch.compile .standard pitchedSource = .ok patch ∧
      Voice.build .standard patch endlessPitch.values (fun _ _ => 0) = .error e ∧
      ({ rack := .standard, patch : Keyboard Float }.play heldTone).voices[0]? = some s ∧
      (({ rack := .standard, patch : Keyboard Float }.play heldTone).noteOn endlessPitch
        fun _ _ => 0).1.voices[0]? = some ⟨60, (s.voice.release 1).1⟩ := by
  have played : ((Patch.compile .standard pitchedSource).toOption.any fun patch =>
      (Voice.build .standard patch endlessPitch.values fun _ _ => 0).toOption.isNone &&
      ({ rack := .standard, patch : Keyboard Float }.play heldTone).held[(60 : UInt8)]? ==
        some 0) = true := by
    decide +kernel
  obtain ⟨patch, compiled, both⟩ := (Option.any_eq_true _ _).1 played
  obtain ⟨failed, holds⟩ := Bool.and_eq_true_iff.1 both
  obtain ⟨e, failed⟩ := Outcome.isNone_toOption_iff.1 failed
  have fails := refused_noteOn .standard patch heldTone endlessPitch (fun _ _ => 0) e
  obtain ⟨s, there, after, -⟩ := (fails.2 (fails.1.2 failed)).released 0 (eq_of_beq holds)
  exact ⟨patch, e, s, Outcome.toOption_eq_some_iff.1 compiled, failed, there, after⟩

/-- The key of the note that failed holds nothing any more, and a teardown is pending. -/
theorem endlessPitch_frees_key :
    ∃ patch e, Patch.compile .standard pitchedSource = .ok patch ∧
      (({ rack := .standard, patch : Keyboard Float }.play heldTone).noteOn endlessPitch
        fun _ _ => 0).2 = .error e ∧
      ({ rack := .standard, patch : Keyboard Float }.play heldTone).held[(60 : UInt8)]? = some 0 ∧
      (({ rack := .standard, patch : Keyboard Float }.play heldTone).noteOn endlessPitch
        fun _ _ => 0).1.held[(60 : UInt8)]? = none ∧
      ({ rack := .standard, patch : Keyboard Float }.play heldTone).schedule.pending = [] ∧
      (({ rack := .standard, patch : Keyboard Float }.play heldTone).noteOn endlessPitch
        fun _ _ => 0).1.schedule.pending = [⟨1, 0⟩] := by
  have played : ((Patch.compile .standard pitchedSource).toOption.any fun patch =>
      let before : Keyboard Float := { rack := .standard, patch : Keyboard Float }.play heldTone
      let after := before.noteOn endlessPitch fun _ _ => 0
      after.2.toOption.isNone && (before.held[(60 : UInt8)]? == some 0 &&
        (after.1.held[(60 : UInt8)]? == none && (before.schedule.pending == [] &&
          after.1.schedule.pending == [⟨1, 0⟩])))) = true := by
    decide +kernel
  obtain ⟨patch, compiled, all⟩ := (Option.any_eq_true _ _).1 played
  simp only [Bool.and_eq_true, beq_iff_eq] at all
  obtain ⟨failed, before, after, idle, pending⟩ := all
  obtain ⟨e, failed⟩ := Outcome.isNone_toOption_iff.1 failed
  exact ⟨patch, e, Outcome.toOption_eq_some_iff.1 compiled, failed, before, after, idle, pending⟩

end Keyboard
end SynthPatch
