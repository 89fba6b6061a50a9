import SynthPatch.Proofs.Keyboard.Ledger
import SynthPatch.Proofs.Voice.Reach
/-!
# Where the voices come from

A keyboard keeps the rack and the patch it was made with.  So each of its voices was built from this
patch on this rack, and nothing has happened to it since but what can happen to a voice.

Main results:

- Theorem {lit}`Keyboard.setup_play`: the rack and the patch stay.
- Theorem {lit}`Keyboard.Made.play`: every voice was built from the patch, and has been played.
-/

namespace SynthPatch

variable {α : Type} [Scalar α]

/-! ## Voices that have been played -/

namespace Voice

/-- The voice was built from a patch on a rack, and has been played. -/
def IsPlayed (rack : Rack α) (patch : Patch α) (v : Voice α) : Prop :=
  ∃ overrides draws fresh actions,
    build rack patch overrides draws = .ok fresh ∧ v = fresh.play actions

section IsPlayed

variable {rack : Rack α} {patch : Patch α} {v : Voice α}

theorem isPlayed_of_build {overrides : Named α} {draws : Nat → Draws α}
    (built : build rack patch overrides draws = .ok v) : v.IsPlayed rack patch :=
  ⟨overrides, draws, v, [], built, rfl⟩

theorem IsPlayed.act (h : v.IsPlayed rack patch) (a : Action α) :
    (v.act a).IsPlayed rack patch := by
  obtain ⟨overrides, draws, fresh, actions, built, rfl⟩ := h
  refine ⟨overrides, draws, fresh, actions ++ [a], built, ?_⟩
  rw [play, play, List.foldl_append]
  rfl

theorem IsPlayed.patch_eq (h : v.IsPlayed rack patch) : v.patch = patch := by
  obtain ⟨overrides, draws, fresh, actions, built, rfl⟩ := h
  exact (akin_play fresh actions).patch.trans (patch_build built)

/-- A voice that could be built has every property that is tweaked. -/
theorem IsPlayed.isSome_own? (h : v.IsPlayed rack patch) {t : Tweak α}
    (mem : t ∈ v.patch.tweaks) : (v.own? t.target).isSome = true := by
  rw [h.patch_eq] at mem
  obtain ⟨overrides, draws, fresh, actions, built, rfl⟩ := h
  rw [own?, Option.isSome_map, (akin_play fresh actions).properties]
  obtain ⟨valid, base, ready⟩ := exists_untweaked_of_build built
  rw [build_of_untweaked valid ready] at built
  obtain ⟨settings, set, rfl⟩ := Outcome.map_eq_ok_iff.1 built
  rw [(akin_assign base settings).properties]
  rw [← (untweaked_eq_ok ready).1] at mem
  obtain ⟨x, place, -, value⟩ := exists_mem_settings set mem rfl
  have own := (evaluate_eq_ok_iff.1 value).2.2
  rwa [own?, Option.isSome_map] at own

end IsPlayed

end Voice

namespace Keyboard

variable {k : Keyboard α}

/-! ## Rack and patch -/

/-- What a keyboard was made with. -/
def setup (k : Keyboard α) : Rack α × Patch α :=
  (k.rack, k.patch)

theorem setup_release (k : Keyboard α) (key : UInt8) (when : α) :
    (k.release key when).1.setup = k.setup := by
  obtain ⟨-, same⟩ | ⟨_, -, -, after⟩ | ⟨_, _, -, -, after⟩ := k.release_cases key when
  · rw [same]
  · rw [after, setup, setup]
  · rw [after, setup, setup]

omit [Scalar α] in
theorem setup_sweep (state : Keyboard α × List Nat) (t : Teardown α) :
    (sweep state t).1.setup = state.1.setup := by
  unfold sweep drop
  cases state.1.voices[t.voice]? <;> rfl

/-- A keyboard keeps its rack and its patch, whatever happens to it. -/
theorem setup_act (k : Keyboard α) (a : Action α) : (k.act a).setup = k.setup := by
  cases a with
  | noteOn note draws =>
      have released := k.setup_release note.key note.when
      obtain ⟨e, -, after⟩ | ⟨voice, due, -, after⟩ := k.noteOn_cases note draws
      · rw [act, after, released]
      · rw [act, after]
        exact released
  | noteOff key when => exact k.setup_release key when
  | advance now =>
      have swept (due : List (Teardown α)) (state : Keyboard α × List Nat) :
          (due.foldl sweep state).1.setup = state.1.setup := by
        induction due generalizing state with
        | nil => rfl
        | cons t rest ih => exact (ih (sweep state t)).trans (setup_sweep state t)
      exact swept (k.schedule.drain now).1 _
  | tweak name value draws => rfl
  | panic => rfl

theorem setup_play (k : Keyboard α) (actions : List (Action α)) :
    (k.play actions).setup = k.setup := by
  induction actions generalizing k with
  | nil => rfl
  | cons a rest ih => exact (ih (k.act a)).trans (k.setup_act a)

/-! ## Voices -/

/-- Every voice was built from the patch on the rack, and has been played. -/
def Made (k : Keyboard α) (setup : Rack α × Patch α) : Prop :=
  ∀ (id : Nat) (s : Sounding α), k.voices[id]? = some s → s.voice.IsPlayed setup.1 setup.2

namespace Made

variable {setup : Rack α × Patch α}

theorem release (h : Made k setup) (key : UInt8) (when : α) :
    Made (k.release key when).1 setup := by
  obtain ⟨-, same⟩ | ⟨_, -, -, after⟩ | ⟨id, sounding, -, present, after⟩ :=
    k.release_cases key when
  · rwa [same]
  · rw [after]
    exact h
  · rw [after]
    intro other s found
    rw [Std.ExtTreeMap.getElem?_insert] at found
    split at found
    · cases found
      exact (h id sounding present).act (.release when)
    · exact h other s found

/-- A voice that is put on a key has been made as the others. -/
theorem hold (h : Made k setup) {voice : Voice α}
    (made : voice.IsPlayed setup.1 setup.2) (key : UInt8) (due : Option α) :
    Made (k.hold key voice due) setup := by
  intro id s found
  have found : (k.voices.insert k.nextId ⟨key, voice⟩)[id]? = some s := found
  rw [Std.ExtTreeMap.getElem?_insert] at found
  split at found
  · cases found
    exact made
  · exact h id s found

/-- The voice of a note that is struck has been built, started and perhaps released. -/
theorem isPlayed_of_strike {note : Note α} {draws : Nat → Draws α} {voice : Voice α}
    {due : Option α} (struck : k.strike note draws = .ok (voice, due)) :
    voice.IsPlayed k.rack k.patch := by
  obtain ⟨built, made, ⟨-, rfl, -⟩ | ⟨duration, released, -, rfl, rfl, -⟩⟩ := strike_cases struck
  · exact (Voice.isPlayed_of_build made).act (.start note.when none note.bend)
  · exact ((Voice.isPlayed_of_build made).act
      (.start note.when (some duration) note.bend)).act (.release (note.when + duration))

/-- What happens to a keyboard happens to its voices. -/
theorem act (h : Made k k.setup) (consistent : Consistent k) (a : Action α) :
    Made (k.act a) k.setup := by
  cases a with
  | noteOn note draws =>
      have released := h.release note.key note.when
      obtain ⟨e, -, after⟩ | ⟨voice, due, struck, after⟩ := k.noteOn_cases note draws
      · simpa only [Keyboard.act, after] using released
      · have made := isPlayed_of_strike struck
        have same := k.setup_release note.key note.when
        simp only [Keyboard.setup, Prod.mk.injEq] at same
        rw [same.1, same.2] at made
        simp only [Keyboard.act, after]
        exact released.hold made note.key due
  | noteOff key when => exact h.release key when
  | advance now =>
      intro id s found
      have left := (swept_advance consistent.matched now).voices id
      have found : (k.advance now).1.voices[id]? = some s := found
      rw [left] at found
      split at found
      · cases found
      · exact h id s found
  | tweak name value draws =>
      intro id s found
      have found : (k.voices.map fun id s => retune name value (draws id) s)[id]? = some s := found
      rw [Std.ExtTreeMap.getElem?_map] at found
      obtain ⟨before, there, rfl⟩ := Option.map_eq_some_iff.1 found
      have tweaked : (retune name value (draws id) before).voice =
          before.voice.act (.tweak name value (draws id)) := by
        cases outcome : before.voice.tweak name value (draws id) <;>
          simp only [retune, Voice.act, outcome]
      rw [tweaked]
      exact (h id before there).act _
  | panic =>
      intro id s found
      have found : (∅ : Std.ExtTreeMap Nat (Sounding α))[id]? = some s := found
      simp at found

/-- Every voice of a keyboard that is played was built from its patch, and has been played. -/
theorem play (h : Made k k.setup) (consistent : Consistent k) (actions : List (Action α)) :
    Made (k.play actions) k.setup := by
  induction actions generalizing k with
  | nil => exact h
  | cons a rest ih =>
      have made := h.act consistent a
      rw [← k.setup_act a] at made ⊢
      exact ih made (consistent.act a)

end Made

/-- A new keyboard has no voices. -/
theorem made_new (rack : Rack α) (patch : Patch α) :
    Made { rack, patch } (rack, patch) := by
  intro id s found
  simp at found

end Keyboard
end SynthPatch
