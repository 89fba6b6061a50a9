import SynthPatch.Keyboard.Schedule
import SynthPatch.Voice.Performance
/-!
# The keyboard

A keyboard plays one patch on one rack.  Every key holds at most one voice; a key that is struck
again lets go of the voice it held.  A voice that was let go sounds on until its teardown is due.

Main results:

- Theorem {lit}`Keyboard.noteOn_error`: a note that cannot be built still releases its key.
- Theorem {lit}`Keyboard.held_release`: a released key holds nothing.
-/

namespace SynthPatch

/-- A voice and the key it was struck on. -/
structure Sounding (α : Type) where
  key : UInt8
  voice : Voice α

/-- A note to be struck; without a duration it is held until its key is released. -/
structure Note (α : Type) where
  key : UInt8
  when : α
  duration : Option α := none
  bend : Option (Bend α) := none
  /-- Values that replace the defaults of the parameters. -/
  values : Named α := ∅

/-- The voices of one patch, held or let go, by their numbers. -/
structure Keyboard (α : Type) where
  rack : Rack α
  patch : Patch α
  /-- The voice each key holds. -/
  held : Std.ExtTreeMap UInt8 Nat := ∅
  voices : Std.ExtTreeMap Nat (Sounding α) := ∅
  schedule : Schedule α := {}
  /-- The number of the next voice; none is given twice.  Fewer than 2^64 notes are ever struck, so
  that every number fits into a word of 64 bits. -/
  nextId : Nat := 0

namespace Keyboard

variable {α : Type} [Scalar α]

/-! ## Notes -/

/-- Let go of the voice a key holds: the keyboard after that, and when the voice is torn down. -/
def release (k : Keyboard α) (key : UInt8) (when : α) : Keyboard α × Option α :=
  match k.held[key]? with
  | none => (k, none)
  | some id =>
    match k.voices[id]? with
    | none => ({ k with held := k.held.erase key }, none)
    | some sounding =>
      let (voice, due) := sounding.voice.release when
      ({ k with
          held := k.held.erase key
          voices := k.voices.insert id { sounding with voice }
          schedule := k.schedule.push ⟨due, id⟩ },
        some due)

/-- A voice for a note, started, and when it is torn down if that is known. -/
def strike (k : Keyboard α) (note : Note α) (draws : Nat → Draws α) :
    Except (VoiceError α) (Voice α × Option α) := do
  let voice ← Voice.build k.rack k.patch note.values draws
  let started := voice.start note.when note.duration note.bend
  match note.duration with
  | none => return (started, none)
  | some duration =>
    let (released, due) := started.release (note.when + duration)
    return (released, some due)

/-- Put a voice under the next number and on its key. -/
def hold (k : Keyboard α) (key : UInt8) (voice : Voice α) (due : Option α) : Keyboard α :=
  { k with
    held := k.held.insert key k.nextId
    voices := k.voices.insert k.nextId ⟨key, voice⟩
    schedule :=
      match due with
      | none => k.schedule
      | some due => k.schedule.push ⟨due, k.nextId⟩
    nextId := k.nextId + 1 }

/-- Strike a note: its key is released, whether or not a new voice can be built then. -/
def noteOn (k : Keyboard α) (note : Note α) (draws : Nat → Draws α) :
    Keyboard α × Except (VoiceError α) Nat :=
  let released := (k.release note.key note.when).1
  match released.strike note draws with
  | .error e => (released, .error e)
  | .ok (voice, due) => (released.hold note.key voice due, .ok released.nextId)

/-- Let go of a key. -/
def noteOff (k : Keyboard α) (key : UInt8) (when : α) : Keyboard α × Option α :=
  k.release key when

/-! ## Teardown -/

/-- Remove a voice if it is still there, and free its key if the key still holds it. -/
def drop (k : Keyboard α) (id : Nat) : Keyboard α × Bool :=
  match k.voices[id]? with
  | none => (k, false)
  | some sounding =>
    ({ k with
        voices := k.voices.erase id
        held := if k.held[sounding.key]? = some id then k.held.erase sounding.key else k.held },
      true)

/-- One more due teardown is dealt with; the voices removed so far are told beside the keyboard. -/
def sweep (state : Keyboard α × List Nat) (t : Teardown α) : Keyboard α × List Nat :=
  match state.1.drop t.voice with
  | (k, true) => (k, state.2 ++ [t.voice])
  | (k, false) => (k, state.2)

/-- Remove every voice whose teardown is due: the keyboard after that, and the voices removed. -/
def advance (k : Keyboard α) (now : α) : Keyboard α × List Nat :=
  let (due, schedule) := k.schedule.drain now
  due.foldl sweep ({ k with schedule }, [])

/-! ## All voices at once -/

/-- A voice after a parameter was changed on it; where that fails it is as it was. -/
def retune (name : String) (value : α) (draws : Nat → Draws α) (s : Sounding α) : Sounding α :=
  match s.voice.tweak name value draws with
  | .ok voice => { s with voice }
  | .error _ => s

/-- Tweak a parameter on every voice, those let go included.  A voice on which the tweak fails
stays as it is; these are told with what went wrong. -/
def tweak (k : Keyboard α) (name : String) (value : α) (draws : Nat → Nat → Draws α) :
    Keyboard α × List (Nat × VoiceError α) :=
  let voices := k.voices.map fun id s => retune name value (draws id) s
  let failures := k.voices.toList.filterMap fun (id, s) =>
    match s.voice.tweak name value (draws id) with
    | .ok _ => none
    | .error e => some (id, e)
  ({ k with voices }, failures)

/-- Silence and remove every voice. -/
def panic (k : Keyboard α) : Keyboard α :=
  { k with held := ∅, voices := ∅, schedule := {} }

/-! ## What an operation does -/

/-- A released key holds nothing. -/
theorem held_release (k : Keyboard α) (key other : UInt8) (when : α) :
    (k.release key when).1.held[other]? = if key = other then none else k.held[other]? := by
  unfold release
  split
  · next h => grind
  · split <;> simp [Std.ExtTreeMap.getElem?_erase]

/-- Releasing a key gives out no number. -/
@[simp]
theorem nextId_release (k : Keyboard α) (key : UInt8) (when : α) :
    (k.release key when).1.nextId = k.nextId := by
  unfold release
  split
  · rfl
  · split <;> rfl

/-- A note that cannot be built still releases its key. -/
theorem noteOn_error {k : Keyboard α} {note : Note α} {draws : Nat → Draws α} {e : VoiceError α}
    (h : (k.noteOn note draws).2 = .error e) :
    (k.noteOn note draws).1 = (k.release note.key note.when).1 := by
  cases hs : (k.release note.key note.when).1.strike note draws with
  | error _ => simp only [noteOn, hs]
  | ok _ => simp only [noteOn, hs] at h; cases h

/-- A parameter that is changed leaves a voice on its key. -/
theorem key_retune (name : String) (value : α) (draws : Nat → Draws α) (s : Sounding α) :
    (retune name value draws s).key = s.key := by
  unfold retune
  split <;> rfl

end Keyboard

/-- The name of a voice. -/
def voiceName (id : Nat) : String :=
  s!"voice#{id}"

end SynthPatch
