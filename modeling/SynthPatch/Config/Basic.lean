import SynthPatch.Decimal.Layout
import SynthPatch.Scalar
/-!
# Configuration

What a patch is compiled and played with apart from its modules: the bounds of the parameters every
patch has, the constants of envelopes and bends, and the noise that noise modules share.

Main results:

- Function {lit}`Config.fault?`: what keeps a configuration from being used.
- Theorem {lit}`Config.fault?_eq_none_iff`: which configurations can be used.
-/

namespace SynthPatch

/-- Bounds and defaults of the parameters every patch has. -/
structure Limits (α : Type) where
  pitchMin : α
  pitchMax : α
  pitchDefault : α
  levelMin : α
  levelMax : α
  levelDefault : α
deriving DecidableEq, Repr

/-- A configuration. -/
structure Config (α : Type) where
  limits : Limits α
  /-- The level at which a decaying envelope counts as silent. -/
  decayFloor : α
  /-- The part of a note's duration that a bend takes if it is given no time. -/
  bendFraction : α
  /-- Where the shared noise starts from. -/
  noiseSeed : UInt64
  /-- The length of the shared noise in seconds. -/
  noiseSeconds : α
  /-- Samples in a second. -/
  sampleRate : UInt32
  /-- The file of the wavetables. -/
  wavetables : Option String
deriving DecidableEq, Repr

/-- What keeps a configuration from being used. -/
inductive ConfigFault (α : Type) where
  | decayFloor (value : α)
  | bendFraction (value : α)
  | noiseSeconds (value : α)
  | sampleRate
deriving DecidableEq, Repr

/-- The frequency of a note in Hz.  Notes are numbered by semitones in equal temperament, note 69
being the A of 440 Hz. -/
def noteFrequency (note : UInt8) : Float :=
  440 * Float.pow 2 ((Float.ofNat note.toNat - 69) / 12)

namespace Limits

/-- Pitch spans the numbered notes, level runs from silence to one. -/
def standard : Limits Float where
  pitchMin := noteFrequency 0
  pitchMax := noteFrequency 127
  pitchDefault := 440
  levelMin := 0
  levelMax := 1
  levelDefault := 0.8

end Limits

namespace ConfigFault

/-- The fault in words. -/
def message : ConfigFault Float → String
  | decayFloor x => s!"decay_floor must be between 0 and 1 exclusive, got {showNumber x}"
  | bendFraction x => s!"bend_fraction must be positive, got {showNumber x}"
  | noiseSeconds x => s!"noise_seconds must be between 0 and 60, got {showNumber x}"
  | sampleRate => "sample_rate must be positive"

end ConfigFault

namespace Config

/-- The configuration used where nothing else is said. -/
def standard : Config Float where
  limits := .standard
  decayFloor := 0.001
  bendFraction := 0.75
  noiseSeed := 42
  noiseSeconds := 1
  sampleRate := 44100
  wavetables := none

/-- The longest shared noise, in seconds. -/
def maxNoiseSeconds {α : Type} [OfScientific α] : α :=
  60.0

/-- What keeps a configuration from being used, if anything does. -/
def fault? {α : Type} [Scalar α] (c : Config α) : Option (ConfigFault α) :=
  if ¬(0 < c.decayFloor ∧ c.decayFloor < 1) then some (.decayFloor c.decayFloor)
  else if ¬(Scalar.isFinite c.bendFraction = true ∧ 0 < c.bendFraction) then
    some (.bendFraction c.bendFraction)
  else if ¬(0 ≤ c.noiseSeconds ∧ c.noiseSeconds ≤ maxNoiseSeconds) then
    some (.noiseSeconds c.noiseSeconds)
  else if c.sampleRate = 0 then some .sampleRate
  else none

/-- A configuration can be used exactly if its floor lies between silence and full level, its bend
takes a part of a note, its noise is not too long and its samples have a rate. -/
theorem fault?_eq_none_iff {α : Type} [Scalar α] {c : Config α} :
    c.fault? = none ↔
      (0 < c.decayFloor ∧ c.decayFloor < 1) ∧
        (Scalar.isFinite c.bendFraction = true ∧ 0 < c.bendFraction) ∧
          (0 ≤ c.noiseSeconds ∧ c.noiseSeconds ≤ maxNoiseSeconds) ∧ c.sampleRate ≠ 0 := by
  unfold fault?
  grind

/-- The number of samples of the shared noise. -/
def noiseLength (c : Config Float) : Nat :=
  let seconds :=
    if c.noiseSeconds.isNaN || c.noiseSeconds < 0 then 0
    else if (maxNoiseSeconds : Float) < c.noiseSeconds then maxNoiseSeconds
    else c.noiseSeconds
  (seconds * Float.ofNat c.sampleRate.toNat).round.toUInt64.toNat

end Config
end SynthPatch
