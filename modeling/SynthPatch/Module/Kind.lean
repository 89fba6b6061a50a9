import SynthPatch.Text
/-!
# Kinds of modules

Every kind of module a patch can be built from, the tag it is declared with, and the ports and
properties it offers by itself.

Main results:

- Theorem {lit}`Kind.ofTag?_tag`: a kind is found by its own tag, the sink excepted.
- Theorem {lit}`Kind.tag_injective`: no two kinds share a tag.
- Function {lit}`Kind.standardPorts`: the ports of a kind.
-/

namespace SynthPatch

/-- A kind of module. -/
inductive Kind where
  | saw | sine | square | triangle | pulse | custom
  | noise | lfo
  | lowPass | highPass | bandPass | lowShelf | highShelf
  | vca | pan | delay | shaper
  | adsr | decay
  /-- The sink every voice ends in; it is never declared. -/
  | audio
deriving DecidableEq, Repr

namespace Kind

/-- Every kind. -/
def all : List Kind :=
  [saw, sine, square, triangle, pulse, custom, noise, lfo, lowPass, highPass, bandPass, lowShelf,
    highShelf, vca, pan, delay, shaper, adsr, decay, audio]

theorem mem_all (k : Kind) : k ∈ all := by
  cases k <;> decide

/-- The tag a kind is written with. -/
def tag : Kind → String
  | saw => "SAW-OSC"
  | sine => "SIN-OSC"
  | square => "SQR-OSC"
  | triangle => "TRI-OSC"
  | pulse => "PULSE-OSC"
  | custom => "CUSTOM-OSC"
  | noise => "NOISE"
  | lfo => "LFO"
  | lowPass => "LPF"
  | highPass => "HPF"
  | bandPass => "BPF"
  | lowShelf => "LSF"
  | highShelf => "HSF"
  | vca => "VCA"
  | pan => "PAN"
  | delay => "DELAY"
  | shaper => "SHAPER"
  | adsr => "ADSR"
  | decay => "DECAY"
  | audio => "AUDIO"

/-- No two kinds share a tag. -/
theorem tag_injective {j k : Kind} (h : j.tag = k.tag) : j = k := by
  revert h
  cases j <;> cases k <;> decide

/-- The kind of a tag, the sink included. -/
def withTag? (tag : String) : Option Kind :=
  all.find? fun k => k.tag == tag

/-- The kind that a tag declares. -/
def ofTag? (tag : String) : Option Kind :=
  (withTag? tag).filter (· != audio)

/-- A kind is found by its own tag, the sink excepted. -/
theorem ofTag?_tag (k : Kind) : ofTag? k.tag = if k = audio then none else some k := by
  cases k <;> decide

/-- The tag in a column. -/
def label (width : Nat) (k : Kind) : String :=
  Text.flushLeft width k.tag

/-- An envelope is applied at the start and the release of a note, not wired as a signal. -/
def isEnvelope : Kind → Bool
  | adsr | decay => true
  | _ => false

/-- A kind whose pitch is heard. -/
def isOscillator : Kind → Bool
  | saw | sine | square | triangle | pulse | custom => true
  | _ => false

/-- A kind that plays a wavetable. -/
def takesWavetable : Kind → Bool
  | custom => true
  | _ => false

end Kind

/-! ## Ports -/

/-- The inputs, outputs and tweakable properties of a kind. -/
structure Ports where
  inputs : List String
  outputs : List String
  tweaks : List String
deriving DecidableEq, Repr

namespace Ports

/-- There is such an input. -/
def hasInput (p : Ports) (port : String) : Bool :=
  p.inputs.contains port

/-- There is such an output. -/
def hasOutput (p : Ports) (port : String) : Bool :=
  p.outputs.contains port

/-- There is such a tweakable property. -/
def hasTweak (p : Ports) (name : String) : Bool :=
  p.tweaks.contains name

end Ports

namespace Kind

/-- The ports and tweakable properties a kind offers by itself. -/
def standardPorts : Kind → Ports
  | saw | sine | square | triangle | custom =>
    ⟨["pitch", "detune"], ["out"], ["pitch", "detune"]⟩
  | pulse => ⟨["pitch", "detune", "pulsewidth"], ["out"], ["pitch", "detune", "pulsewidth"]⟩
  | noise => ⟨["level"], ["out"], ["level"]⟩
  | lfo => ⟨["pitch"], ["out"], ["pitch", "depth", "offset"]⟩
  | lowPass | highPass | bandPass => ⟨["in", "cutoff"], ["out"], ["cutoff", "resonance"]⟩
  | lowShelf | highShelf => ⟨["in", "cutoff"], ["out"], ["cutoff", "gain"]⟩
  | vca => ⟨["in", "level"], ["out"], ["level"]⟩
  | pan => ⟨["in", "angle"], ["out"], ["angle"]⟩
  | delay => ⟨["in", "lag"], ["out"], ["lag"]⟩
  | shaper => ⟨["in"], ["out"], ["fuzz"]⟩
  | adsr => ⟨[], ["out"], ["attack", "decay", "sustain", "release", "level"]⟩
  | decay => ⟨[], ["out"], ["attack", "decay", "level"]⟩
  | audio => ⟨["in", "level"], [], ["level"]⟩

end Kind
end SynthPatch
