import SynthPatch.Voice.Basic
/-!
# Changing the arithmetic

The numbers of a rack and of a patch can be carried over into another arithmetic.  Names, cables and
kinds stay as they are.

Main results:

- Function {lit}`Rack.map`: a rack in another arithmetic.
- Function {lit}`Patch.map`: a patch in another arithmetic.
- Theorem {lit}`Patch.isMutable_map`: the same parameters may be changed.
- Theorem {lit}`Postfix.params_map`: an expression refers to the same parameters.
-/

namespace SynthPatch

variable {α β : Type}

/-! ## Racks -/

/-- Bounds in another arithmetic. -/
def Limits.map (f : α → β) (l : Limits α) : Limits β where
  pitchMin := f l.pitchMin
  pitchMax := f l.pitchMax
  pitchDefault := f l.pitchDefault
  levelMin := f l.levelMin
  levelMax := f l.levelMax
  levelDefault := f l.levelDefault

/-- A configuration in another arithmetic. -/
def Config.map (f : α → β) (c : Config α) : Config β where
  limits := c.limits.map f
  decayFloor := f c.decayFloor
  bendFraction := f c.bendFraction
  noiseSeed := c.noiseSeed
  noiseSeconds := f c.noiseSeconds
  sampleRate := c.sampleRate
  wavetables := c.wavetables

/-- A wavetable in another arithmetic. -/
def Wavetable.map (f : α → β) (t : Wavetable α) : Wavetable β where
  real := t.real.map f
  imag := t.imag.map f

/-- A rack in another arithmetic. -/
def Rack.map (f : α → β) (rack : Rack α) : Rack β where
  config := rack.config.map f
  registry := rack.registry
  wavetables := rack.wavetables.map fun _ t => t.map f

/-! ## Patches -/

/-- A token of an expression in another arithmetic. -/
def Token.map (f : α → β) : Token α → Token β
  | number value => number (f value)
  | param name => param name
  | op o => op o
  | func g => func g

/-- An expression in another arithmetic. -/
def Postfix.map (f : α → β) (p : Postfix α) : Postfix β :=
  List.map (Token.map f) p

/-- An expression refers to the same parameters in every arithmetic. -/
theorem Postfix.params_map (f : α → β) (p : Postfix α) :
    Postfix.params (Postfix.map f p) = Postfix.params p := by
  unfold Postfix.params Postfix.map
  rw [List.filterMap_map]
  congr 1
  funext t
  cases t <;> rfl

/-- An expression draws at random in every arithmetic or in none. -/
theorem Postfix.isRandom_map (f : α → β) (p : Postfix α) :
    Postfix.isRandom (Postfix.map f p) = Postfix.isRandom p := by
  have same : Token.isRandom ∘ Token.map f = Token.isRandom := by
    funext t
    cases t with
    | func g => cases g <;> rfl
    | _ => rfl
  rw [isRandom, map, List.any_map, same, isRandom]

/-- A parameter in another arithmetic. -/
def Parameter.map (f : α → β) (p : Parameter α) : Parameter β where
  name := p.name
  type := p.type
  mutable := p.mutable
  step := f p.step
  min := f p.min
  max := f p.max
  default := f p.default
  doc := p.doc

/-- A control in another arithmetic. -/
def Control.map (f : α → β) (c : Control α) : Control β where
  min := f c.min
  max := f c.max
  default := f c.default
  mutable := c.mutable

/-- A tweak in another arithmetic. -/
def Tweak.map (f : α → β) (t : Tweak α) : Tweak β where
  target := t.target
  value := Postfix.map f t.value

/-- A patch in another arithmetic. -/
def Patch.map (f : α → β) (p : Patch α) : Patch β where
  header := p.header
  parameters := p.parameters.map (Parameter.map f)
  modules := p.modules
  cables := p.cables
  envelopes := p.envelopes
  tweaks := p.tweaks.map (Tweak.map f)
  controls := p.controls.map fun _ c => c.map f
  tables := p.tables.map fun _ t => t.map f

/-- The same parameters may be changed in every arithmetic. -/
theorem Patch.isMutable_map (f : α → β) (p : Patch α) (name : String) :
    (p.map f).isMutable name = p.isMutable name := by
  simp only [isMutable, map, Std.ExtTreeMap.getElem?_map]
  cases p.controls[name]? <;> rfl

/-! ## Errors -/

/-- An error of an expression in another arithmetic. -/
def EvalError.map (f : α → β) : EvalError α → EvalError β
  | shape fault => shape fault
  | randomRange lo hi => randomRange (f lo) (f hi)
  | unknownParam name => unknownParam name
  | missingRange name => missingRange name

/-- An error of a voice in another arithmetic. -/
def VoiceError.map (f : α → β) : VoiceError α → VoiceError β
  | invalidPatch errors => invalidPatch errors
  | unknownModule id => unknownModule id
  | module id fault => module id fault
  | tweak target fault => tweak target (fault.map f)
  | notFinite target value => notFinite target (f value)

end SynthPatch
