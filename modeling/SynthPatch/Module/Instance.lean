import SynthPatch.Language.Statement
import SynthPatch.Module.Envelope
import SynthPatch.Module.Wavetable
/-!
# Module instances

An instance is a module as it takes part in a voice.  It does not make sound; it holds its
properties, what is connected to its inputs, and the times it was started and stopped.  An envelope
also remembers which properties it drives.

Main results:

- Function {lit}`Instance.standard`: a fresh instance of a kind.
- Theorem {lit}`Instance.connect_eq_ok_iff`: an instance accepts exactly its declared inputs.
- Theorems {lit}`Instance.value_drive`, {lit}`Instance.value_release`: an envelope only schedules
  changes.
-/

namespace SynthPatch

/-- Why an instance cannot be made or used as asked. -/
inductive ModuleError where
  | noInput (kind : Kind) (port : String)
  | noProperty (kind : Kind) (name : String)
  | needsWavetable (kind : Kind)
  /-- The kind is not at hand. -/
  | unregistered (kind : Kind)
deriving DecidableEq, Repr

namespace ModuleError

/-- The error in words. -/
def message : ModuleError → String
  | noInput kind port => s!"{kind.tag} has no input '{port}'"
  | noProperty kind name => s!"{kind.tag} has no property '{name}'"
  | needsWavetable kind => s!"{kind.tag} needs a wavetable"
  | unregistered kind => s!"no factory registered for {kind.tag}"

end ModuleError

/-- The shape of a periodic source. -/
inductive Waveform (α : Type) where
  | sine | saw | square | triangle | pulse
  | custom (table : Wavetable α)
deriving DecidableEq, Repr

namespace Waveform

variable {α : Type}

/-- The shape that a kind has by itself. -/
def ofKind? : Kind → Option (Waveform α)
  | .sine | .lfo => some sine
  | .saw => some saw
  | .square => some square
  | .triangle => some triangle
  | .pulse => some pulse
  | _ => none

/-- The name of a shape. -/
def name : Waveform α → String
  | sine => "Sine"
  | saw => "Saw"
  | square => "Square"
  | triangle => "Triangle"
  | pulse => "Pulse"
  | custom _ => "Custom"

end Waveform

/-- The part an instance plays, with what it has to remember for it.  The properties that an
envelope drives are known by references of the type {lit}`ρ`. -/
inductive Role (ρ α : Type) where
  /-- A periodic source. -/
  | oscillator (shape : Waveform α)
  /-- A source of noise. -/
  | noise
  /-- A part of the signal path. -/
  | processor
  /-- A four-stage envelope. -/
  | stages (driven : List ρ)
  /-- A decaying envelope with its own course and the tail left after the last release. -/
  | fall (floor : α) (driven : List ρ) (course : Timeline α) (tail : α)

/-- A module as it takes part in a voice. -/
structure Instance (ρ α : Type) where
  kind : Kind
  /-- The inputs it accepts, and what else it declares. -/
  ports : Ports
  properties : Named (Timeline α)
  role : Role ρ α
  /-- What is connected to its inputs, in the order it was connected. -/
  wires : List (String × Endpoint) := []
  started : Option α := none
  stopped : Option α := none

namespace Instance

variable {ρ α : Type}

/-! ## Properties and wires -/

/-- Change a property. -/
def modify (m : Instance ρ α) (name : String) (f : Timeline α → Timeline α) : Instance ρ α :=
  { m with properties := m.properties.modify name f }

/-- Set the value of a property. -/
def set (m : Instance ρ α) (name : String) (value : α) : Except ModuleError (Instance ρ α) :=
  if m.properties.contains name then .ok (m.modify name (·.setValue value))
  else .error (.noProperty m.kind name)

/-- Connect a source to an input. -/
def connect (m : Instance ρ α) (port : String) (source : Endpoint) :
    Except ModuleError (Instance ρ α) :=
  if m.ports.hasInput port then .ok { m with wires := m.wires ++ [(port, source)] }
  else .error (.noInput m.kind port)

/-- An instance accepts exactly its declared inputs. -/
theorem connect_eq_ok_iff {m n : Instance ρ α} {port : String} {source : Endpoint} :
    m.connect port source = .ok n ↔
      m.ports.hasInput port = true ∧ n = { m with wires := m.wires ++ [(port, source)] } := by
  unfold connect
  by_cases h : m.ports.hasInput port = true
  · rw [if_pos h]
    exact ⟨fun e => ⟨h, (Except.ok.inj e).symm⟩, fun e => by rw [e.2]⟩
  · rw [if_neg h]
    exact ⟨fun e => (nomatch e), fun e => absurd e.1 h⟩

/-- Declare other ports. -/
def declare (m : Instance ρ α) (ports : Ports) : Instance ρ α :=
  { m with ports }

/-! ## Starting and stopping -/

/-- It has to be started to be heard. -/
def isSource (m : Instance ρ α) : Bool :=
  match m.role with
  | .oscillator _ | .noise => true
  | _ => false

/-- It drives properties of other instances. -/
def isEnvelope (m : Instance ρ α) : Bool :=
  match m.role with
  | .stages _ | .fall .. => true
  | _ => false

/-- Start a source; anything else stays as it is. -/
def start (m : Instance ρ α) (when : α) : Instance ρ α :=
  if m.isSource then { m with started := some when } else m

@[simp]
theorem properties_start (m : Instance ρ α) (when : α) :
    (m.start when).properties = m.properties := by
  unfold start
  split <;> rfl

/-- Stop the instance. -/
def stop (m : Instance ρ α) (when : α) : Instance ρ α :=
  { m with stopped := some when }

@[simp]
theorem properties_stop (m : Instance ρ α) (when : α) : (m.stop when).properties = m.properties :=
  rfl

/-- The properties an envelope drives, in the order it was applied to them. -/
def driven (m : Instance ρ α) : List ρ :=
  match m.role with
  | .stages driven | .fall _ driven _ _ => driven
  | _ => []

section Arithmetic

variable [Scalar α]

/-- The value of a property; nothing where there is no such property. -/
def setting (m : Instance ρ α) (name : String) : α :=
  match m.properties[name]? with
  | some line => line.value
  | none => 0

/-- The settings of a four-stage envelope. -/
def stages (m : Instance ρ α) : Stages α where
  attack := m.setting "attack"
  decay := m.setting "decay"
  sustain := m.setting "sustain"
  release := m.setting "release"
  level := m.setting "level"

/-- The settings of a decaying envelope. -/
def fall (m : Instance ρ α) (floor : α) : Fall α where
  attack := m.setting "attack"
  decay := m.setting "decay"
  level := m.setting "level"
  floor := floor

/-- The rate of a decaying envelope, if it has one. -/
def fallRate? (m : Instance ρ α) : Option α :=
  match m.role with
  | .fall floor .. => (m.fall floor).rate?
  | _ => none

/-- The level a decaying envelope has reached of itself. -/
def levelAt? (m : Instance ρ α) (t : α) : Option α :=
  match m.role with
  | .fall _ _ course _ => some (course.valueAt t)
  | _ => none

/-! ## Envelopes -/

/-- Apply an envelope to a property: the envelope after that, and the change to the property.
Nothing comes of it if the instance is no envelope. -/
def drive (m : Instance ρ α) (target : ρ) (when : α) (duration : Option α) :
    Instance ρ α × (Timeline α → Timeline α) :=
  match m.role with
  | .stages driven =>
    ({ m with role := .stages (driven ++ [target]) }, m.stages.apply when duration)
  | .fall floor driven course tail =>
    let shape := m.fall floor
    ({ m with role := .fall floor (driven ++ [target]) (shape.apply when course) tail },
      shape.apply when)
  | _ => (m, id)

/-- Release an envelope: the envelope after that, and the change to every property it drives. -/
def release (m : Instance ρ α) (when : α) : Instance ρ α × (Timeline α → Timeline α) :=
  match m.role with
  | .stages _ => (m, m.stages.silence when)
  | .fall floor driven course _ =>
    let tail := (m.fall floor).tailFrom (course.valueAt when)
    ({ m with role := .fall floor driven course tail }, id)
  | _ => (m, id)

/-- Applying an envelope leaves its own properties. -/
@[simp]
theorem properties_drive (m : Instance ρ α) (target : ρ) (when : α) (duration : Option α) :
    (m.drive target when duration).1.properties = m.properties := by
  unfold drive
  split <;> rfl

/-- Applying an envelope leaves the value that the property has of its own. -/
@[simp]
theorem value_drive (m : Instance ρ α) (target : ρ) (when : α) (duration : Option α)
    (line : Timeline α) : ((m.drive target when duration).2 line).value = line.value := by
  unfold drive
  split <;> simp

/-- Releasing an envelope leaves its own properties. -/
@[simp]
theorem properties_release (m : Instance ρ α) (when : α) :
    (m.release when).1.properties = m.properties := by
  unfold release
  split <;> rfl

/-- Releasing an envelope leaves the values that properties have of their own. -/
@[simp]
theorem value_release (m : Instance ρ α) (when : α) (line : Timeline α) :
    ((m.release when).2 line).value = line.value := by
  unfold release
  split <;> simp

/-- How long an envelope goes on after its last release. -/
def releaseTime? (m : Instance ρ α) : Option α :=
  match m.role with
  | .stages _ => some m.stages.releaseTime
  | .fall _ _ _ tail => some tail
  | _ => none

/-! ## Fresh instances -/

/-- The properties of a fresh instance. -/
def freshProperties : Kind → List (String × α)
  | .saw | .sine | .square | .triangle | .custom => [("pitch", 440.0), ("detune", 0)]
  | .pulse => [("pitch", 440.0), ("detune", 0), ("pulsewidth", 0.5)]
  | .lfo => [("pitch", 5.0), ("depth", 1), ("offset", 0)]
  | .noise => [("level", 1)]
  | .lowPass | .highPass | .bandPass => [("cutoff", 1000.0), ("resonance", 1)]
  | .lowShelf | .highShelf => [("cutoff", 1000.0), ("gain", 0)]
  | .vca | .audio => [("level", 1)]
  | .pan => [("angle", 0)]
  | .delay => [("lag", 0.25)]
  | .shaper => [("fuzz", 0.5)]
  | .adsr =>
    [("attack", 0.1), ("decay", 0.1), ("sustain", 0.5), ("release", 0.1), ("level", 1)]
  | .decay => [("attack", 0.01), ("decay", 0.5), ("level", 1)]

/-- The role of a fresh instance; a kind that plays a wavetable needs one. -/
def freshRole (floor : α) (table : Option (Wavetable α)) : Kind → Option (Role ρ α)
  | .custom => table.map fun t => .oscillator (.custom t)
  | .noise => some .noise
  | .adsr => some (.stages [])
  | .decay => some (.fall floor [] (.constant 0) 0)
  | kind =>
    match Waveform.ofKind? kind with
    | some shape => some (.oscillator shape)
    | none => some .processor

/-- A fresh instance of a kind with the ports it offers by itself. -/
def standard (floor : α) (table : Option (Wavetable α)) (kind : Kind) :
    Except ModuleError (Instance ρ α) :=
  match freshRole floor table kind with
  | some role => .ok {
      kind, role
      ports := kind.standardPorts
      properties := .ofList ((freshProperties kind).map fun p => (p.1, Timeline.constant p.2)) }
  | none => .error (.needsWavetable kind)

end Arithmetic

end Instance
end SynthPatch
