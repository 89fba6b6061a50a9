import SynthPatch.Config.Basic
import SynthPatch.Yaml.Draft
/-!
# Reading a configuration

A configuration is written in YAML.  What is not written keeps its standard value, names that mean
nothing are passed over, and no name that means something may come twice.

Main results:

- Function {lit}`Config.ofDocument`: the configuration of a text.
- Theorem {lit}`Config.fault?_of_ofDocument`: a configuration that is read can be used.
-/

namespace SynthPatch

/-- Why a configuration cannot be read. -/
inductive ConfigError where
  /-- The text is not a configuration. -/
  | malformed
  | invalid (fault : ConfigFault Float)
deriving DecidableEq, Repr

namespace Config

/-! ## Fields -/

/-- What a field of a name changes, if its value can be read. -/
abbrev Field (β : Type) :=
  String × (Yaml.Anchors → Yaml → β → Option β)

/-- A field that holds a number. -/
def numberField {β : Type} (name : String) (set : β → Float → β) : Field β :=
  (name, fun _ y old => y.number?.map (set old))

/-- A value with the fields of a mapping filled in. -/
def readFields {β : Type} (fields : List (Field β)) (anchors : Yaml.Anchors) (y : Yaml)
    (start : β) : Option β := do
  let (_, value) ← (← y.entries?).foldlM (fun (found, value) (key, y) => do
    let name ← (anchors.resolve key).text?
    match fields.find? (·.1 = name) with
    | none => return (found, value)
    | some (_, change) =>
      if name ∈ found then none
      else return (name :: found, ← change anchors (anchors.resolve y) value)) ([], start)
  return value

/-- The fields of the bounds. -/
def limitFields : List (Field (Limits Float)) :=
  [numberField "pitch_min" fun l x => { l with pitchMin := x },
    numberField "pitch_max" fun l x => { l with pitchMax := x },
    numberField "pitch_default" fun l x => { l with pitchDefault := x },
    numberField "level_min" fun l x => { l with levelMin := x },
    numberField "level_max" fun l x => { l with levelMax := x },
    numberField "level_default" fun l x => { l with levelDefault := x }]

/-- The fields of a configuration. -/
def fields : List (Field (Config Float)) :=
  [("limits", fun anchors y c =>
      (readFields limitFields anchors y .standard).map fun l => { c with limits := l }),
    numberField "decay_floor" fun c x => { c with decayFloor := x },
    numberField "bend_fraction" fun c x => { c with bendFraction := x },
    ("noise_seed", fun _ y c => (y.natural? UInt64.size).map fun n =>
      { c with noiseSeed := UInt64.ofNat n }),
    numberField "noise_seconds" fun c x => { c with noiseSeconds := x },
    ("sample_rate", fun _ y c => (y.natural? UInt32.size).map fun n =>
      { c with sampleRate := UInt32.ofNat n }),
    ("wavetables", fun _ y c => y.optionalText?.map fun path => { c with wavetables := path })]

/-! ## Documents -/

/-- The configuration of a text, if it can be used. -/
def ofDocument (text : String) : Except ConfigError (Config Float) :=
  match (Yaml.read? text).bind fun d => readFields fields d.anchors d.root standard with
  | none => .error .malformed
  | some c =>
    match c.fault? with
    | some fault => .error (.invalid fault)
    | none => .ok c

/-- A configuration that is read can be used. -/
theorem fault?_of_ofDocument {text : String} {c : Config Float} (h : ofDocument text = .ok c) :
    c.fault? = none := by
  unfold ofDocument at h
  split at h
  · cases h
  · split at h
    · cases h
    · next hf => cases h; exact hf

end Config
end SynthPatch
