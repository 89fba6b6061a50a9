import SynthPatch.Config.Basic
import SynthPatch.Module.Instance
import SynthPatch.Module.Registry
/-!
# The rack

The equipment a patch is compiled for and played on: the kinds at hand, the wavetables and the
configuration.

Main results:

- Theorem {lit}`Rack.create_eq_ok_iff`: what a rack makes of a kind.
-/

namespace SynthPatch

/-- The equipment of a patch. -/
structure Rack (α : Type) where
  config : Config α
  registry : Registry
  wavetables : Wavetables α

namespace Rack

/-- Every kind by itself, and no wavetables. -/
def standard : Rack Float where
  config := .standard
  registry := .standard
  wavetables := ∅

variable {ρ α : Type} [Scalar α]

/-- Make an instance of a kind, with the ports it declares on the rack. -/
def create (rack : Rack α) (kind : Kind) (table : Option (Wavetable α)) :
    Except ModuleError (Instance ρ α) :=
  match rack.registry.ports? kind with
  | none => .error (.unregistered kind)
  | some ports => (Instance.standard rack.config.decayFloor table kind).map (·.declare ports)

/-- What a rack makes of a kind is the fresh instance of that kind, with the ports that the kind
declares on the rack. -/
theorem create_eq_ok_iff {rack : Rack α} {kind : Kind} {table : Option (Wavetable α)}
    {m : Instance ρ α} :
    rack.create kind table = .ok m ↔
      ∃ ports role, rack.registry.ports? kind = some ports ∧
        Instance.freshRole rack.config.decayFloor table kind = some role ∧
        m = {
          kind, role, ports
          properties := .ofList
            ((Instance.freshProperties kind).map fun p => (p.1, Timeline.constant p.2)) } := by
  unfold create Instance.standard
  cases rack.registry.ports? kind with
  | none => simp
  | some ports =>
    cases Instance.freshRole rack.config.decayFloor table kind with
    | none => simp [Except.map]
    | some role => simp [Except.map, Instance.declare, eq_comm]

end Rack
end SynthPatch
