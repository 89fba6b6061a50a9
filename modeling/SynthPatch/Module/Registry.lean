import SynthPatch.Module.Kind
/-!
# The registry of kinds

A registry says which kinds of modules are at hand and which ports each of them declares.  A kind
may declare other ports than it offers by itself.

Main results:

- Theorem {lit}`Registry.ports?_register`: what a registry knows after a kind was registered.
- Theorem {lit}`Registry.ports?_ofKinds`: exactly the kinds that were asked for are at hand.
- Theorem {lit}`Registry.ports?_standard`: the standard registry knows every kind by itself.
-/

namespace SynthPatch

/-- The kinds at hand, with the ports each declares. -/
structure Registry where
  /-- The ports of a kind, if it is at hand. -/
  ports? : Kind → Option Ports

namespace Registry

/-- No kind is at hand. -/
def empty : Registry :=
  ⟨fun _ => none⟩

/-- Make a kind available with the given ports, in place of any it had before. -/
def register (r : Registry) (kind : Kind) (ports : Ports) : Registry :=
  ⟨fun k => if k = kind then some ports else r.ports? k⟩

/-- What a registry knows after a kind was registered. -/
@[simp]
theorem ports?_register (r : Registry) (kind k : Kind) (ports : Ports) :
    (r.register kind ports).ports? k = if k = kind then some ports else r.ports? k :=
  rfl

/-- Make a kind available with the ports it offers by itself. -/
def add (r : Registry) (kind : Kind) : Registry :=
  r.register kind kind.standardPorts

/-- Exactly the given kinds, each with its own ports. -/
def ofKinds (kinds : List Kind) : Registry :=
  kinds.foldl add empty

/-- Exactly the kinds that were asked for are at hand, each with its own ports. -/
theorem ports?_ofKinds (kinds : List Kind) (k : Kind) :
    (ofKinds kinds).ports? k = if k ∈ kinds then some k.standardPorts else none := by
  -- The induction is on the kinds still to come, over what is registered so far.
  suffices general : ∀ r : Registry,
      (kinds.foldl add r).ports? k = if k ∈ kinds then some k.standardPorts else r.ports? k from
    general empty
  induction kinds with
  | nil => simp
  | cons first rest ih =>
    intro r
    rw [List.foldl_cons, ih, add, ports?_register]
    by_cases here : k = first
    · simp [here]
    · simp [here]

/-- Every kind, each with its own ports. -/
def standard : Registry :=
  ofKinds Kind.all

/-- The standard registry knows every kind by itself. -/
@[simp]
theorem ports?_standard (k : Kind) : standard.ports? k = some k.standardPorts := by
  rw [standard, ports?_ofKinds, if_pos k.mem_all]

end Registry
end SynthPatch
