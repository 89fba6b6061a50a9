import SynthPatch.Expr.Evaluate
import SynthPatch.Patch.Report
import SynthPatch.Rack
/-!
# Voices

A voice is a patch as it sounds once: an instance of every module and of the sink, and the current
values of the parameters.  Building a voice makes the instances, connects the cables that carry a
signal, and gives every tweaked property its value; it stops at the first thing that fails.

Main results:

- Function {lit}`Voice.build`: the voice of a patch on a rack.
- Theorem {lit}`Voice.property?_modify`: a change reaches the property it is meant for only.
- Theorem {lit}`Voice.build_of_untweaked`: building a voice ends with the settings of its tweaks.
-/

namespace SynthPatch

/-! ## What can go wrong -/

/-- Why a voice cannot be built or changed. -/
inductive VoiceError (α : Type) where
  | invalidPatch (errors : List PatchError)
  | unknownModule (id : String)
  | module (id : String) (fault : ModuleError)
  /-- The expression of a tweak has no value. -/
  | tweak (target : Endpoint) (fault : EvalError α)
  /-- The expression of a tweak has a value no property can take. -/
  | notFinite (target : Endpoint) (value : α)
deriving DecidableEq, Repr

namespace VoiceError

/-- The error in words. -/
def message : VoiceError Float → String
  | invalidPatch errors =>
    "cannot play an invalid patch: " ++ "\n".intercalate (errors.map PatchError.message)
  | unknownModule id => s!"unknown module '{id}'"
  | module id fault => s!"module '{id}': {fault.message}"
  | tweak target fault => s!"tweak {target.text}: {fault.message}"
  | notFinite target value => s!"tweak {target.text} evaluates to {showNumber value}"

end VoiceError

/-- A patch as it sounds once. -/
structure Voice (α : Type) where
  patch : Patch α
  /-- The instances of the declared modules and of the sink, by the name of the module. -/
  modules : Named (Instance Endpoint α)
  /-- The current values of the parameters. -/
  values : Named α
  /-- The part of a note's duration that a bend takes if it is given no time. -/
  bendFraction : α

namespace Voice

variable {α : Type}

/-! ## Properties -/

/-- A property of a module. -/
def property? (v : Voice α) (target : Endpoint) : Option (Timeline α) :=
  v.modules[target.module]?.bind fun m => m.properties[target.port]?

/-- Change a property of a module. -/
def modify (v : Voice α) (target : Endpoint) (f : Timeline α → Timeline α) : Voice α :=
  { v with modules := v.modules.modify target.module fun m => m.modify target.port f }

/-- A change reaches the property it is meant for and no other. -/
theorem property?_modify (v : Voice α) (target other : Endpoint) (f : Timeline α → Timeline α) :
    (v.modify target f).property? other =
      if target = other then (v.property? other).map f else v.property? other := by
  obtain ⟨m, p⟩ := target
  obtain ⟨m', p'⟩ := other
  simp only [property?, modify, Instance.modify, Endpoint.mk.injEq,
    Std.ExtTreeMap.getElem?_modify, Std.LawfulEqCmp.compare_eq_iff_eq]
  by_cases hm : m = m'
  · subst hm
    cases v.modules[m]? with
    | none => simp
    | some i =>
      by_cases hp : p = p'
      · subst hp
        simp
      · simp [Std.ExtTreeMap.getElem?_modify, hp]
  · simp [hm]

/-- Give properties their values, one after the other. -/
def assign (v : Voice α) (settings : List (Endpoint × α)) : Voice α :=
  settings.foldl (fun v (target, value) => v.modify target (·.setValue value)) v

/-! ## Evaluating tweaks -/

/-- What expressions see while the parameters have the given values. -/
def scope (v : Voice α) (values : Named α) : Scope α where
  value name := values[name]?
  range := v.patch.range?

variable [Scalar α]

/-- The value that a tweak gives to its property while the parameters have the given values. -/
def evaluate (v : Voice α) (values : Named α) (draws : Draws α) (t : Tweak α) :
    Except (VoiceError α) α := do
  let value ← (t.value.evaluate (v.scope values) draws).mapError (.tweak t.target)
  if !Scalar.isFinite value then .error (.notFinite t.target value)
  else
    match v.modules[t.target.module]? with
    | none => .error (.unknownModule t.target.module)
    | some m =>
      if m.properties.contains t.target.port then .ok value
      else .error (.module t.target.module (.noProperty m.kind t.target.port))

/-- The property that a tweak at a place among the tweaks sets, with its value. -/
def setting (v : Voice α) (values : Named α) (draws : Nat → Draws α) (t : Tweak α × Nat) :
    Except (VoiceError α) (Endpoint × α) :=
  return (t.1.target, ← v.evaluate values (draws t.2) t.1)

/-- The properties that the chosen tweaks set, in the order of the tweaks, with their values. -/
def settings (v : Voice α) (values : Named α) (draws : Nat → Draws α) (chosen : Tweak α → Bool) :
    Except (VoiceError α) (List (Endpoint × α)) :=
  (v.patch.tweaks.zipIdx.filter fun t => chosen t.1).mapM (v.setting values draws)

/-! ## Building -/

/-- The declared modules and the sink. -/
def equipment (patch : Patch α) : List ModuleDecl :=
  patch.modules ++ [⟨sinkId, .audio, none⟩]

/-- Make the instance of a module. -/
def install (rack : Rack α) (patch : Patch α) (modules : Named (Instance Endpoint α))
    (decl : ModuleDecl) : Except (VoiceError α) (Named (Instance Endpoint α)) := do
  let m ← (rack.create decl.kind patch.tables[decl.id]?).mapError (.module decl.id)
  return modules.insert decl.id m

/-- Instances of the declared modules and of the sink. -/
def equip (rack : Rack α) (patch : Patch α) :
    Except (VoiceError α) (Named (Instance Endpoint α)) :=
  (equipment patch).foldlM (install rack patch) ∅

/-- Connect a cable between two instances. -/
def plug (modules : Named (Instance Endpoint α)) (c : Cable) :
    Except (VoiceError α) (Named (Instance Endpoint α)) :=
  if !modules.contains c.source.module then .error (.unknownModule c.source.module)
  else
    match modules[c.target.module]? with
    | none => .error (.unknownModule c.target.module)
    | some m => do
      let m ← (m.connect c.target.port c.source).mapError (.module c.target.module)
      return modules.insert c.target.module m

/-- The voice of a patch on a rack before its properties are tweaked; the given values replace the
defaults of the parameters. -/
def untweaked (rack : Rack α) (patch : Patch α) (overrides : Named α) :
    Except (VoiceError α) (Voice α) := do
  let modules ← patch.cables.foldlM plug (← equip rack patch)
  return {
    patch, modules
    values := patch.defaults ∪ overrides
    bendFraction := rack.config.bendFraction }

/-- The voice of a patch on a rack; the given values replace the defaults of the parameters. -/
def build (rack : Rack α) (patch : Patch α) (overrides : Named α) (draws : Nat → Draws α) :
    Except (VoiceError α) (Voice α) := do
  if !patch.isValid then .error (.invalidPatch patch.errors)
  else
    let v ← untweaked rack patch overrides
    return v.assign (← v.settings v.values draws fun _ => true)

/-- The voice of a patch that can be played is the untweaked one with all tweaks set. -/
theorem build_of_untweaked {rack : Rack α} {patch : Patch α} {overrides : Named α} {v : Voice α}
    (valid : patch.isValid = true) (h : untweaked rack patch overrides = .ok v)
    (draws : Nat → Draws α) :
    build rack patch overrides draws = (v.settings v.values draws fun _ => true).map v.assign := by
  simp only [build, valid, h, bind, Except.bind]
  cases v.settings v.values draws fun _ => true <;> rfl

end Voice
end SynthPatch
