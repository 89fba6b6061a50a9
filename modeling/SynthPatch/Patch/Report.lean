import SynthPatch.Patch.Basic
import SynthPatch.Scalar
/-!
# What is to be said about a patch

A patch can be compiled and still not be playable; these are its errors.  Warnings are about what
is probably not meant, and never keep a patch from being played.

Main results:

- Theorem {lit}`Patch.isValid_iff`: which patches can be played.
-/

namespace SynthPatch

/-- What keeps a patch from being played. -/
inductive PatchError where
  | nothingPatched
  | noModules
  /-- No signal reaches the sink. -/
  | silent
  | unknownTable (table id : String)
deriving DecidableEq, Repr

/-- What is probably not meant. -/
inductive PatchWarning (α : Type) where
  | unused (name : String)
  /-- No signal reaches the sink. -/
  | silent
  | maxBelowMin (name : String) (max min : α)
  | defaultBelowMin (name : String) (default min : α)
  | defaultAboveMax (name : String) (default max : α)
deriving DecidableEq, Repr

namespace PatchError

/-- The error in words. -/
def message : PatchError → String
  | nothingPatched => "nothing is patched"
  | noModules => "no modules are declared"
  | silent => "nothing is patched into audio.in"
  | unknownTable table id => s!"unknown wavetable '{table}' on module '{id}'"

end PatchError

namespace PatchWarning

/-- The warning in words. -/
def message : PatchWarning Float → String
  | unused name => s!"param.{name} is not used by any tweak"
  | silent => PatchError.silent.message
  | maxBelowMin name max min =>
    s!"parameter '{name}': max {showNumber max} is below min {showNumber min}"
  | defaultBelowMin name default min =>
    s!"parameter '{name}': default {showNumber default} is below min {showNumber min}"
  | defaultAboveMax name default max =>
    s!"parameter '{name}': default {showNumber default} is above max {showNumber max}"

end PatchWarning

namespace Patch

variable {α : Type}

/-- The input of the sink. -/
def sinkInput : Endpoint :=
  ⟨sinkId, "in"⟩

/-- A signal reaches the sink. -/
def feedsSink (p : Patch α) : Bool :=
  p.cables.any (·.target = sinkInput)

/-! ## Errors -/

/-- The modules whose wavetable is not known. -/
def unknownTables (p : Patch α) : List PatchError :=
  p.modules.filterMap fun m =>
    match m.table with
    | some table => if p.tables.contains m.id then none else some (.unknownTable table m.id)
    | none => none

/-- Everything that keeps a patch from being played. -/
def errors (p : Patch α) : List PatchError :=
  (if p.cables.isEmpty && p.envelopes.isEmpty then [.nothingPatched] else []) ++
    (if p.modules.isEmpty then [.noModules] else []) ++
    (if p.feedsSink then [] else [.silent]) ++
    p.unknownTables

/-- The patch can be played. -/
def isValid (p : Patch α) : Bool :=
  p.errors.isEmpty

/-- A patch can be played if it has modules, a signal reaches the sink and every wavetable is
known. -/
theorem isValid_iff {p : Patch α} :
    p.isValid = true ↔ p.modules ≠ [] ∧ p.feedsSink = true ∧ p.unknownTables = [] := by
  have fed : p.feedsSink = true → p.cables.isEmpty = false := by
    intro h
    cases hc : p.cables with
    | nil => simp [feedsSink, hc] at h
    | cons c r => rfl
  unfold isValid errors
  cases hf : p.feedsSink
  · simp
  · simp [fed hf]

/-- The errors in words. -/
def errorText (p : Patch α) : String :=
  "\n".intercalate (p.errors.map PatchError.message)

/-! ## Warnings -/

variable [Scalar α]

/-- What is odd about the bounds of a parameter. -/
def boundWarnings (p : Parameter α) : List (PatchWarning α) :=
  (if p.max < p.min then [.maxBelowMin p.name p.max p.min] else []) ++
    (if p.default < p.min then [.defaultBelowMin p.name p.default p.min] else []) ++
    (if p.max < p.default then [.defaultAboveMax p.name p.default p.max] else [])

/-- Everything that is probably not meant. -/
def warnings (p : Patch α) : List (PatchWarning α) :=
  (implicitParameters.filter fun name => !p.tweaks.any (·.value.references name)).map .unused ++
    (if p.feedsSink then [] else [.silent]) ++
    p.parameters.flatMap boundWarnings

/-- The warnings in words. -/
def warningText (p : Patch Float) : String :=
  "\n".intercalate (p.warnings.map PatchWarning.message)

end Patch
end SynthPatch
