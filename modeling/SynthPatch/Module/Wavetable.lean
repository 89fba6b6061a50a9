import SynthPatch.Json.Number
import SynthPatch.Json.Reader
import SynthPatch.Named
/-!
# Wavetables

A wavetable is a waveform given by its cosine and sine terms, as many of the one as of the other
and at least two.  Wavetables are kept by name and may be read from a document.

Main results:

- Theorem {lit}`Wavetable.fault?_eq_none_iff`: which tables are accepted.
- Function {lit}`Wavetables.ofDocument`: the tables of a document.
-/

namespace SynthPatch

/-- The terms of a waveform; the first of each kind is the constant. -/
structure Wavetable (α : Type) where
  /-- Cosine terms. -/
  real : List α
  /-- Sine terms. -/
  imag : List α
deriving DecidableEq, Repr

/-- Why a wavetable is not accepted. -/
inductive WavetableFault where
  | lengthMismatch (name : String) (real imag : Nat)
  | tooShort (name : String)
deriving DecidableEq, Repr

/-- Why wavetables cannot be read. -/
inductive WavetableError where
  /-- The text is not a document of wavetables. -/
  | malformed
  | invalid (fault : WavetableFault)
deriving DecidableEq, Repr

namespace WavetableFault

/-- The fault in words. -/
def message : WavetableFault → String
  | lengthMismatch name real imag =>
    s!"wavetable '{name}' has {real} real and {imag} imaginary coefficients"
  | tooShort name => s!"wavetable '{name}' needs at least two coefficients"

end WavetableFault

namespace Wavetable

variable {α : Type}

/-- What keeps a table of a name from being accepted. -/
def fault? (name : String) (table : Wavetable α) : Option WavetableFault :=
  if table.real.length ≠ table.imag.length then
    some (.lengthMismatch name table.real.length table.imag.length)
  else if table.real.length < 2 then some (.tooShort name)
  else none

/-- A table is accepted if it has as many terms of one kind as of the other, and at least two. -/
theorem fault?_eq_none_iff {name : String} {table : Wavetable α} :
    table.fault? name = none ↔
      table.real.length = table.imag.length ∧ 2 ≤ table.real.length := by
  unfold fault?
  grind

end Wavetable

/-- Wavetables by name. -/
abbrev Wavetables (α : Type) :=
  Named (Wavetable α)

namespace Wavetables

/-- Add a table, in place of any of the same name. -/
def add {α : Type} (tables : Wavetables α) (name : String) (table : Wavetable α) :
    Except WavetableFault (Wavetables α) :=
  match table.fault? name with
  | some fault => .error fault
  | none => .ok (tables.insert name table)

/-! ## Documents -/

/-- The numbers of a list in a document. -/
def termsOf : Json → Option (List Float)
  | .array items => items.mapM fun
    | .number text => DocumentNumber.toFloat? text
    | _ => none
  | _ => none

/-- A table whose terms are collected field by field; a field may come once, and fields of other
names are passed over. -/
def collectField (found : Option (List Float) × Option (List Float))
    (field : List Char × Json) : Option (Option (List Float) × Option (List Float)) := do
  let name ← Quoted.decode field.1
  if name = "real".toList then
    if found.1.isSome then none else return (some (← termsOf field.2), found.2)
  else if name = "imag".toList then
    if found.2.isSome then none else return (found.1, some (← termsOf field.2))
  else return found

/-- A table in a document: an object of its terms, or a list of the two lists. -/
def tableOf : Json → Option (Wavetable Float)
  | .object fields => do
    let (real, imag) ← fields.foldlM collectField (none, none)
    return ⟨← real, ← imag⟩
  | .array [real, imag] => do
    return ⟨← termsOf real, ← termsOf imag⟩
  | _ => none

/-- The tables of a document; of several with the same name the last counts. -/
def tablesOf : Json → Option (Wavetables Float)
  | .object fields => fields.foldlM (fun tables field => do
      let name ← Quoted.decode field.1
      return tables.insert (String.ofList name) (← tableOf field.2)) ∅
  | _ => none

/-- The tables of a document, all of them accepted; the first that is not ends the reading. -/
def ofDocument (text : String) : Except WavetableError (Wavetables Float) :=
  match (Json.read? text).bind tablesOf with
  | none => .error .malformed
  | some tables =>
    match tables.toList.findSome? fun (name, table) => table.fault? name with
    | some fault => .error (.invalid fault)
    | none => .ok tables

end Wavetables
end SynthPatch
