import SynthPatch.Yaml.Tree
/-!
# Anchors

A part of a document with an anchor can stand in other places, too.  Anchors are numbered by how
many names are known before them, so an anchor whose name is known already does not use up a number
of its own, and the next new name takes the same one.  A number stands for the last part that has
it.

Main results:

- Function {lit}`Anchors.part?`: the part that a number stands for.
- Theorem {lit}`Anchors.number?_define`: a name has the number of its last anchor.
- Theorem {lit}`Anchors.part?_define`: a part that is whole can be found by its number.
-/

namespace SynthPatch
namespace Yaml

/-- The anchors of a document. -/
structure Anchors where
  /-- The names with their numbers. -/
  names : List (String × Nat) := []
  /-- The number of each part that has an anchor, the last one first. -/
  numbers : List Nat := []
  /-- The parts that are whole, by their places among those that have an anchor. -/
  parts : List (Nat × Yaml) := []

namespace Anchors

/-- The number of a name. -/
def number? (anchors : Anchors) (name : String) : Option Nat :=
  anchors.names.lookup name

/-- The place of the next part among those that have an anchor. -/
def next (anchors : Anchors) : Nat :=
  anchors.numbers.length

/-- A part with an anchor begins. -/
def define (name : String) (anchors : Anchors) : Anchors where
  names := (name, anchors.names.length) :: anchors.names.filter (·.1 != name)
  numbers := anchors.names.length :: anchors.numbers
  parts := anchors.parts

/-- A part with an anchor is whole. -/
def complete (place : Nat) (part : Yaml) (anchors : Anchors) : Anchors :=
  { anchors with parts := (place, part) :: anchors.parts }

/-- The part that a number stands for. -/
def part? (anchors : Anchors) (number : Nat) : Option Yaml := do
  let later ← anchors.numbers.idxOf? number
  anchors.parts.lookup (anchors.numbers.length - 1 - later)

/-- The part itself, or the one that it stands for. -/
def resolve (anchors : Anchors) : Yaml → Yaml
  | reference number => (anchors.part? number).getD (reference number)
  | part => part

/-- A name has the number of its last anchor. -/
@[simp]
theorem number?_define (anchors : Anchors) (name : String) :
    (anchors.define name).number? name = some anchors.names.length := by
  simp [number?, define]

/-- A part that is whole can be found by its number. -/
theorem part?_define (anchors : Anchors) (name : String) (part : Yaml) :
    ((anchors.define name).complete anchors.next part).part? anchors.names.length = some part := by
  simp [part?, define, complete, next, List.idxOf?, List.findIdx?_cons]

end Anchors

/-- A document: a tree, and the anchors that its parts stand for. -/
structure Document where
  root : Yaml
  anchors : Anchors

end Yaml
end SynthPatch
