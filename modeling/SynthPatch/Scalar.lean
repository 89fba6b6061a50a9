/-!
# The arithmetic of a voice

Expressions, automation timelines, envelopes and voices are written once, over any type of
numbers that has the operations below.  Double precision is the arithmetic a program runs in;
any exact arithmetic with the same operations gives the same definitions a reading without
rounding.

Main results:

- Instance {lit}`Scalar Float`: double precision, queued by {lit}`floatRank`.
- Theorem {lit}`Scalar.nonneg_of_pos`: a length of time above zero counts in full.
-/

namespace SynthPatch

/-- The numbers a voice is computed in, with the operations the patch language uses. -/
class Scalar (α : Type) extends
    Add α, Sub α, Mul α, Div α, Neg α, Zero α, One α, OfScientific α, LT α, LE α where
  /-- Strict comparison can be decided. -/
  decLt : DecidableLT α
  /-- Comparison can be decided. -/
  decLe : DecidableLE α
  /-- Natural logarithm. -/
  log : α → α
  /-- Natural exponential. -/
  exp : α → α
  /-- Power. -/
  pow : α → α → α
  /-- Neither infinite nor undefined. -/
  isFinite : α → Bool
  /-- The order in which points of time are queued; it also places values that compare with
  nothing. -/
  order : α → α → Ordering

namespace Scalar

variable {α : Type} [Scalar α]

instance : DecidableLT α := Scalar.decLt

instance : DecidableLE α := Scalar.decLe

/-- The two numbers compare as equal; signed zeros do, an undefined value never does. -/
def same (a b : α) : Bool :=
  a ≤ b && b ≤ a

/-- A length of time as far as it counts: what is not above zero counts as zero. -/
def nonneg (x : α) : α :=
  if 0 < x then x else 0

/-- The larger of two numbers; the first unless the second is above it. -/
def larger (a b : α) : α :=
  if a < b then b else a

theorem nonneg_of_pos {x : α} (h : 0 < x) : nonneg x = x := by
  simp [nonneg, h]

theorem nonneg_of_not_pos {x : α} (h : ¬ 0 < x) : nonneg x = 0 := by
  simp [nonneg, h]

end Scalar

/-! ## Double precision -/

/-- Place of a double in the total order that runs from the negative values of largest magnitude
to the positive ones; negative zero comes just before zero and an undefined value last. -/
def floatRank (x : Float) : Int :=
  let bits := x.toBits.toNat
  if bits < UInt64.size / 2 then bits else -(bits - UInt64.size / 2 : Nat) - 1

instance : Scalar Float where
  decLt := Float.decLt
  decLe := Float.decLe
  log := Float.log
  exp := Float.exp
  pow := Float.pow
  isFinite := Float.isFinite
  order := fun a b => compare (floatRank a) (floatRank b)

end SynthPatch
