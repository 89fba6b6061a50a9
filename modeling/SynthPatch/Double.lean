import SynthPatch.Decimal.Numeral
import SynthPatch.Scalar
/-!
# Doubles that keep a sign when they are undefined

Arithmetic leaves a sign on an undefined value.  It shows in one place only: of the undefined points
of time, the negative ones are queued before all others and the positive ones behind.  An undefined
result has the sign of its first undefined operand; one that arises from operands that are all
defined is negative.

Main results:

- Instance {lit}`Scalar Double`: double precision with these signs.
- Theorem {lit}`Double.rank_of_defined`: the sign plays no part for a number that is defined.
- Theorem {lit}`Double.negative_add`: which sign an undefined sum has.
-/

namespace SynthPatch

/-- A double, and the sign it has if it is undefined. -/
structure Double where
  value : Float
  negative : Bool := false

namespace Double

/-- The number is not defined. -/
def isUndefined (x : Double) : Bool :=
  x.value.isNaN

/-- A number that is defined, or an undefined one that is positive. -/
def ofFloat (value : Float) : Double where
  value

/-- A number as it is written; a sign in front of an undefined one counts. -/
def read? (text : List Char) : Option Double :=
  (readFloat text).map fun value => { value, negative := text.head? = some '-' }

/-- The result of an operation on numbers. -/
def ofOperands (operands : List Double) (value : Float) : Double where
  value
  negative := ((operands.find? isUndefined).map (·.negative)).getD true

/-- Place of a number in the total order in which points of time are queued. -/
def rank (x : Double) : Int :=
  if x.isUndefined && x.negative then -floatRank x.value - 1 else floatRank x.value

/-- The sign plays no part for a number that is defined. -/
theorem rank_of_defined {x : Double} (h : x.isUndefined = false) : x.rank = floatRank x.value := by
  simp [rank, h]

instance : Scalar Double where
  add a b := ofOperands [a, b] (a.value + b.value)
  sub a b := ofOperands [a, b] (a.value - b.value)
  mul a b := ofOperands [a, b] (a.value * b.value)
  div a b := ofOperands [a, b] (a.value / b.value)
  neg a := ⟨-a.value, !a.negative⟩
  zero := ofFloat 0
  one := ofFloat 1
  ofScientific digits small places := ofFloat (OfScientific.ofScientific digits small places)
  lt a b := a.value < b.value
  le a b := a.value ≤ b.value
  decLt a b := Float.decLt a.value b.value
  decLe a b := Float.decLe a.value b.value
  log a := ofOperands [a] a.value.log
  exp a := ofOperands [a] a.value.exp
  pow a b := ofOperands [a, b] (a.value.pow b.value)
  isFinite a := a.value.isFinite
  order a b := compare a.rank b.rank

/-- An undefined sum has the sign of the first operand that is undefined, and is negative if there
is none. -/
theorem negative_add (a b : Double) :
    (a + b).negative =
      if a.isUndefined then a.negative else if b.isUndefined then b.negative else true := by
  change (ofOperands [a, b] _).negative = _
  cases ha : a.isUndefined <;> cases hb : b.isUndefined <;> simp [ofOperands, ha, hb]

end Double
end SynthPatch
