import SynthPatch.Decimal.Basic
/-!
# Doubles as exact numbers

A finite double is a whole number times a power of two.  The reals that round to it form an
interval: half way to the neighbour on either side, the ends belonging to it exactly when the
whole number is even.  Everything here is measured in fractions of {lit}`1 / Binary.unit`, so that
comparisons are between whole numbers.
-/

namespace SynthPatch

/-- The magnitude {lit}`significand * 2 ^ exponent` of a finite double. -/
structure Binary where
  /-- The whole number. -/
  significand : Nat
  /-- The power of two it is scaled by. -/
  exponent : Int
  /-- The neighbour below is half as far away as the neighbour above. -/
  narrowBelow : Bool
deriving Repr, DecidableEq

namespace Binary

/-- How many doubles share a sign and a power of two. -/
def fractions : Nat :=
  0x10000000000000

/-- The magnitude of a finite double. -/
def ofFloat (x : Float) : Binary :=
  let bits := x.toBits.toNat
  let biased : Nat := bits / fractions % 2048
  let fraction := bits % fractions
  if biased = 0 then ⟨fraction, -1074, false⟩
  else ⟨fractions + fraction, (biased : Int) - 1075, fraction = 0 ∧ 1 < biased⟩

variable (x : Binary)

/-- The fraction of one that everything is counted in. -/
def unit : Nat :=
  4 <<< (-x.exponent).toNat

/-- The magnitude, counted in units. -/
def scaled : Nat :=
  (4 * x.significand) <<< x.exponent.toNat

/-- Lower end of the reals that round to the magnitude, counted in units. -/
def lower : Nat :=
  (4 * x.significand - if x.narrowBelow then 1 else 2) <<< x.exponent.toNat

/-- Upper end of the reals that round to the magnitude, counted in units. -/
def upper : Nat :=
  (4 * x.significand + 2) <<< x.exponent.toNat

/-- The quotient of two whole numbers, counted in units, rounds to the magnitude. -/
def holds (num den : Nat) : Bool :=
  if x.significand % 2 = 0 then x.lower * den ≤ num && num ≤ x.upper * den
  else x.lower * den < num && num < x.upper * den

end Binary
end SynthPatch
