import SynthPatch.Decimal.Binary
/-!
# The fewest digits that read back

Among the decimals that round to a given double, the one with the fewest digits is chosen, and of
those with the same number of digits the one nearest to the double.  Two neighbours can be equally
near; which of them is taken is left to the caller.

Main results:

- Function {lit}`Binary.shortest`: the decimal chosen for a magnitude.
- Theorem {lit}`Binary.holds_of_onGrid`: what a grid yields rounds to the magnitude.
-/

namespace SynthPatch
namespace Binary

variable (x : Binary)

/-- The least power of ten above the magnitude, by its exponent. -/
def magnitude : Int :=
  if x.unit ≤ x.scaled then Decimal.digitCount (x.scaled / x.unit)
  else
    let zeros := Decimal.digitCount (x.unit / x.scaled) - 1
    if x.scaled * Decimal.powerOfTen zeros = x.unit then 1 - (zeros : Int) else -(zeros : Int)

/-- The magnitude as a quotient counted in steps of a power of ten. -/
def inSteps (step : Int) : Nat × Nat :=
  (x.scaled * Decimal.powerOfTen (-step).toNat, x.unit * Decimal.powerOfTen step.toNat)

/-- A count of steps of a power of ten rounds to the magnitude. -/
def reads (step : Int) (count : Nat) : Bool :=
  x.holds (count * (x.unit * Decimal.powerOfTen step.toNat)) (Decimal.powerOfTen (-step).toNat)

/-- The nearest decimal on a grid that rounds to the magnitude, if a neighbour of it does. -/
def onGrid (tie : Decimal.Tie) (step : Int) : Option Decimal :=
  let (num, den) := x.inSteps step
  let below := num / den
  let nearest := Decimal.roundDiv num den tie
  if x.reads step nearest then some ⟨nearest, step⟩
  else if x.reads step below then some ⟨below, step⟩
  else if x.reads step (below + 1) then some ⟨below + 1, step⟩
  else none

/-- The magnitude itself, written out in full. -/
def exact : Decimal :=
  ⟨(x.significand <<< x.exponent.toNat) * Nat.pow 5 (-x.exponent).toNat, min x.exponent 0⟩

/-- The decimal with the fewest digits that rounds to the magnitude. -/
def shortest (tie : Decimal.Tie) : Decimal :=
  if x.significand = 0 then ⟨0, 0⟩
  else ((List.range 17).findSome? fun n : Nat => x.onGrid tie (x.magnitude - (n + 1))).getD x.exact

/-- A decimal found on a grid lies on that grid and rounds to the magnitude. -/
theorem holds_of_onGrid {tie : Decimal.Tie} {step : Int} {d : Decimal}
    (h : x.onGrid tie step = some d) : d.exponent = step ∧ x.reads step d.digits = true := by
  unfold onGrid at h
  simp only at h
  split at h
  · next hit => cases h; exact ⟨rfl, hit⟩
  · split at h
    · next hit => cases h; exact ⟨rfl, hit⟩
    · split at h
      · next hit => cases h; exact ⟨rfl, hit⟩
      · cases h

end Binary
end SynthPatch
