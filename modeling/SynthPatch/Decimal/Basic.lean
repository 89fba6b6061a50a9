/-!
# Decimals

Digits with a power of ten, and rounding of a quotient to the nearest whole number.

Main results:

- Theorem {lit}`Decimal.roundDiv_of_dvd`: a whole quotient is not changed by rounding.
- Theorems {lit}`Decimal.roundDiv_even_of_tie`, {lit}`Decimal.roundDiv_up_of_tie`: where a value
  just between two whole numbers goes.
-/

namespace SynthPatch

/-- The number {lit}`digits * 10 ^ exponent`. -/
structure Decimal where
  /-- The digits, read as a whole number. -/
  digits : Nat
  /-- The power of ten they are scaled by. -/
  exponent : Int
deriving Repr, DecidableEq

namespace Decimal

/-- Where a value goes that lies just between two candidates. -/
inductive Tie where
  /-- To the candidate with the even last digit. -/
  | toEven
  /-- To the larger candidate. -/
  | up
deriving DecidableEq

/-- The whole number nearest to a quotient. -/
def roundDiv (num den : Nat) (tie : Tie) : Nat :=
  let below := num / den
  let twice := 2 * (num % den)
  if twice < den then below
  else if den < twice then below + 1
  else match tie with
    | .up => below + 1
    | .toEven => below + below % 2

/-- A quotient that is whole stays as it is. -/
theorem roundDiv_of_dvd {num den : Nat} (tie : Tie) (pos : 0 < den) (h : den ∣ num) :
    roundDiv num den tie = num / den := by
  simp [roundDiv, Nat.mod_eq_zero_of_dvd h, pos]

/-- A value just between two whole numbers goes to the even one. -/
theorem roundDiv_even_of_tie {num den : Nat} (h : 2 * (num % den) = den) :
    roundDiv num den .toEven % 2 = 0 := by
  simp only [roundDiv, h, Nat.lt_irrefl, if_false]
  omega

/-- A value just between two whole numbers goes to the larger one. -/
theorem roundDiv_up_of_tie {num den : Nat} (h : 2 * (num % den) = den) :
    roundDiv num den .up = num / den + 1 := by
  simp [roundDiv, h]

/-- Ten to the power of a number of places. -/
def powerOfTen (places : Nat) : Nat :=
  Nat.pow 10 places

/-- How many digits a whole number is written with. -/
def digitCount (n : Nat) : Nat :=
  (Nat.toDigits 10 n).length

end Decimal
end SynthPatch
