import Mathlib.Tactic.Positivity
import Mathlib.Tactic.Ring
import SynthPatch.Proofs.Decimal.Value
/-!
# Doubles told apart by their texts

The reals that round to one double and those that round to another have nothing in common: where
two intervals meet, one of the two whole numbers is odd and its interval open.  The shortest decimal
of a double lies in its interval, so the text of a finite double in any layout determines the
double, the sign of zero included.

Main results:

- Theorem {lit}`Binary.eq_of_rounds`: a number rounds to one magnitude only.
- Theorem {lit}`Binary.rounds_shortest`: the shortest decimal rounds to the magnitude.
- Theorem {lit}`Layout.write_injective`: finite doubles of one text are the same.
-/

namespace SynthPatch
namespace Binary

/-! ## Magnitudes of doubles -/

/-- The magnitude is that of a double. -/
structure Valid (x : Binary) : Prop where
  small : x.significand < 2 * fractions
  bounded : -1074 ≤ x.exponent
  subnormal : x.significand < fractions → x.exponent = -1074
  narrow : x.narrowBelow = true ↔ x.significand = fractions ∧ -1074 < x.exponent

theorem valid_ofFloat (x : Float) : (ofFloat x).Valid := by
  have fraction : x.toBits.toNat % fractions < fractions := Nat.mod_lt _ (by decide)
  unfold ofFloat
  dsimp only
  split
  · exact ⟨by dsimp only; omega, Int.le_refl _, fun _ => rfl, by simp⟩
  · next biased =>
      refine ⟨by dsimp only; omega, by dsimp only; omega, by dsimp only; omega, ?_⟩
      rw [decide_eq_true_iff]
      dsimp only
      omega

/-- The bits of a double are its sign and its magnitude. -/
theorem ofFloat_injective {x y : Float} (sign : isNegative x = isNegative y)
    (magnitude : ofFloat x = ofFloat y) : x = y := by
  have bits : x.toBits.toNat = y.toBits.toNat := by
    have xs := x.toBits.toNat_lt
    have ys := y.toBits.toNat_lt
    have sign : UInt64.size / 2 ≤ x.toBits.toNat ↔ UInt64.size / 2 ≤ y.toBits.toNat := by
      simpa [isNegative] using sign
    have size : UInt64.size / 2 = 0x8000000000000000 := by decide
    rw [size] at sign
    unfold ofFloat fractions at magnitude
    dsimp only at magnitude
    split at magnitude <;> split at magnitude <;> rw [Binary.mk.injEq] at magnitude <;> omega
  have same : x.toBits = y.toBits := UInt64.toNat_inj.1 bits
  obtain ⟨⟨_, _⟩⟩ := x
  obtain ⟨⟨_, _⟩⟩ := y
  cases show _ = _ from same
  rfl

/-! ## The interval -/

variable (x : Binary)

/-- How far the interval reaches below the magnitude, in quarters of the last place. -/
def slack : Nat :=
  if x.narrowBelow then 1 else 2

/-- The number rounds to the magnitude. -/
def Rounds (q : ℚ) : Prop :=
  if x.significand % 2 = 0 then
    ((4 * x.significand - x.slack : Nat) : ℚ) * 2 ^ x.exponent ≤ 4 * q ∧
      4 * q ≤ (4 * x.significand + 2) * 2 ^ x.exponent
  else
    ((4 * x.significand - x.slack : Nat) : ℚ) * 2 ^ x.exponent < 4 * q ∧
      4 * q < (4 * x.significand + 2) * 2 ^ x.exponent

variable {x} {y : Binary} {q : ℚ}

theorem Rounds.between (h : x.Rounds q) :
    ((4 * x.significand - x.slack : Nat) : ℚ) * 2 ^ x.exponent ≤ 4 * q ∧
      4 * q ≤ (4 * x.significand + 2) * 2 ^ x.exponent := by
  unfold Rounds at h
  split at h
  · exact h
  · exact ⟨h.1.le, h.2.le⟩

/-- The interval is open if the significand is odd. -/
theorem Rounds.inside (h : x.Rounds q) (odd : x.significand % 2 ≠ 0) :
    ((4 * x.significand - x.slack : Nat) : ℚ) * 2 ^ x.exponent < 4 * q ∧
      4 * q < (4 * x.significand + 2) * 2 ^ x.exponent := by
  unfold Rounds at h
  rwa [if_neg odd] at h

/-- A magnitude ends where the next begins at the latest; if just there, one of the two significands
is odd. -/
theorem meet (hx : x.Valid) (hy : y.Valid)
    (below : x.exponent < y.exponent ∨
      x.exponent = y.exponent ∧ x.significand < y.significand) :
    ∃ k : Nat, y.exponent = x.exponent + k ∧
      4 * x.significand + 2 ≤ (4 * y.significand - y.slack) * 2 ^ k ∧
      (4 * x.significand + 2 = (4 * y.significand - y.slack) * 2 ^ k →
        x.significand % 2 ≠ 0 ∨ y.significand % 2 ≠ 0) := by
  have small := hx.small
  have bounded := hx.bounded
  have subnormal := hy.subnormal
  have narrow := hy.narrow
  have slack : y.slack ≤ 2 ∧ (y.significand ≠ fractions → y.slack = 2) ∧
      (y.significand = fractions → -1074 < y.exponent → y.slack = 1) := by
    unfold slack
    split <;> simp_all
  obtain ⟨most, wide, tight⟩ := slack
  unfold fractions at *
  rcases below with lower | ⟨same, fewer⟩
  · -- the least double of the next power of two reaches down to where the last of this one ends
    obtain ⟨k, apart⟩ : ∃ k : Nat, y.exponent = x.exponent + (k + 1) :=
      ⟨(y.exponent - x.exponent - 1).toNat, by omega⟩
    have reach : 4 * x.significand + 2 ≤ (4 * y.significand - y.slack) * 2 ∧
        (4 * x.significand + 2 = (4 * y.significand - y.slack) * 2 → x.significand % 2 ≠ 0) := by
      by_cases least : y.significand = 0x10000000000000
      · have slack := tight least (by omega)
        omega
      · have slack := wide least
        omega
    have grows : (4 * y.significand - y.slack) * 2 ≤ (4 * y.significand - y.slack) * 2 ^ (k + 1) :=
      Nat.mul_le_mul_left _ (by rw [Nat.pow_succ]; have := Nat.two_pow_pos k; omega)
    refine ⟨k + 1, by omega, reach.1.trans grows, fun touch => .inl (reach.2 ?_)⟩
    exact Nat.le_antisymm reach.1 (by omega)
  · exact ⟨0, by omega, by omega, by omega⟩

/-- No number rounds to a magnitude and to one above it. -/
theorem not_rounds_of_below (hx : x.Valid) (hy : y.Valid)
    (below : x.exponent < y.exponent ∨ x.exponent = y.exponent ∧ x.significand < y.significand)
    (h : x.Rounds q) : ¬ y.Rounds q := by
  intro h'
  obtain ⟨k, apart, reach, parity⟩ := meet hx hy below
  have positive : (0 : ℚ) < 2 ^ x.exponent := by positivity
  have shift : ((4 * y.significand - y.slack : Nat) : ℚ) * 2 ^ y.exponent =
      ((4 * y.significand - y.slack) * 2 ^ k : Nat) * 2 ^ x.exponent := by
    rw [apart, zpow_add₀ (by norm_num), zpow_natCast]
    push_cast
    ring
  have touch : (((4 * y.significand - y.slack) * 2 ^ k : Nat) : ℚ) ≤
      (4 * x.significand + 2 : Nat) := by
    have low := h'.between.1
    have high := h.between.2
    rw [shift] at low
    have chain := low.trans high
    have := le_of_mul_le_mul_right chain positive
    exact_mod_cast this
  have same : 4 * x.significand + 2 = (4 * y.significand - y.slack) * 2 ^ k :=
    Nat.le_antisymm reach (by exact_mod_cast touch)
  rw [← same] at shift
  push_cast at shift
  rcases parity same with odd | odd
  · exact absurd (h.inside odd).2 (not_lt.2 (shift ▸ h'.between.1))
  · exact absurd (h'.inside odd).1 (not_lt.2 (shift ▸ h.between.2))

/-- A number rounds to one magnitude only. -/
theorem eq_of_rounds (hx : x.Valid) (hy : y.Valid) (h : x.Rounds q) (h' : y.Rounds q) : x = y := by
  have exponent : x.exponent = y.exponent := by
    rcases lt_trichotomy x.exponent y.exponent with below | same | above
    · exact absurd h' (not_rounds_of_below hx hy (.inl below) h)
    · exact same
    · exact absurd h (not_rounds_of_below hy hx (.inl above) h')
  have significand : x.significand = y.significand := by
    rcases lt_trichotomy x.significand y.significand with below | same | above
    · exact absurd h' (not_rounds_of_below hx hy (.inr ⟨exponent, below⟩) h)
    · exact same
    · exact absurd h (not_rounds_of_below hy hx (.inr ⟨exponent.symm, above⟩) h')
  have narrow : x.narrowBelow = y.narrowBelow := by
    rw [Bool.eq_iff_iff, hx.narrow, hy.narrow, exponent, significand]
  obtain ⟨_, _, _⟩ := x
  simp_all

/-! ## The shortest decimal -/

theorem cast_powerOfTen (places : Nat) : (Decimal.powerOfTen places : ℚ) = 10 ^ places := by
  rw [Decimal.powerOfTen, Nat.pow_eq, Nat.cast_pow, Nat.cast_ofNat]

/-- A power scaled by its negative part and its positive part. -/
theorem zpow_split {b : ℚ} (pos : b ≠ 0) (e : Int) :
    b ^ e = b ^ e.toNat / b ^ (-e).toNat := by
  rw [← zpow_natCast, ← zpow_natCast, ← zpow_sub₀ pos]
  congr 1
  omega

/-- A multiple of a quarter of the last place, counted in units over a power of ten. -/
theorem cast_shift (a : Nat) (step : Int) :
    ((a <<< x.exponent.toNat * Decimal.powerOfTen (-step).toNat : Nat) : ℚ) =
      a * 2 ^ x.exponent * (2 ^ (-x.exponent).toNat * 10 ^ (-step).toNat) := by
  rw [Nat.shiftLeft_eq, zpow_split (by norm_num) x.exponent]
  push_cast
  rw [cast_powerOfTen]
  field_simp

/-- A count of steps of a power of ten, counted in units over that power. -/
theorem cast_count (count : Nat) (step : Int) :
    ((count * (x.unit * Decimal.powerOfTen step.toNat) : Nat) : ℚ) =
      4 * Decimal.value ⟨count, step⟩ * (2 ^ (-x.exponent).toNat * 10 ^ (-step).toNat) := by
  rw [unit, Nat.shiftLeft_eq, Decimal.value, zpow_split (by norm_num) step]
  push_cast
  rw [cast_powerOfTen]
  field_simp

/-- What rounds on a grid rounds as a number. -/
theorem rounds_of_reads {step : Int} {count : Nat} (h : x.reads step count = true) :
    x.Rounds (Decimal.value ⟨count, step⟩) := by
  have scale : (0 : ℚ) < 2 ^ (-x.exponent).toNat * 10 ^ (-step).toNat := by positivity
  unfold reads holds lower upper at h
  change (if x.significand % 2 = 0 then
    decide ((4 * x.significand - x.slack) <<< x.exponent.toNat * _ ≤ _) && _
    else decide ((4 * x.significand - x.slack) <<< x.exponent.toNat * _ < _) && _) = true at h
  unfold Rounds
  split at h
  · next even =>
      rw [if_pos even]
      rw [Bool.and_eq_true, decide_eq_true_iff, decide_eq_true_iff, ← Nat.cast_le (α := ℚ),
        ← Nat.cast_le (α := ℚ), cast_shift, cast_shift, cast_count, mul_le_mul_iff_left₀ scale,
        mul_le_mul_iff_left₀ scale] at h
      exact_mod_cast h
  · next odd =>
      rw [if_neg odd]
      rw [Bool.and_eq_true, decide_eq_true_iff, decide_eq_true_iff, ← Nat.cast_lt (α := ℚ),
        ← Nat.cast_lt (α := ℚ), cast_shift, cast_shift, cast_count, mul_lt_mul_iff_left₀ scale,
        mul_lt_mul_iff_left₀ scale] at h
      exact_mod_cast h

/-- The magnitude rounds to itself. -/
theorem rounds_exact (h : x.significand ≠ 0) : x.Rounds x.exact.value := by
  have positive : (0 : ℚ) < 2 ^ x.exponent := by positivity
  have exact : x.exact.value = x.significand * 2 ^ x.exponent := by
    have places : min x.exponent 0 = -((-x.exponent).toNat : Int) := by omega
    rw [Binary.exact, Decimal.value, places, Nat.shiftLeft_eq, Nat.pow_eq, zpow_neg, zpow_natCast,
      zpow_split (by norm_num) x.exponent, show (10 : ℚ) = 2 * 5 by norm_num, mul_pow]
    push_cast
    field_simp
  have less : ((4 * x.significand - x.slack : Nat) : ℚ) < 4 * x.significand := by
    have slack : 0 < x.slack := by unfold slack; split <;> decide
    exact_mod_cast (show 4 * x.significand - x.slack < 4 * x.significand by omega)
  rw [exact]
  unfold Rounds
  split
  · constructor <;> nlinarith
  · constructor <;> nlinarith

/-- The shortest decimal rounds to the magnitude. -/
theorem rounds_shortest (tie : Decimal.Tie) : x.Rounds (x.shortest tie).value := by
  unfold shortest
  split
  · next none =>
      unfold Rounds
      rw [none, if_pos rfl]
      simp only [Decimal.value]
      norm_num
      positivity
  · next some =>
      cases found : (List.range 17).findSome? fun n : Nat => x.onGrid tie (x.magnitude - (n + 1))
        with
      | none => exact rounds_exact some
      | some d =>
          obtain ⟨n, -, hit⟩ := List.exists_of_findSome?_eq_some found
          obtain ⟨grid, reads⟩ := x.holds_of_onGrid hit
          rw [← grid] at reads
          exact rounds_of_reads reads

end Binary

/-! ## Texts -/

/-- The text of a decimal does not begin with a sign. -/
theorem Decimal.write_ne_minus (layout : Layout) (d : Decimal) (cs : List Char) :
    d.write layout ≠ '-' :: cs := by
  intro text
  obtain ⟨e, reads, -⟩ := exists_read_write layout d
  rw [text] at reads
  cases reads

/-- Finite doubles of one text are the same. -/
theorem Layout.write_injective (layout : Layout) {x y : Float} (hx : x.isFinite = true)
    (hy : y.isFinite = true) (text : layout.write x = layout.write y) : x = y := by
  have chars := congrArg String.toList text
  rw [toList_write layout hx, toList_write layout hy] at chars
  have sign : isNegative x = isNegative y := by
    cases negative : isNegative x with
    | false =>
        cases negative' : isNegative y with
        | false => rfl
        | true =>
            rw [negative, negative'] at chars
            exact absurd chars (Decimal.write_ne_minus layout _ _)
    | true =>
        cases negative' : isNegative y with
        | false =>
            rw [negative, negative'] at chars
            exact absurd chars.symm (Decimal.write_ne_minus layout _ _)
        | true => rfl
  rw [sign] at chars
  have words := List.append_cancel_left chars
  obtain ⟨d, reads, value⟩ :=
    Decimal.exists_read_write layout ((Binary.ofFloat x).shortest layout.tie)
  obtain ⟨e, reads', value'⟩ :=
    Decimal.exists_read_write layout ((Binary.ofFloat y).shortest layout.tie)
  obtain rfl : d = e := Option.some.inj (reads.symm.trans (words ▸ reads'))
  have rounds := Binary.rounds_shortest (x := Binary.ofFloat x) layout.tie
  have rounds' := Binary.rounds_shortest (x := Binary.ofFloat y) layout.tie
  rw [← value] at rounds
  rw [← value'] at rounds'
  exact Binary.ofFloat_injective sign
    (Binary.eq_of_rounds (Binary.valid_ofFloat x) (Binary.valid_ofFloat y) rounds rounds')

end SynthPatch
