import Mathlib
import SynthPatch.Double
/-!
# How doubles compare

Doubles that are defined compare like whole numbers: a double is counted from zero in steps from
one double to the next, and the two zeros count the same.  The order in which points of time are
queued tells the zeros apart and agrees with the comparison otherwise.

Main results:

- Theorem {lit}`Unpacked.compare_eq`: numbers in canonical form compare by their places.
- Theorems {lit}`Double.le_iff`, {lit}`Double.lt_iff`: defined doubles compare by their places.
- Theorem {lit}`Double.place_le_of_rank_le`: what is queued first is not above what comes behind.
-/

namespace SynthPatch

open Float.Model (UnpackedFloat Format)
open Float.Model.UnpackedFloat (Sign)

/-! ## Sign, significand and exponent -/

namespace Unpacked

/-- How many steps from one double to the next lead from zero to a magnitude that is not zero and
not infinite. -/
def steps (significand : Nat) (exponent : Int) : Int :=
  (exponent + 1074) * 0x10000000000000 + significand

/-- How many steps lead from zero to infinity. -/
def stepsToInfinity : Int :=
  0x7ff0000000000000

/-- Place of a number among all numbers, counted in steps from zero. -/
def place : UnpackedFloat → Int
  | .infinity s => s.apply stepsToInfinity
  | .notANumber | .zero _ => 0
  | .finite s m e _ => s.apply (steps m e)

/-- The significand and the exponent are those of a double: the significand is as large as it can
be, unless the exponent is as small as it can be. -/
structure Fits (significand : Nat) (exponent : Int) : Prop where
  positive : 0 < significand
  short : significand < 0x20000000000000
  least : -1074 ≤ exponent
  most : exponent ≤ 971
  full : significand < 0x10000000000000 → exponent = -1074

/-- The number is defined and in the form that doubles have. -/
inductive Canonical : UnpackedFloat → Prop
  | infinity (s : Sign) : Canonical (.infinity s)
  | zero (s : Sign) : Canonical (.zero s)
  | finite (s : Sign) {m : Nat} {e : Int} (fits : Fits m e) :
      Canonical (.finite s m e fits.positive)

/-- A magnitude lies between zero and infinity. -/
theorem Fits.steps_bounds {m : Nat} {e : Int} (h : Fits m e) :
    0 < steps m e ∧ steps m e < stepsToInfinity := by
  obtain ⟨positive, short, least, most, full⟩ := h
  unfold steps stepsToInfinity
  omega

/-- Magnitudes compare by their exponents first, then by their significands. -/
theorem Fits.compare_steps {m n : Nat} {e f : Int} (h : Fits m e) (k : Fits n f) :
    (compare e f).then (compare m n) = compare (steps m e) (steps n f) := by
  obtain ⟨-, short, least, -, full⟩ := h
  obtain ⟨-, short', least', -, full'⟩ := k
  unfold steps
  rcases Int.lt_trichotomy e f with below | rfl | above
  · rw [Int.compare_eq_lt.2 below, Int.compare_eq_lt.2 (by omega)]
    rfl
  · rw [Int.compare_eq_eq.2 rfl, Ordering.then]
    rcases Nat.lt_trichotomy m n with below | rfl | above
    · rw [Nat.compare_eq_lt.2 below, Int.compare_eq_lt.2 (by omega)]
    · rw [Nat.compare_eq_eq.2 rfl, Int.compare_eq_eq.2 rfl]
    · rw [Nat.compare_eq_gt.2 above, Int.compare_eq_gt.2 (by omega)]
  · rw [Int.compare_eq_gt.2 above, Int.compare_eq_gt.2 (by omega)]
    rfl

/-- Turning signs round turns the comparison round. -/
theorem compare_neg (i j : Int) : compare (-i) (-j) = (compare i j).swap := by
  rcases Int.lt_trichotomy i j with below | rfl | above
  · rw [Int.compare_eq_lt.2 below, Int.compare_eq_gt.2 (by omega)]
    rfl
  · rw [Int.compare_eq_eq.2 rfl, Int.compare_eq_eq.2 rfl]
    rfl
  · rw [Int.compare_eq_gt.2 above, Int.compare_eq_lt.2 (by omega)]
    rfl

/-- Numbers in canonical form compare by their places. -/
theorem compare_eq {a b : UnpackedFloat} (ha : Canonical a) (hb : Canonical b) :
    a.compare b = some (compare (place a) (place b)) := by
  have before {i j : Int} (h : i < j) : some Ordering.lt = some (compare i j) := by
    rw [Int.compare_eq_lt.2 h]
  have behind {i j : Int} (h : j < i) : some Ordering.gt = some (compare i j) := by
    rw [Int.compare_eq_gt.2 h]
  cases ha with
  | infinity s =>
      cases hb with
      | infinity t => cases s <;> cases t <;> decide
      | zero t => cases s <;> cases t <;> decide
      | finite t fits =>
          have bounds := fits.steps_bounds
          cases s
          · cases t <;> exact before (by simp only [place, Sign.apply]; omega)
          · cases t <;> exact behind (by simp only [place, Sign.apply]; omega)
  | zero s =>
      cases hb with
      | infinity t => cases s <;> cases t <;> decide
      | zero t => rfl
      | finite t fits =>
          have bounds := fits.steps_bounds
          cases t
          · exact behind (by simp only [place, Sign.apply]; omega)
          · exact before (by simp only [place, Sign.apply]; omega)
  | finite s fits =>
      have bounds := fits.steps_bounds
      cases hb with
      | infinity t =>
          cases t
          · exact behind (by cases s <;> simp only [place, Sign.apply] <;> omega)
          · exact before (by cases s <;> simp only [place, Sign.apply] <;> omega)
      | zero t =>
          cases s
          · exact before (by simp only [place, Sign.apply]; omega)
          · exact behind (by simp only [place, Sign.apply]; omega)
      | finite t fits' =>
          have bounds' := fits'.steps_bounds
          cases s <;> cases t
          · simp only [UnpackedFloat.compare, place, Sign.apply, compare_neg,
              fits.compare_steps fits']
          · exact before (by simp only [place, Sign.apply]; omega)
          · exact behind (by simp only [place, Sign.apply]; omega)
          · simp only [UnpackedFloat.compare, place, Sign.apply, fits.compare_steps fits']

/-! ## Bits -/

section Bits

variable (bits : BitVec Format.binary64.numBits)

theorem toNat_mantissa :
    (UnpackedFloat.unpackMantissa bits).toNat = bits.toNat % 0x10000000000000 := by
  simp [UnpackedFloat.unpackMantissa]

theorem toNat_exponent :
    (UnpackedFloat.unpackExponent bits).toNat = bits.toNat / 0x10000000000000 % 2048 := by
  simp [UnpackedFloat.unpackExponent, Nat.shiftRight_eq_div_pow]

theorem toNat_sign :
    (UnpackedFloat.unpackSign bits).toNat = bits.toNat / 0x8000000000000000 % 2 := by
  simp [UnpackedFloat.unpackSign, Nat.shiftRight_eq_div_pow]

/-- The bit in front of the significand of a normal number. -/
theorem toNat_leading (mantissa : BitVec 52) :
    (1#1 ++ mantissa).toNat = 0x10000000000000 + mantissa.toNat := by
  rw [BitVec.toNat_append, ← Nat.shiftLeft_add_eq_or_of_lt mantissa.isLt]
  simp [Nat.shiftLeft_eq]

/-- The place that bits stand for: the first of them is the sign, the others count steps. -/
def bitsPlace (bits : Nat) : Int :=
  if bits < 0x8000000000000000 then bits else -(bits - 0x8000000000000000 : Nat)

/-- The sign in front of the steps that the other bits count. -/
theorem apply_sign {steps : Int} (count : steps = (bits.toNat % 0x8000000000000000 : Nat)) :
    (Sign.ofBitVec (UnpackedFloat.unpackSign bits)).apply steps = bitsPlace bits.toNat := by
  have size : bits.toNat < 0x10000000000000000 := bits.isLt
  have sign := toNat_sign bits
  unfold bitsPlace
  by_cases positive : UnpackedFloat.unpackSign bits = 0#1
  · rw [Sign.ofBitVec, if_pos positive, Sign.apply, count]
    rw [positive, BitVec.toNat_zero] at sign
    rw [if_pos (by omega)]
    omega
  · rw [Sign.ofBitVec, if_neg positive, Sign.apply, count]
    have one : (UnpackedFloat.unpackSign bits).toNat ≠ 0 := by
      rwa [ne_eq, ← BitVec.toNat_zero, BitVec.toNat_inj]
    rw [if_neg (by omega)]
    omega

/-- The exponent that a magnitude has by its bits. -/
def bitsExponent : Int :=
  (UnpackedFloat.unpackExponent bits).toNat -
    (Format.binary64.exponentBias + Format.binary64.mantissaBitsWithoutImplicit)

theorem bitsExponent_eq :
    bitsExponent bits = ((bits.toNat / 0x10000000000000 % 2048 : Nat) : Int) - 1075 := by
  rw [bitsExponent, toNat_exponent]
  rfl

/-- Bits whose exponent is the smallest stand for zero, or for a magnitude below all others. -/
theorem steps_subnormal (least : UnpackedFloat.unpackExponent bits = 0#_)
    (some : UnpackedFloat.unpackMantissa bits ≠ 0#_) :
    Fits (UnpackedFloat.unpackMantissa bits).toNat (bitsExponent bits + 1) ∧
      steps (UnpackedFloat.unpackMantissa bits).toNat (bitsExponent bits + 1) =
        (bits.toNat % 0x8000000000000000 : Nat) := by
  have positive : (UnpackedFloat.unpackMantissa bits).toNat ≠ 0 := by
    intro same
    exact some (BitVec.toNat_inj.1 same)
  have zero : (UnpackedFloat.unpackExponent bits).toNat = 0 := by
    rw [least]
    rfl
  rw [toNat_exponent] at zero
  rw [toNat_mantissa] at positive ⊢
  have exponent := bitsExponent_eq bits
  unfold steps
  refine ⟨⟨?_, ?_, ?_, ?_, ?_⟩, ?_⟩ <;> omega

/-- Bits whose exponent is neither the smallest nor the largest stand for a normal magnitude. -/
theorem steps_normal (large : UnpackedFloat.unpackExponent bits ≠ 0#_)
    (small : UnpackedFloat.unpackExponent bits ≠ -1#_) :
    Fits (1#1 ++ UnpackedFloat.unpackMantissa bits).toNat (bitsExponent bits) ∧
      steps (1#1 ++ UnpackedFloat.unpackMantissa bits).toNat (bitsExponent bits) =
        (bits.toNat % 0x8000000000000000 : Nat) := by
  have notLeast : (UnpackedFloat.unpackExponent bits).toNat ≠ 0 := by
    intro same
    exact large (BitVec.toNat_inj.1 same)
  have notMost : (UnpackedFloat.unpackExponent bits).toNat ≠ 2047 := by
    intro same
    exact small (BitVec.toNat_inj.1 same)
  rw [toNat_exponent] at notLeast notMost
  have leading := toNat_leading (UnpackedFloat.unpackMantissa bits)
  rw [toNat_mantissa] at leading
  have exponent := bitsExponent_eq bits
  unfold steps
  refine ⟨⟨?_, ?_, ?_, ?_, ?_⟩, ?_⟩ <;> omega

/-- Bits that stand for a defined number stand for one in canonical form at their place. -/
theorem canonical_unpack (defined : (UnpackedFloat.unpack Format.binary64 bits).isNaN = false) :
    Canonical (UnpackedFloat.unpack Format.binary64 bits) ∧
      place (UnpackedFloat.unpack Format.binary64 bits) = bitsPlace bits.toNat := by
  have mantissa := toNat_mantissa bits
  have exponent := toNat_exponent bits
  by_cases largest : UnpackedFloat.unpackExponent bits = -1#_
  · by_cases none : UnpackedFloat.unpackMantissa bits = 0#_
    · have infinite : UnpackedFloat.unpack Format.binary64 bits =
          .infinity (Sign.ofBitVec (UnpackedFloat.unpackSign bits)) := by
        rw [UnpackedFloat.unpack, if_pos largest, if_pos none]
      have count : stepsToInfinity = (bits.toNat % 0x8000000000000000 : Nat) := by
        rw [largest] at exponent
        rw [none] at mantissa
        have exponent : 2047 = bits.toNat / 0x10000000000000 % 2048 := exponent
        have mantissa : 0 = bits.toNat % 0x10000000000000 := mantissa
        unfold stepsToInfinity
        omega
      rw [infinite]
      exact ⟨.infinity _, apply_sign bits count⟩
    · rw [UnpackedFloat.unpack, if_pos largest, if_neg none] at defined
      cases defined
  · by_cases least : UnpackedFloat.unpackExponent bits = 0#_
    · by_cases none : UnpackedFloat.unpackMantissa bits = 0#_
      · have zero : UnpackedFloat.unpack Format.binary64 bits =
            .zero (Sign.ofBitVec (UnpackedFloat.unpackSign bits)) := by
          rw [UnpackedFloat.unpack, if_neg largest, if_pos least, dif_pos none]
        rw [least] at exponent
        rw [none] at mantissa
        have exponent : 0 = bits.toNat / 0x10000000000000 % 2048 := exponent
        have mantissa : 0 = bits.toNat % 0x10000000000000 := mantissa
        have size : bits.toNat < 0x10000000000000000 := bits.isLt
        rw [zero]
        refine ⟨.zero _, ?_⟩
        change 0 = bitsPlace bits.toNat
        unfold bitsPlace
        split <;> omega
      · obtain ⟨fits, count⟩ := steps_subnormal bits least none
        have finite : UnpackedFloat.unpack Format.binary64 bits =
            .finite (Sign.ofBitVec (UnpackedFloat.unpackSign bits)) _ (bitsExponent bits + 1)
              fits.positive := by
          rw [UnpackedFloat.unpack, if_neg largest, if_pos least, dif_neg none]
          rfl
        rw [finite]
        exact ⟨.finite _ fits, apply_sign bits count⟩
    · obtain ⟨fits, count⟩ := steps_normal bits least largest
      have finite : UnpackedFloat.unpack Format.binary64 bits =
          .finite (Sign.ofBitVec (UnpackedFloat.unpackSign bits)) _ (bitsExponent bits)
            fits.positive := by
        rw [UnpackedFloat.unpack, if_neg largest, if_neg least]
        rfl
      rw [finite]
      exact ⟨.finite _ fits, apply_sign bits count⟩

end Bits

end Unpacked

/-! ## Doubles -/

namespace Double

/-- Place of a defined double among all numbers, counted in steps from zero. -/
def place (x : Double) : Int :=
  Unpacked.bitsPlace x.value.toBits.toNat

variable {a b c : Double}

/-- Defined doubles compare by their places. -/
theorem compare_unpack (ha : a.isUndefined = false) (hb : b.isUndefined = false) :
    a.value.toModel.unpack.compare b.value.toModel.unpack =
      some (compare a.place b.place) := by
  obtain ⟨canonical, placed⟩ := Unpacked.canonical_unpack a.value.toBits.toBitVec ha
  obtain ⟨canonical', placed'⟩ := Unpacked.canonical_unpack b.value.toBits.toBitVec hb
  have compared := Unpacked.compare_eq canonical canonical'
  rw [placed, placed'] at compared
  exact compared

theorem le_iff_compare :
    a ≤ b ↔ (a.value.toModel.unpack.compare b.value.toModel.unpack).any (·.isLE) = true := by
  change Float.le a.value b.value = true ↔ _
  rw [Float.le, decide_eq_true_iff]
  exact Iff.rfl

theorem le_iff (ha : a.isUndefined = false) (hb : b.isUndefined = false) :
    a ≤ b ↔ a.place ≤ b.place := by
  rw [le_iff_compare, compare_unpack ha hb]
  exact Int.isLE_compare

/-- A double that is at least another one is defined. -/
theorem defined_of_le (h : a ≤ b) : b.isUndefined = false := by
  rw [le_iff_compare] at h
  change b.value.toModel.unpack.isNaN = false
  generalize a.value.toModel.unpack = u at h
  generalize b.value.toModel.unpack = v at h
  cases v with
  | notANumber => cases u <;> cases h
  | _ => rfl

theorem lt_iff (ha : a.isUndefined = false) (hb : b.isUndefined = false) :
    a < b ↔ a.place < b.place := by
  have unfolded : a < b ↔
      (a.value.toModel.unpack.compare b.value.toModel.unpack == some .lt) = true := by
    change Float.lt a.value b.value = true ↔ _
    rw [Float.lt, decide_eq_true_iff]
    exact Iff.rfl
  rw [unfolded, compare_unpack ha hb]
  simp [Int.compare_eq_lt]

/-- Of two doubles that are defined, one is not above the other or is above it. -/
theorem not_le_iff (ha : a.isUndefined = false) (hb : b.isUndefined = false) :
    ¬ a ≤ b ↔ b < a := by
  rw [le_iff ha hb, lt_iff hb ha, Int.not_le]

/-- Nothing is below a double that is undefined, and it is below nothing. -/
theorem not_lt_of_isUndefined (h : a.isUndefined = true ∨ b.isUndefined = true) : ¬ a < b := by
  change (a.value.toModel.unpack.isNaN = true ∨ b.value.toModel.unpack.isNaN = true) at h
  change ¬ Float.lt a.value b.value = true
  rw [Float.lt, decide_eq_true_iff]
  change ¬ (a.value.toModel.unpack.compare b.value.toModel.unpack == some .lt) = true
  generalize a.value.toModel.unpack = u at h ⊢
  generalize b.value.toModel.unpack = v at h ⊢
  cases u with
  | notANumber => cases v <;> exact Bool.false_ne_true
  | _ =>
      cases v with
      | notANumber => exact Bool.false_ne_true
      | _ => simp [Float.Model.UnpackedFloat.isNaN] at h

/-- A double that is not below another one is at least that one, or they cannot be compared. -/
theorem not_lt_iff : ¬ b < a ↔ a ≤ b ∨ a.isUndefined = true ∨ b.isUndefined = true := by
  cases ha : a.isUndefined with
  | true =>
      have apart : ¬ b < a := not_lt_of_isUndefined (.inr ha)
      simp [apart]
  | false =>
      cases hb : b.isUndefined with
      | true =>
          have apart : ¬ b < a := not_lt_of_isUndefined (.inl hb)
          simp [apart]
      | false => simp [lt_iff hb ha, le_iff ha hb]

theorem le_trans (ha : a.isUndefined = false) (hb : b.isUndefined = false)
    (hc : c.isUndefined = false) (low : a ≤ b) (high : b ≤ c) : a ≤ c := by
  rw [le_iff ha hb] at low
  rw [le_iff hb hc] at high
  rw [le_iff ha hc]
  exact Int.le_trans low high

/-- Of two doubles that are defined, the one that is queued first is not above the other. -/
theorem place_le_of_rank_le (ha : a.isUndefined = false) (hb : b.isUndefined = false)
    (first : a.rank ≤ b.rank) : a.place ≤ b.place := by
  have size : UInt64.size / 2 = 0x8000000000000000 := by decide
  rw [rank_of_defined ha, rank_of_defined hb] at first
  simp only [floatRank, size] at first
  unfold place Unpacked.bitsPlace
  by_cases positive : a.value.toBits.toNat < 0x8000000000000000
  · rw [if_pos positive] at first ⊢
    split at first
    · next positive' => rwa [if_pos positive']
    · next negative' =>
        rw [if_neg negative']
        omega
  · rw [if_neg positive] at first ⊢
    split at first
    · next positive' =>
        rw [if_pos positive']
        omega
    · next negative' =>
        rw [if_neg negative']
        omega

end Double
end SynthPatch
