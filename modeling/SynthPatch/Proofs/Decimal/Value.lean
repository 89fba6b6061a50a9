import Mathlib.Algebra.Order.Field.Power
import Mathlib.Data.List.TakeWhile
import Mathlib.Tactic.FieldSimp
import Mathlib.Tactic.Linarith
import SynthPatch.Proofs.Decimal.Writing
/-!
# The value of a decimal

However a decimal is laid out, the number that stands there is the decimal: the text reads back to
one of the same value, if not with the same digits.

Main results:

- Definition {lit}`Decimal.value`: the number that a decimal is.
- Theorems {lit}`Decimal.exists_read_placePoint`, {lit}`Decimal.exists_read_placePower`: the value
  of digits in either notation.
- Theorem {lit}`Decimal.exists_read_write`: a text in any layout has the value that was written.
-/

namespace SynthPatch
namespace Decimal

/-- The number that a decimal is. -/
def value (d : Decimal) : ℚ :=
  d.digits * (10 : ℚ) ^ d.exponent

/-! ## Digits -/

theorem isDigit_zeros (count : Nat) : ∀ c ∈ List.replicate count '0', c.isDigit = true := by
  intro c mem
  rw [List.eq_of_mem_replicate mem]
  decide

theorem ofDigitChars_zeros (count : Nat) (cs : List Char) :
    Nat.ofDigitChars 10 (List.replicate count '0' ++ cs) 0 = Nat.ofDigitChars 10 cs 0 := by
  rw [Nat.ofDigitChars_append, Nat.ofDigitChars_replicate_zero, Nat.mul_zero]

theorem ofDigitChars_append_zeros (cs : List Char) (count : Nat) :
    Nat.ofDigitChars 10 (cs ++ List.replicate count '0') 0 =
      Nat.ofDigitChars 10 cs 0 * 10 ^ count := by
  rw [Nat.ofDigitChars_append, Nat.ofDigitChars_replicate_zero, Nat.mul_comm]

/-- What is taken off at the end are zeros. -/
theorem exists_zeros (cs : List Char) :
    ∃ count, cs = stripZeros cs ++ List.replicate count '0' := by
  have split := List.takeWhile_append_dropWhile (p := (· == '0')) (l := cs.reverse)
  have zeros : cs.reverse.takeWhile (· == '0') =
      List.replicate (cs.reverse.takeWhile (· == '0')).length '0' :=
    List.eq_replicate_of_mem fun c mem => by simpa using List.mem_takeWhile_imp mem
  refine ⟨(cs.reverse.takeWhile (· == '0')).length, ?_⟩
  rw [stripZeros, ← List.reverse_inj, List.reverse_append, List.reverse_reverse,
    List.reverse_replicate, ← zeros, split]

theorem isDigit_of_mem_stripZeros {n : Nat} {c : Char}
    (mem : c ∈ stripZeros (Nat.toDigits 10 n)) : c.isDigit = true := by
  obtain ⟨count, zeros⟩ := exists_zeros (Nat.toDigits 10 n)
  refine Nat.isDigit_of_mem_toDigits (by decide) (by decide) (n := n) (b := 10) ?_
  rw [zeros]
  exact List.mem_append_left _ mem

/-- A number other than zero keeps digits. -/
theorem stripZeros_ne_nil {n : Nat} (positive : n ≠ 0) : stripZeros (Nat.toDigits 10 n) ≠ [] := by
  intro empty
  obtain ⟨count, zeros⟩ := exists_zeros (Nat.toDigits 10 n)
  have number := Nat.ofDigitChars_ten_toDigits (n := n)
  rw [zeros, empty, ofDigitChars_append_zeros] at number
  exact positive (by simpa [Nat.ofDigitChars] using number.symm)

/-! ## Reading -/

/-- A row of digits ends where something else stands. -/
theorem span_digits {cs rest : List Char} (digits : ∀ c ∈ cs, c.isDigit = true)
    (stops : ∀ c ∈ rest.head?, c.isDigit = false) :
    (cs ++ rest).takeWhile Char.isDigit = cs ∧ (cs ++ rest).dropWhile Char.isDigit = rest := by
  rw [List.takeWhile_append_of_pos digits, List.dropWhile_append_of_pos digits]
  cases rest with
  | nil => simp
  | cons c more => simp [stops c rfl]

/-- Digits, perhaps a point and more digits, and perhaps a power are read as they stand. -/
theorem read_figures (whole fraction point tail : List Char)
    (digits : ∀ c ∈ whole ++ fraction, c.isDigit = true) (filled : whole ≠ [])
    (pointed : point = '.' :: fraction ∨ point = [] ∧ fraction = [])
    (stops : ∀ c ∈ tail.head?, c.isDigit = false ∧ c ≠ '.') :
    read (whole ++ (point ++ tail)) = (Numeral.readPower tail).map fun power =>
      ⟨Nat.ofDigitChars 10 (whole ++ fraction) 0, power - fraction.length⟩ := by
  have front : ∀ c ∈ (point ++ tail).head?, c.isDigit = false := by
    rcases pointed with rfl | ⟨rfl, -⟩
    · simp
    · exact fun c mem => (stops c mem).1
  have split : Numeral.splitFraction (point ++ tail) = (fraction, tail) := by
    rcases pointed with rfl | ⟨rfl, rfl⟩
    · obtain ⟨taken, left⟩ := span_digits (fun c mem => digits c (List.mem_append_right _ mem))
        fun c mem => (stops c mem).1
      simp [Numeral.splitFraction, taken, left]
    · unfold Numeral.splitFraction
      split
      · next rest same => exact absurd rfl (stops '.' (by simp_all)).2
      · rfl
  obtain ⟨taken, left⟩ := span_digits (fun c mem => digits c (List.mem_append_left _ mem)) front
  simp [read, taken, left, split, filled]

/-! ## Notations -/

/-- A whole part and a fraction stand for their digits, as many places down as the fraction has. -/
theorem read_point {whole fraction : List Char}
    (digits : ∀ c ∈ whole ++ fraction, c.isDigit = true) (filled : whole ≠ []) :
    read (whole ++ '.' :: fraction) =
      some ⟨Nat.ofDigitChars 10 (whole ++ fraction) 0, -fraction.length⟩ := by
  have figures := read_figures whole fraction _ [] digits filled (.inl rfl) (by simp)
  simpa [Numeral.readPower] using figures

/-- Zeros behind the point move digits down. -/
theorem exists_read_below {cs : List Char} {lead : Int} (digits : ∀ c ∈ cs, c.isDigit = true)
    (small : lead ≤ 0) :
    ∃ e, read ('0' :: '.' :: List.replicate (-lead).toNat '0' ++ cs) = some e ∧
      e.value = Nat.ofDigitChars 10 cs 0 * (10 : ℚ) ^ (lead - cs.length) := by
  have isDigit : ∀ c ∈ ['0'] ++ (List.replicate (-lead).toNat '0' ++ cs), c.isDigit = true :=
    List.forall_mem_append.2 ⟨isDigit_zeros 1, List.forall_mem_append.2 ⟨isDigit_zeros _, digits⟩⟩
  refine ⟨_, read_point isDigit (by simp), ?_⟩
  have number : Nat.ofDigitChars 10 (['0'] ++ (List.replicate (-lead).toNat '0' ++ cs)) 0 =
      Nat.ofDigitChars 10 cs 0 := by
    rw [← List.append_assoc]
    exact ofDigitChars_zeros ((-lead).toNat + 1) cs
  have places : -((List.replicate (-lead).toNat '0' ++ cs).length : Int) = lead - cs.length := by
    rw [List.length_append, List.length_replicate]
    omega
  rw [value, number, places]

/-- A point among digits moves them down by those that stand behind it. -/
theorem exists_read_within {cs : List Char} {lead : Nat} (digits : ∀ c ∈ cs, c.isDigit = true)
    (front : cs.take lead ≠ []) (short : lead ≤ cs.length) :
    ∃ e, read (cs.take lead ++ '.' :: cs.drop lead) = some e ∧
      e.value = Nat.ofDigitChars 10 cs 0 * (10 : ℚ) ^ ((lead : Int) - cs.length) := by
  have isDigit : ∀ c ∈ cs.take lead ++ cs.drop lead, c.isDigit = true := by
    rwa [List.take_append_drop]
  refine ⟨_, read_point isDigit front, ?_⟩
  have places : -((cs.drop lead).length : Int) = lead - cs.length := by
    rw [List.length_drop]
    omega
  rw [value, List.take_append_drop, places]

/-- Zeros behind digits move them up, and a point with a zero behind them does not. -/
theorem exists_read_above (showsPoint : Bool) {cs : List Char} (count : Nat)
    (digits : ∀ c ∈ cs, c.isDigit = true) (filled : cs ≠ []) :
    ∃ e, read (if showsPoint then cs ++ List.replicate count '0' ++ ['.', '0']
        else cs ++ List.replicate count '0') = some e ∧
      e.value = Nat.ofDigitChars 10 cs 0 * (10 : ℚ) ^ count := by
  have isDigit : ∀ c ∈ cs ++ List.replicate count '0', c.isDigit = true :=
    List.forall_mem_append.2 ⟨digits, isDigit_zeros count⟩
  have start : cs ++ List.replicate count '0' ≠ [] := by simp [filled]
  split
  · refine ⟨_, read_point (List.forall_mem_append.2 ⟨isDigit, isDigit_zeros 1⟩) start, ?_⟩
    rw [value, show ['0'] = List.replicate 1 '0' from rfl, ofDigitChars_append_zeros,
      ofDigitChars_append_zeros]
    simp
  · have figures := read_figures (cs ++ List.replicate count '0') [] [] [] (by simpa using isDigit)
      start (.inr ⟨rfl, rfl⟩) (by simp)
    simp only [List.append_nil] at figures
    refine ⟨_, figures, ?_⟩
    rw [value, ofDigitChars_append_zeros]
    simp

/-- Digits around a point stand for the digits, the last of them as far down as it is behind the
point. -/
theorem exists_read_placePoint (showsPoint : Bool) {cs : List Char} (lead : Int)
    (digits : ∀ c ∈ cs, c.isDigit = true) (filled : cs ≠ []) :
    ∃ e, read (placePoint showsPoint cs lead) = some e ∧
      e.value = Nat.ofDigitChars 10 cs 0 * (10 : ℚ) ^ (lead - cs.length) := by
  unfold placePoint
  split
  · next small => exact exists_read_below digits small
  · next large =>
      obtain ⟨n, rfl⟩ : ∃ n : Nat, lead = n + 1 := ⟨(lead - 1).toNat, by omega⟩
      have nat : ((n : Int) + 1).toNat = n + 1 := by omega
      rw [nat]
      by_cases short : n + 1 < cs.length
      · have padding : n + 1 - cs.length = 0 := by omega
        have front : cs.take (n + 1) ≠ [] := by simp [filled]
        obtain ⟨e, reads, same⟩ := exists_read_within digits front short.le
        simp only [padding, List.replicate_zero, List.append_nil]
        rw [if_pos (by simpa using short)]
        exact ⟨e, reads, same⟩
      · obtain ⟨e, reads, same⟩ := exists_read_above showsPoint (n + 1 - cs.length) digits filled
        have none : cs.drop (n + 1) = [] := List.drop_eq_nil_of_le (by omega)
        have all : cs.take (n + 1) = cs := List.take_of_length_le (by omega)
        have places : ((n : Int) + 1 - cs.length) = (n + 1 - cs.length : Nat) := by omega
        rw [places, zpow_natCast, none, all]
        exact ⟨e, reads, same⟩

/-- A signed power of ten is read as it stands. -/
theorem readPower_signed (power : Int) :
    Numeral.readPower ('e' :: (if power < 0 then '-' else '+') :: Nat.toDigits 10 power.natAbs) =
      some power := by
  have digits : Numeral.readDigits (Nat.toDigits 10 power.natAbs) = some power.natAbs := by
    have isDigit : (Nat.toDigits 10 power.natAbs).all Char.isDigit = true := by
      rw [List.all_eq_true]
      exact fun c mem => Nat.isDigit_of_mem_toDigits (by decide) (by decide) mem
    have filled : (Nat.toDigits 10 power.natAbs).isEmpty = false := by
      simp [Nat.toDigits_ne_nil]
    rw [Numeral.readDigits, isDigit, filled, Nat.ofDigitChars_ten_toDigits]
    rfl
  by_cases negative : power < 0
  · simp [Numeral.readPower, negative, digits, abs_of_neg]
  · simp [Numeral.readPower, negative, digits, abs_of_nonneg (not_lt.1 negative)]

/-- A leading digit and a fraction with a power stand for the digits, that power higher. -/
theorem exists_read_placePower {cs : List Char} (power : Int)
    (digits : ∀ c ∈ cs, c.isDigit = true) (filled : cs ≠ []) :
    ∃ e, read (placePower cs power) = some e ∧
      e.value = Nat.ofDigitChars 10 cs 0 * (10 : ℚ) ^ (power + 1 - cs.length) := by
  obtain ⟨c, fraction, rfl⟩ := List.exists_cons_of_ne_nil filled
  have stops : ∀ d ∈ ('e' :: (if power < 0 then '-' else '+') ::
      Nat.toDigits 10 power.natAbs).head?, d.isDigit = false ∧ d ≠ '.' := by
    intro d head
    cases head
    decide
  have figures := read_figures [c] fraction (if fraction.isEmpty then [] else '.' :: fraction) _
    digits (by simp) (by cases fraction <;> simp) stops
  rw [readPower_signed] at figures
  have shape : placePower (c :: fraction) power = [c] ++
      ((if fraction.isEmpty then [] else '.' :: fraction) ++
        'e' :: (if power < 0 then '-' else '+') :: Nat.toDigits 10 power.natAbs) := by
    simp [placePower]
  have places : power - fraction.length = power + 1 - (c :: fraction).length := by
    rw [List.length_cons]
    omega
  rw [← shape, Option.map_some, places] at figures
  exact ⟨_, figures, rfl⟩

/-- A text in any layout has the value that was written. -/
theorem exists_read_write (layout : Layout) (d : Decimal) :
    ∃ e, read (d.write layout) = some e ∧ e.value = d.value := by
  unfold write
  dsimp only
  split
  · next none =>
      obtain ⟨e, reads, same⟩ := exists_read_placePoint layout.showsPoint 1
        (isDigit_zeros 1) (by decide)
      refine ⟨e, reads, ?_⟩
      rw [same, value, none]
      simp [Nat.ofDigitChars]
  · next positive =>
      obtain ⟨count, zeros⟩ := exists_zeros (Nat.toDigits 10 d.digits)
      have isDigit : ∀ c ∈ stripZeros (Nat.toDigits 10 d.digits), c.isDigit = true :=
        fun c mem => isDigit_of_mem_stripZeros mem
      have number : d.digits =
          Nat.ofDigitChars 10 (stripZeros (Nat.toDigits 10 d.digits)) 0 * 10 ^ count := by
        rw [← ofDigitChars_append_zeros, ← zeros, Nat.ofDigitChars_ten_toDigits]
      have filled := stripZeros_ne_nil positive
      have length : (Nat.toDigits 10 d.digits).length =
          (stripZeros (Nat.toDigits 10 d.digits)).length + count := by
        conv_lhs => rw [zeros]
        rw [List.length_append, List.length_replicate]
      have scaled : d.value = Nat.ofDigitChars 10 (stripZeros (Nat.toDigits 10 d.digits)) 0 *
          (10 : ℚ) ^ ((Nat.toDigits 10 d.digits).length + d.exponent -
            (stripZeros (Nat.toDigits 10 d.digits)).length) := by
        have places : ((Nat.toDigits 10 d.digits).length + d.exponent -
            (stripZeros (Nat.toDigits 10 d.digits)).length : Int) = count + d.exponent := by
          omega
        rw [places, zpow_add₀ (by norm_num), zpow_natCast, ← mul_assoc, value]
        congr 1
        exact_mod_cast number
      split
      · obtain ⟨e, reads, same⟩ := exists_read_placePoint layout.showsPoint
          ((Nat.toDigits 10 d.digits).length + d.exponent) isDigit filled
        exact ⟨e, reads, same.trans scaled.symm⟩
      · obtain ⟨e, reads, same⟩ := exists_read_placePower
          ((Nat.toDigits 10 d.digits).length + d.exponent - 1) isDigit filled
        refine ⟨e, reads, ?_⟩
        rw [same, scaled, Int.sub_add_cancel]

end Decimal

/-- The text of a finite double is its sign and its magnitude. -/
theorem Layout.toList_write (layout : Layout) {x : Float} (finite : x.isFinite = true) :
    (layout.write x).toList = (if isNegative x then ['-'] else []) ++
      ((Binary.ofFloat x).shortest layout.tie).write layout := by
  obtain ⟨defined, bounded⟩ := defined_of_isFinite finite
  simp only [write, writeWith, defined, bounded, Bool.false_eq_true, if_false, String.toList_ofList]

end SynthPatch
