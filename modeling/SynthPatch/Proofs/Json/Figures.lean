import SynthPatch.Json.Reader
import SynthPatch.Proofs.Decimal.Value
/-!
# Numbers of documents

The text of a finite number has the form that documents ask of numbers: a whole part without zeros
in front, and a fraction and a power of ten only with digits in them.

Main results:

- Theorem {lit}`Json.Numeric.splitNumber?`: a text of that form is read to its end.
- Theorem {lit}`Decimal.parted_write`: the parts of a decimal in any layout.
- Theorem {lit}`Layout.numeric_write`: the text of a finite number has the form.
-/

namespace SynthPatch
namespace Json

/-! ## The form of numbers -/

/-- One digit or more. -/
structure Digits (cs : List Char) : Prop where
  digits : ∀ c ∈ cs, c.isDigit = true
  filled : cs ≠ []

/-- Digits, the first of several not being zero. -/
structure Whole (cs : List Char) : Prop extends Digits cs where
  lead : cs.head? = some '0' → cs = ['0']

/-- Nothing, or a point and digits. -/
def Fraction (cs : List Char) : Prop :=
  cs = [] ∨ ∃ ds, cs = '.' :: ds ∧ Digits ds

/-- Nothing, or a mark, a sign and digits. -/
def Power (cs : List Char) : Prop :=
  cs = [] ∨ ∃ sign ds, cs = 'e' :: sign :: ds ∧ (sign = '-' ∨ sign = '+') ∧ Digits ds

/-- A whole part, perhaps with a fraction, perhaps with a power of ten. -/
def Parted (cs : List Char) : Prop :=
  ∃ whole fraction power, cs = whole ++ fraction ++ power ∧
    Whole whole ∧ Fraction fraction ∧ Power power

/-- A number, perhaps with a minus sign in front. -/
def Numeric (text : List Char) : Prop :=
  ∃ sign cs, text = sign ++ cs ∧ (sign = [] ∨ sign = ['-']) ∧ Parted cs

/-- The text does not go on with more of a number. -/
def Stops (rest : List Char) : Prop :=
  ∀ c ∈ rest.head?, c.isDigit = false ∧ c ≠ '.' ∧ c ≠ 'e' ∧ c ≠ 'E'

/-! ## Reading numbers -/

variable {cs rest : List Char}

theorem Digits.splitDigits? (h : Digits cs) (stops : ∀ c ∈ rest.head?, c.isDigit = false) :
    splitDigits? (cs ++ rest) = some (cs, rest) := by
  obtain ⟨taken, left⟩ := Decimal.span_digits h.digits stops
  simp [Json.splitDigits?, taken, left, h.filled]

theorem Whole.splitWhole? (h : Whole cs) (stops : ∀ c ∈ rest.head?, c.isDigit = false) :
    splitWhole? (cs ++ rest) = some (cs, rest) := by
  unfold Json.splitWhole?
  split
  · next more same =>
      have zero : cs = ['0'] := by
        obtain ⟨c, ds, rfl⟩ := List.exists_cons_of_ne_nil h.filled
        exact h.lead (by cases same; rfl)
      subst zero
      obtain rfl : rest = more := by simpa using same
      split
      · next _ c _ => rw [stops c rfl]; rfl
      · rfl
  · exact h.toDigits.splitDigits? stops

theorem Fraction.splitFraction? (h : Fraction cs)
    (stops : ∀ c ∈ rest.head?, c.isDigit = false ∧ c ≠ '.') :
    splitFraction? (cs ++ rest) = some (cs, rest) := by
  rcases h with rfl | ⟨ds, rfl, digits⟩
  · rw [List.nil_append]
    unfold Json.splitFraction?
    split
    · next more same => exact absurd rfl (stops '.' (by simp_all)).2
    · rfl
  · have split := digits.splitDigits? fun c head => (stops c head).1
    simp [Json.splitFraction?, split]

theorem Power.splitPower? (h : Power cs) (stops : Stops rest) :
    splitPower? (cs ++ rest) = some (cs, rest) := by
  rcases h with rfl | ⟨sign, ds, rfl, signed, digits⟩
  · rw [List.nil_append]
    unfold Json.splitPower?
    split
    · next c more =>
        obtain ⟨-, -, small, large⟩ := stops c rfl
        simp [small, large]
    · rfl
  · have split := digits.splitDigits? fun c head => (stops c head).1
    rcases signed with rfl | rfl <;> simp [Json.splitPower?, split]

theorem Power.head (h : Power cs) (stops : Stops rest) :
    ∀ c ∈ (cs ++ rest).head?, c.isDigit = false ∧ c ≠ '.' := by
  rcases h with rfl | ⟨sign, ds, rfl, -⟩
  · exact fun c head => ⟨(stops c head).1, (stops c head).2.1⟩
  · intro c head
    cases head
    decide

theorem Fraction.head (h : Fraction cs) (stops : ∀ c ∈ rest.head?, c.isDigit = false) :
    ∀ c ∈ (cs ++ rest).head?, c.isDigit = false := by
  rcases h with rfl | ⟨ds, rfl, -⟩
  · exact stops
  · intro c head
    cases head
    decide

/-- A text that has the form of a number begins with a digit or a minus sign. -/
theorem Numeric.head {text : List Char} (h : Numeric text) :
    ∃ c more, text = c :: more ∧ (c.isDigit = true ∨ c = '-') := by
  obtain ⟨sign, _, rfl, signed, whole, fraction, power, rfl, first, -⟩ := h
  obtain ⟨c, more, rfl⟩ := List.exists_cons_of_ne_nil first.filled
  rcases signed with rfl | rfl
  · exact ⟨c, _, rfl, .inl (first.digits c List.mem_cons_self)⟩
  · exact ⟨'-', _, rfl, .inr rfl⟩

/-- A text that has the form of a number is read to its end. -/
theorem Numeric.splitNumber? {text : List Char} (h : Numeric text) (stops : Stops rest) :
    splitNumber? (text ++ rest) = some (text, rest) := by
  obtain ⟨sign, _, rfl, signed, whole, fraction, power, rfl, first, second, third⟩ := h
  have end₃ := third.head stops
  have end₂ := second.head fun c head => (end₃ c head).1
  have reads₁ := first.splitWhole? end₂
  have reads₂ := second.splitFraction? end₃
  have reads₃ := third.splitPower? stops
  rcases signed with rfl | rfl
  · obtain ⟨c, more, rfl⟩ := List.exists_cons_of_ne_nil first.filled
    have digit := first.digits c List.mem_cons_self
    have plain : c ≠ '-' := by rintro rfl; exact absurd digit (by decide)
    simp only [List.nil_append, List.append_assoc, List.cons_append] at *
    unfold Json.splitNumber?
    split
    next sign s same =>
      split at same
      · simp_all
      · cases same
        simp [reads₁, reads₂, reads₃]
  · simp only [List.append_assoc, List.cons_append, List.nil_append] at *
    simp [Json.splitNumber?, reads₁, reads₂, reads₃]

end Json

/-! ## Writing numbers -/

namespace Decimal

open Json

/-- The first digit of a number is not zero. -/
theorem head_toDigits {n : Nat} (positive : n ≠ 0) : (Nat.toDigits 10 n).head? ≠ some '0' := by
  induction n using Nat.strongRecOn with
  | ind n ih =>
      by_cases one : n < 10
      · have single : ∀ n < 10, n ≠ 0 → [n.digitChar].head? ≠ some '0' := by decide
        rw [Nat.toDigits_of_lt_base one]
        exact single n one positive
      · have split := Nat.toDigits_append_toDigits (b := 10) (n := n / 10) (d := n % 10)
          (by decide) (by omega) (by omega)
        rw [Nat.div_add_mod] at split
        rw [← split, List.head?_append_of_ne_nil _ Nat.toDigits_ne_nil]
        exact ih _ (by omega) (by omega)

theorem digits_toDigits (n : Nat) : Digits (Nat.toDigits 10 n) :=
  ⟨fun _ mem => Nat.isDigit_of_mem_toDigits (by decide) (by decide) mem, Nat.toDigits_ne_nil⟩

theorem digits_stripZeros {n : Nat} (positive : n ≠ 0) : Digits (stripZeros (Nat.toDigits 10 n)) :=
  ⟨fun _ mem => isDigit_of_mem_stripZeros mem, stripZeros_ne_nil positive⟩

theorem head_stripZeros {n : Nat} (positive : n ≠ 0) :
    (stripZeros (Nat.toDigits 10 n)).head? ≠ some '0' := by
  obtain ⟨count, zeros⟩ := exists_zeros (Nat.toDigits 10 n)
  have head := head_toDigits positive
  rwa [zeros, List.head?_append_of_ne_nil _ (stripZeros_ne_nil positive)] at head

/-- A decimal is parted where the point is set, unless a zero in front is moved up by it. -/
theorem parted_placePoint (showsPoint : Bool) {cs : List Char} {lead : Int} (h : Digits cs)
    (unpadded : cs.head? = some '0' → cs = ['0'] ∧ lead ≤ 1) :
    Parted (placePoint showsPoint cs lead) := by
  have zero : Digits ['0'] := ⟨isDigit_zeros 1, by decide⟩
  unfold placePoint
  split
  · have fraction : Digits (List.replicate (-lead).toNat '0' ++ cs) := by
      refine ⟨fun c mem => ?_, by simp [h.filled]⟩
      rcases List.mem_append.1 mem with mem | mem
      · exact isDigit_zeros _ c mem
      · exact h.digits c mem
    exact ⟨['0'], _, [], by simp, ⟨zero, fun _ => rfl⟩, .inr ⟨_, rfl, fraction⟩, .inl rfl⟩
  · next large =>
      have whole : Whole (cs.take lead.toNat ++ List.replicate (lead.toNat - cs.length) '0') := by
        obtain ⟨c, more, rfl⟩ := List.exists_cons_of_ne_nil h.filled
        obtain ⟨n, count⟩ : ∃ n, lead.toNat = n + 1 := ⟨lead.toNat - 1, by omega⟩
        refine ⟨⟨fun d mem => ?_, by simp [count]⟩, fun first => ?_⟩
        · rcases List.mem_append.1 mem with mem | mem
          · exact h.digits d (List.mem_of_mem_take mem)
          · exact isDigit_zeros _ d mem
        · obtain ⟨single, once⟩ := unpadded (by simpa [count] using first)
          obtain rfl : n = 0 := by omega
          rw [single, count]
          rfl
      dsimp only
      split
      · next more =>
          have fraction : Digits (cs.drop lead.toNat) :=
            ⟨fun c mem => h.digits c (List.mem_of_mem_drop mem), by simpa using more⟩
          exact ⟨_, _, [], by simp, whole, .inr ⟨_, rfl, fraction⟩, .inl rfl⟩
      · split
        · exact ⟨_, ['.', '0'], [], by simp, whole, .inr ⟨_, rfl, zero⟩, .inl rfl⟩
        · exact ⟨_, [], [], by simp, whole, .inl rfl, .inl rfl⟩

/-- A decimal is parted into its first digit, the others and the power of ten. -/
theorem parted_placePower {cs : List Char} (power : Int) (h : Digits cs) :
    Parted (placePower cs power) := by
  obtain ⟨c, ds, rfl⟩ := List.exists_cons_of_ne_nil h.filled
  refine ⟨[c], if ds.isEmpty then [] else '.' :: ds,
    'e' :: (if power < 0 then '-' else '+') :: Nat.toDigits 10 power.natAbs, by simp [placePower],
    ⟨⟨fun d mem => h.digits d (by simp_all), by simp⟩, fun lead => by simpa using lead⟩, ?_, ?_⟩
  · cases ds with
    | nil => exact .inl rfl
    | cons d more =>
        exact .inr ⟨_, rfl, fun e mem => h.digits e (List.mem_cons_of_mem _ mem), by simp⟩
  · exact .inr ⟨_, _, rfl, by split <;> simp, digits_toDigits _⟩

/-- A decimal in any layout has the form of a number. -/
theorem parted_write (layout : Layout) (d : Decimal) : Parted (d.write layout) := by
  unfold write
  dsimp only
  split
  · exact parted_placePoint _ ⟨isDigit_zeros 1, by decide⟩ fun _ => ⟨rfl, Int.le_refl 1⟩
  · next positive =>
      split
      · exact parted_placePoint _ (digits_stripZeros positive) fun zero =>
          absurd zero (head_stripZeros positive)
      · exact parted_placePower _ (digits_stripZeros positive)

end Decimal

/-- The text of a finite number has the form of a number. -/
theorem Layout.numeric_write (layout : Layout) {x : Float} (finite : x.isFinite = true) :
    Json.Numeric (layout.write x).toList := by
  rw [toList_write layout finite]
  exact ⟨_, _, rfl, by split <;> simp, Decimal.parted_write _ _⟩

end SynthPatch
