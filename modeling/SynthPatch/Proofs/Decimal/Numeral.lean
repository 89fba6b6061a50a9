import SynthPatch.Decimal.Numeral
/-!
# Characters of a number

Whatever reads as a number is made of ASCII letters and digits, points and signs.  A number that is
no word is written as digits with at most a point, and behind them the power of ten: a mark, a sign
or none, and digits.

Main results:

- Theorem {lit}`Decimal.exists_of_read`: how a number without a sign in front is written.
- Theorem {lit}`Decimal.exists_of_sign`: a sign in such a number stands behind the mark of its
  power.
- Theorem {lit}`Numeral.isSign_or_isPlain_of_read`: the characters of a number.
- Theorem {lit}`isPlain_of_readFloat`: the characters of a number without signs.
-/

namespace SynthPatch
namespace Numeral

/-- The character may stand in a number and is no sign. -/
def isPlain (c : Char) : Bool :=
  c.isAlphanum || c == '.'

/-- The character is a sign. -/
def isSign (c : Char) : Bool :=
  c == '+' || c == '-'

/-- The characters may all stand in a number. -/
def Written (cs : List Char) : Prop :=
  ∀ c ∈ cs, isSign c = true ∨ isPlain c = true

theorem isPlain_of_isDigit {c : Char} (h : c.isDigit = true) : isPlain c = true := by
  simp [isPlain, Char.isAlphanum, h]

theorem Written.append {cs ds : List Char} (hc : Written cs) (hd : Written ds) :
    Written (cs ++ ds) := by
  intro c mem
  rcases List.mem_append.1 mem with mem | mem
  · exact hc c mem
  · exact hd c mem

theorem Written.cons {c : Char} {cs : List Char} (hc : isSign c = true ∨ isPlain c = true)
    (hs : Written cs) : Written (c :: cs) := by
  intro d mem
  rcases List.mem_cons.1 mem with rfl | mem
  · exact hc
  · exact hs d mem

theorem Written.of_digits {cs : List Char} (h : ∀ c ∈ cs, c.isDigit = true) : Written cs :=
  fun c mem => .inr (isPlain_of_isDigit (h c mem))

end Numeral

/-! ## Digits, point and power -/

namespace Decimal

/-- The character is a digit or a point. -/
def IsFigure (c : Char) : Prop :=
  c.isDigit = true ∨ c = '.'

instance : DecidablePred IsFigure :=
  fun c => inferInstanceAs (Decidable (c.isDigit = true ∨ c = '.'))

theorem IsFigure.unsigned {c : Char} (h : IsFigure c) : c ≠ '+' ∧ c ≠ '-' := by
  rcases h with digit | rfl
  · constructor <;> rintro rfl <;> exact absurd digit (by decide)
  · decide

end Decimal

namespace Numeral

/-- The text is a power of ten: nothing at all, or a mark, a sign or none, and digits. -/
inductive IsPower : List Char → Prop
  | none : IsPower []
  | marked {mark : Char} {sign digits : List Char} (isMark : mark = 'e' ∨ mark = 'E')
      (isSign : sign = [] ∨ sign = ['-'] ∨ sign = ['+']) (filled : digits ≠ [])
      (areDigits : ∀ c ∈ digits, c.isDigit = true) : IsPower (mark :: (sign ++ digits))

theorem digits_of_readDigits {cs : List Char} {n : Nat} (h : readDigits cs = some n) :
    cs ≠ [] ∧ ∀ c ∈ cs, c.isDigit = true := by
  unfold readDigits at h
  split at h
  · next digits => simpa using digits
  · cases h

theorem isPower_of_readPower {cs : List Char} {n : Int} (h : readPower cs = some n) :
    IsPower cs := by
  cases cs with
  | nil => exact .none
  | cons mark rest =>
      simp only [readPower] at h
      split at h
      · next isMark =>
          rw [Bool.or_eq_true, beq_iff_eq, beq_iff_eq] at isMark
          split at h
          · obtain ⟨_, h, -⟩ := Option.map_eq_some_iff.1 h
            obtain ⟨_, read, -⟩ := Option.bind_eq_some_iff.1 h
            obtain ⟨filled, digits⟩ := digits_of_readDigits read
            exact .marked isMark (.inr (.inl rfl)) filled digits
          · obtain ⟨_, h, -⟩ := Option.map_eq_some_iff.1 h
            obtain ⟨_, read, -⟩ := Option.bind_eq_some_iff.1 h
            obtain ⟨filled, digits⟩ := digits_of_readDigits read
            exact .marked isMark (.inr (.inr rfl)) filled digits
          · obtain ⟨_, h, -⟩ := Option.map_eq_some_iff.1 h
            obtain ⟨_, read, -⟩ := Option.bind_eq_some_iff.1 h
            obtain ⟨filled, digits⟩ := digits_of_readDigits read
            exact .marked isMark (.inl rfl) filled digits
      · cases h

/-- The point and the digits behind it are what is taken off. -/
theorem exists_of_splitFraction (cs : List Char) :
    ∃ figures, cs = figures ++ (splitFraction cs).2 ∧ (∀ c ∈ figures, Decimal.IsFigure c) ∧
      (figures = [] → (splitFraction cs).1 = []) := by
  unfold splitFraction
  split
  · next rest =>
      refine ⟨'.' :: rest.takeWhile Char.isDigit, by simp, ?_, by simp⟩
      intro c mem
      rcases List.mem_cons.1 mem with rfl | mem
      · exact .inr rfl
      · exact .inl (List.all_eq_true.1 List.all_takeWhile c mem)
  · exact ⟨[], rfl, by simp, fun _ => rfl⟩

end Numeral

namespace Decimal

/-- A number without a sign in front is written as digits with at most a point, and behind them the
power of ten. -/
theorem exists_of_read {cs : List Char} {d : Decimal} (h : read cs = some d) :
    ∃ mantissa power, cs = mantissa ++ power ∧ mantissa ≠ [] ∧ (∀ c ∈ mantissa, IsFigure c) ∧
      Numeral.IsPower power := by
  unfold read at h
  dsimp only at h
  split at h
  · cases h
  · next some =>
      obtain ⟨_, power, -⟩ := Option.map_eq_some_iff.1 h
      obtain ⟨figures, shape, areFigures, none⟩ :=
        Numeral.exists_of_splitFraction (cs.dropWhile Char.isDigit)
      refine ⟨cs.takeWhile Char.isDigit ++ figures, _, ?_, ?_, ?_,
        Numeral.isPower_of_readPower power⟩
      · rw [List.append_assoc, ← shape, List.takeWhile_append_dropWhile]
      · intro empty
        obtain ⟨whole, fraction⟩ := List.append_eq_nil_iff.1 empty
        simp [whole, none fraction] at some
      · intro c mem
        rcases List.mem_append.1 mem with mem | mem
        · exact .inl (List.all_eq_true.1 List.all_takeWhile c mem)
        · exact areFigures c mem

/-- The last character of such a number is a digit or a point. -/
theorem isFigure_of_getLast? {cs : List Char} {d : Decimal} (h : read cs = some d) :
    ∀ c ∈ cs.getLast?, IsFigure c := by
  intro c last
  obtain ⟨mantissa, power, rfl, filled, figures, isPower⟩ := exists_of_read h
  cases isPower with
  | none =>
      rw [List.append_nil] at last
      exact figures c (List.mem_of_getLast? last)
  | @marked mark sign digits isMark isSign some areDigits =>
      have ending : (mantissa ++ mark :: (sign ++ digits)).getLast? = digits.getLast? := by
        simp [List.getLast?_append, List.getLast?_cons, List.getLast?_eq_some_getLast some]
      rw [ending] at last
      exact .inl (areDigits c (List.mem_of_getLast? last))

/-- A sign in such a number stands behind the mark of its power. -/
theorem exists_of_sign {cs : List Char} {d : Decimal} (h : read cs = some d) {c : Char}
    (mem : c ∈ cs) (isSign : Numeral.isSign c = true) :
    ∃ mantissa mark sign digits, cs = mantissa ++ mark :: sign :: digits ∧ mantissa ≠ [] ∧
      (∀ c ∈ mantissa, IsFigure c) ∧ (mark = 'e' ∨ mark = 'E') ∧
      Numeral.isSign sign = true := by
  obtain ⟨mantissa, power, rfl, filled, figures, isPower⟩ := exists_of_read h
  have notFigure : ¬ IsFigure c := by
    intro figure
    obtain ⟨noPlus, noMinus⟩ := figure.unsigned
    simp [Numeral.isSign, noPlus, noMinus] at isSign
  have inPower : c ∈ power :=
    (List.mem_append.1 mem).resolve_left fun mem => notFigure (figures c mem)
  cases isPower with
  | none => cases inPower
  | @marked mark sign digits isMark signs some areDigits =>
      rcases signs with rfl | rfl | rfl
      · -- Without a sign of the power there is none at all.
        rcases List.mem_cons.1 inPower with rfl | mem
        · rcases isMark with rfl | rfl <;> cases isSign
        · exact absurd (.inl (areDigits c mem)) notFigure
      · exact ⟨mantissa, mark, '-', digits, rfl, filled, figures, isMark, rfl⟩
      · exact ⟨mantissa, mark, '+', digits, rfl, filled, figures, isMark, rfl⟩

end Decimal

namespace Numeral

theorem isPlain_of_isFigure {c : Char} (h : Decimal.IsFigure c) : isPlain c = true := by
  rcases h with digit | rfl
  · exact isPlain_of_isDigit digit
  · rfl

theorem written_of_isPower {cs : List Char} (h : IsPower cs) : Written cs := by
  cases h with
  | none => intro c mem; cases mem
  | @marked mark sign digits isMark isSign filled areDigits =>
      have plain : isPlain mark = true := by rcases isMark with rfl | rfl <;> decide
      refine .cons (.inr plain) (.append ?_ (.of_digits areDigits))
      intro c mem
      rcases isSign with rfl | rfl | rfl
      · cases mem
      · exact .inl (List.mem_singleton.1 mem ▸ rfl)
      · exact .inl (List.mem_singleton.1 mem ▸ rfl)

theorem written_of_decimal {cs : List Char} {d : Decimal} (h : Decimal.read cs = some d) :
    Written cs := by
  obtain ⟨mantissa, power, rfl, -, figures, isPower⟩ := Decimal.exists_of_read h
  exact .append (fun c mem => .inr (isPlain_of_isFigure (figures c mem)))
    (written_of_isPower isPower)

/-! ## Words -/

/-- A character is a letter if it is one in lower case. -/
theorem isAlpha_of_toLower {c : Char} (h : c.toLower.isAlpha = true) : c.isAlpha = true := by
  unfold Char.toLower at h
  split at h
  · next upper =>
      have isUpper : c.isUpper = true := decide_eq_true (by simpa using upper)
      have isAlpha : c.isAlpha = (c.isUpper || c.isLower) := rfl
      rw [isAlpha, isUpper, Bool.true_or]
  · exact h

theorem written_of_word {cs word : List Char} (letters : word.all Char.isAlpha = true)
    (h : cs.map Char.toLower = word) : Written cs := by
  intro c mem
  have lower : c.toLower ∈ word := h ▸ List.mem_map_of_mem mem
  have letter := isAlpha_of_toLower (List.all_eq_true.1 letters _ lower)
  exact .inr (by simp [isPlain, Char.isAlphanum, letter])

theorem written_of_readUnsigned {negative : Bool} {cs : List Char} {n : Numeral}
    (h : readUnsigned negative cs = some n) : Written cs := by
  unfold readUnsigned at h
  dsimp only at h
  split at h
  · next word =>
      rcases word with word | word
      · exact written_of_word (by decide) word
      · exact written_of_word (by decide) word
  · split at h
    · next word => exact written_of_word (by decide) word
    · obtain ⟨d, hd, -⟩ := Option.map_eq_some_iff.1 h
      exact written_of_decimal hd

/-- Each character of a number is a sign, or a letter, a digit or a point. -/
theorem isSign_or_isPlain_of_read {cs : List Char} {n : Numeral} (h : read cs = some n) :
    Written cs := by
  unfold read at h
  split at h
  · exact .cons (.inl rfl) (written_of_readUnsigned h)
  · exact .cons (.inl rfl) (written_of_readUnsigned h)
  · exact written_of_readUnsigned h

end Numeral

/-- Each character of a number without signs is a letter, a digit or a point. -/
theorem isPlain_of_readFloat {cs : List Char} {x : Float} (h : readFloat cs = some x)
    (unsigned : ∀ c ∈ cs, c ≠ '+' ∧ c ≠ '-') : ∀ c ∈ cs, Numeral.isPlain c = true := by
  obtain ⟨n, hn, -⟩ := Option.map_eq_some_iff.1 h
  intro c mem
  refine (Numeral.isSign_or_isPlain_of_read hn c mem).resolve_left ?_
  obtain ⟨noPlus, noMinus⟩ := unsigned c mem
  simp [Numeral.isSign, noPlus, noMinus]

end SynthPatch
