import SynthPatch.Decimal.Layout
import SynthPatch.Proofs.Decimal.Numeral
/-!
# The text of a number

A number is written in messages with digits and at most one point, and with a minus sign in front of
it if it is negative.  A finite number whose text reads back to it can be written into a patch; one
that is negative is then written as a minus sign and the text of a finite number without a sign.

Main results:

- Theorem {lit}`Decimal.mem_write_message`: the characters of a decimal in a message.
- Structure {lit}`Legible`: a finite number that reads back from its text.
- Theorem {lit}`Legible.unsigned_or_negative`: how such a number is written.
-/

namespace SynthPatch

/-! ## Digits and points -/

namespace Decimal

/-- The zeros that fill in are figures. -/
theorem isFigure_of_mem_zeros {count : Nat} {c : Char} (h : c ∈ List.replicate count '0') :
    IsFigure c :=
  .inl (List.eq_of_mem_replicate h ▸ by decide)

theorem isFigure_of_mem_placePoint {showsPoint : Bool} {cs : List Char} {lead : Int} {c : Char}
    (digits : ∀ d ∈ cs, d.isDigit = true) (h : c ∈ placePoint showsPoint cs lead) :
    IsFigure c := by
  have whole : c ∈ cs.take lead.toNat ++ List.replicate (lead.toNat - cs.length) '0' →
      IsFigure c := by
    intro mem
    rcases List.mem_append.1 mem with mem | mem
    · exact .inl (digits c (List.mem_of_mem_take mem))
    · exact isFigure_of_mem_zeros mem
  unfold placePoint at h
  split at h
  · rcases List.mem_append.1 h with mem | mem
    · rcases List.mem_cons.1 mem with rfl | mem
      · exact .inl rfl
      · rcases List.mem_cons.1 mem with rfl | mem
        · exact .inr rfl
        · exact isFigure_of_mem_zeros mem
    · exact .inl (digits c mem)
  · dsimp only at h
    split at h
    · rcases List.mem_append.1 h with mem | mem
      · exact whole mem
      · rcases List.mem_cons.1 mem with rfl | mem
        · exact .inr rfl
        · exact .inl (digits c (List.mem_of_mem_drop mem))
    · split at h
      · rcases List.mem_append.1 h with mem | mem
        · exact whole mem
        · rcases List.mem_cons.1 mem with rfl | mem
          · exact .inr rfl
          · cases List.mem_singleton.1 mem
            exact .inl rfl
      · exact whole h

/-- A decimal in a message is made of digits and points. -/
theorem mem_write_message {d : Decimal} {c : Char} (h : c ∈ d.write .message) : IsFigure c := by
  have digits : ∀ c ∈ stripZeros (Nat.toDigits 10 d.digits), c.isDigit = true := by
    intro c mem
    have mem := List.dropWhile_subset _ (List.mem_reverse.1 mem)
    exact Nat.isDigit_of_mem_toDigits (by decide) (by decide) (List.mem_reverse.1 mem)
  unfold write at h
  dsimp only at h
  split at h
  · exact isFigure_of_mem_placePoint (by simp) h
  · exact isFigure_of_mem_placePoint digits (by simpa [Layout.message] using h)

end Decimal

/-! ## Signs -/

/-- A number is finite if it is so with its sign turned round. -/
theorem isFinite_of_neg {x : Float} (h : (-x).isFinite = true) : x.isFinite = true := by
  change (Float.Model.pack x.toModel.unpack.neg).isFinite = true at h
  change x.toModel.unpack.isFinite = true
  cases unpacked : x.toModel.unpack with
  | notANumber =>
      rw [unpacked] at h
      exact absurd h (by decide)
  | infinity s =>
      rw [unpacked] at h
      cases s <;> exact absurd h (by decide)
  | zero s => rfl
  | finite s m e positive => rfl

/-- What is read behind a sign has that sign. -/
theorem Numeral.sign_of_readUnsigned {sign negative : Bool} {cs : List Char} {d : Decimal}
    (h : readUnsigned sign cs = some (.finite negative d)) : negative = sign := by
  unfold readUnsigned at h
  dsimp only at h
  split at h
  · cases h
  · split at h
    · cases h
    · obtain ⟨_, -, same⟩ := Option.map_eq_some_iff.1 h
      cases same
      rfl

/-- What is read without a sign is turned round by a minus sign in front of it. -/
theorem exists_of_readFloat_neg {cs : List Char} {x : Float} (h : readFloat ('-' :: cs) = some x)
    (finite : x.isFinite = true) (unsigned : ∀ c ∈ cs, c ≠ '+' ∧ c ≠ '-') :
    ∃ y, readFloat cs = some y ∧ y.isFinite = true ∧ x = -y := by
  have first : ∀ c ∈ cs.head?, c ≠ '-' ∧ c ≠ '+' :=
    fun c head => (unsigned c (List.mem_of_mem_head? head)).symm
  have plain : Numeral.read cs = Numeral.readUnsigned false cs := by
    unfold Numeral.read
    split <;> simp_all
  rw [readFloat, Numeral.read_neg first, Option.map_map] at h
  obtain ⟨n, read, rfl⟩ := Option.map_eq_some_iff.1 h
  cases n with
  | finite negative d =>
      obtain rfl := Numeral.sign_of_readUnsigned (plain ▸ read)
      exact ⟨_, by rw [readFloat, read]; rfl, isFinite_of_neg finite, rfl⟩
  | infinite negative =>
      obtain rfl | rfl : negative = true ∨ negative = false := by cases negative <;> simp
      · exact absurd finite (by decide +kernel)
      · exact absurd finite (by decide +kernel)
  | undefined => exact absurd finite (by decide +kernel)

/-! ## Legible numbers -/

/-- A finite number that reads back from its text. -/
structure Legible (x : Float) : Prop where
  finite : x.isFinite = true
  reads : readFloat (showNumber x).toList = some x

instance (x : Float) : Decidable (Legible x) :=
  decidable_of_iff (x.isFinite = true ∧ readFloat (showNumber x).toList = some x)
    ⟨fun ⟨finite, reads⟩ => ⟨finite, reads⟩, fun ⟨finite, reads⟩ => ⟨finite, reads⟩⟩

/-- A number that is finite is neither undefined nor infinite. -/
theorem defined_of_isFinite {x : Float} (h : x.isFinite = true) :
    x.isNaN = false ∧ x.isInf = false := by
  change x.toModel.unpack.isFinite = true at h
  change x.toModel.unpack.isNaN = false ∧ x.toModel.unpack.isInf = false
  cases unpacked : x.toModel.unpack with
  | notANumber | infinity s =>
      rw [unpacked] at h
      cases h
  | zero s | finite s m e positive => exact ⟨rfl, rfl⟩

/-- A finite number is written with figures, behind a minus sign if it is negative. -/
theorem toList_showNumber {x : Float} (finite : x.isFinite = true) :
    ∃ word, (∀ c ∈ word, Decimal.IsFigure c) ∧
      (showNumber x).toList = if isNegative x then '-' :: word else word := by
  obtain ⟨defined, bounded⟩ := defined_of_isFinite finite
  refine ⟨((Binary.ofFloat x).shortest Layout.message.tie).write .message,
    fun c mem => Decimal.mem_write_message mem, ?_⟩
  simp only [showNumber, Layout.write, writeWith, defined, bounded, Bool.false_eq_true, if_false,
    String.toList_ofList]
  split <;> rfl

namespace Legible

variable {x : Float} (h : Legible x)
include h

theorem ne_nil : (showNumber x).toList ≠ [] := by
  intro empty
  have reads := h.reads
  rw [empty] at reads
  cases reads

/-- Each character of the text is a sign, or a letter, a digit or a point. -/
theorem written : Numeral.Written (showNumber x).toList := by
  obtain ⟨n, read, -⟩ := Option.map_eq_some_iff.1 h.reads
  exact Numeral.isSign_or_isPlain_of_read read

/-- A number is written without a sign, or as a minus sign and a number that is. -/
theorem unsigned_or_negative :
    (∀ c ∈ (showNumber x).toList, c ≠ '+' ∧ c ≠ '-') ∨
      ∃ word y, (showNumber x).toList = '-' :: word ∧ (∀ c ∈ word, c ≠ '+' ∧ c ≠ '-') ∧
        readFloat word = some y ∧ y.isFinite = true ∧ x = -y := by
  obtain ⟨word, figures, text⟩ := toList_showNumber h.finite
  have unsigned : ∀ c ∈ word, c ≠ '+' ∧ c ≠ '-' := fun c mem => (figures c mem).unsigned
  have reads := h.reads
  split at text
  · rw [text] at reads
    obtain ⟨y, read, finite, same⟩ := exists_of_readFloat_neg reads h.finite unsigned
    exact .inr ⟨word, y, text, unsigned, read, finite, same⟩
  · exact .inl (text ▸ unsigned)

end Legible
end SynthPatch
