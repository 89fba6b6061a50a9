import SynthPatch.Proofs.Decimal.Numeral
import SynthPatch.Proofs.Expr.Infix
/-!
# Spelled texts

A text that spells a row of lexemes, with blanks between them as one likes, is read as that row, as
long as no two words stand side by side in it.

Main results:

- Theorem {lit}`Text.trim_append_append`: blanks around a text do not matter.
- Theorem {lit}`Lexeme.ofText_of_spelled`: a spelled row of lexemes is read as it was meant.
-/

namespace SynthPatch

/-! ## Blanks -/

namespace Text

/-- Blanks in front of a text that does not begin with one are dropped. -/
theorem dropWhile_isBlank_append (gap rest : List Char) (blank : ∀ c ∈ gap, isBlank c = true)
    (first : ∀ c ∈ rest.head?, isBlank c = false) : (gap ++ rest).dropWhile isBlank = rest := by
  rw [List.dropWhile_append_of_pos blank]
  cases rest with
  | nil => rfl
  | cons c more => simp [List.dropWhile, first c rfl]

/-- Blanks around a text that holds none are taken off. -/
theorem trim_append_append {before word behind : List Char}
    (hb : ∀ c ∈ before, isBlank c = true) (hw : ∀ c ∈ word, isBlank c = false)
    (ha : ∀ c ∈ behind, isBlank c = true) : trim (before ++ word ++ behind) = word := by
  unfold trim
  cases word with
  | nil =>
      have blank : ∀ c ∈ before ++ behind, isBlank c = true := by
        intro c mem
        exact (List.mem_append.1 mem).elim (hb c) (ha c)
      have none := dropWhile_isBlank_append _ [] blank (by simp)
      rw [List.append_nil] at none ⊢
      rw [none]
      rfl
  | cons c rest =>
      have front := dropWhile_isBlank_append before (c :: rest ++ behind) hb
        (by simpa using hw c (by simp))
      have back := dropWhile_isBlank_append behind.reverse (c :: rest).reverse
        (fun d hd => ha d (List.mem_reverse.1 hd))
        (fun d hd => hw d (List.mem_reverse.1 (List.mem_of_mem_head? hd)))
      rw [List.append_assoc, front, List.reverse_append, back, List.reverse_reverse]

end Text

/-! ## Words and cuts -/

namespace Lexeme

/-- A character of a word, which neither cuts the text nor is blank. -/
def Inner (c : Char) : Prop :=
  delimiter? c = none ∧ Text.isBlank c = false

/-- A letter or digit by its code. -/
theorem isAlphanum_eq (c : Char) : c.isAlphanum =
    (decide (65 ≤ c.val ∧ c.val ≤ 90) || (97 ≤ c.val && c.val ≤ 122) ||
      (48 ≤ c.val && c.val ≤ 57)) :=
  rfl

theorem inner_of_isAlphanum {c : Char} (h : c.isAlphanum = true) : Inner c := by
  constructor
  · unfold delimiter?
    split <;> first | rfl | exact absurd h (by decide)
  · simp only [isAlphanum_eq, Bool.or_eq_true, Bool.and_eq_true, decide_eq_true_eq,
      UInt32.le_iff_toNat_le, UInt32.reduceToNat] at h
    simp only [Text.isBlank, Bool.or_eq_false_iff, Bool.and_eq_false_iff, decide_eq_false_iff_not,
      beq_eq_false_iff_ne, ne_eq, UInt32.le_iff_toNat_le, ← UInt32.toNat_inj, UInt32.reduceToNat]
    omega

theorem inner_of_isPlain {c : Char} (h : Numeral.isPlain c = true) : Inner c := by
  rw [Numeral.isPlain, Bool.or_eq_true, beq_iff_eq] at h
  rcases h with h | rfl
  · exact inner_of_isAlphanum h
  · exact ⟨rfl, rfl⟩

theorem inner_of_isTail {c : Char} (h : Identifier.isTail c = true) : Inner c := by
  rw [Identifier.isTail, Bool.or_eq_true, beq_iff_eq] at h
  rcases h with h | rfl
  · exact inner_of_isAlphanum h
  · exact ⟨rfl, rfl⟩

theorem isTail_of_isValid {cs : List Char} (h : Identifier.isValid cs = true) :
    ∀ c ∈ cs, Identifier.isTail c = true := by
  cases cs with
  | nil => cases h
  | cons c rest =>
      rw [Identifier.isValid, Bool.and_eq_true, List.all_eq_true] at h
      intro d mem
      rcases List.mem_cons.1 mem with rfl | mem
      · exact Identifier.isTail_of_isHead h.1
      · exact h.2 d mem

/-- What begins with the mark of a parameter is not read as a number. -/
theorem readFloat_paramMark (name : List Char) : readFloat (paramMark ++ name) = none := by
  have mark : paramMark = ['p', 'a', 'r', 'a', 'm', '.'] := by decide
  simp [mark, readFloat, Numeral.read, Numeral.readUnsigned, Decimal.read, Numeral.splitFraction]

theorem ofWord_of_spells {l : Lexeme} {word : List Char} (h : Spells l word)
    (isWord : l.isWord = true) :
    word ≠ [] ∧ (∀ c ∈ word, Inner c) ∧ ofWord word = .ok l := by
  cases h with
  | @number x word reads finite unsigned =>
      refine ⟨?_, fun c mem => inner_of_isPlain (isPlain_of_readFloat reads unsigned c mem), ?_⟩
      · rintro rfl
        cases reads
      · simp [ofWord, reads, finite]
  | @param name valid =>
      refine ⟨by simp [paramMark], ?_, ?_⟩
      · intro c mem
        rcases List.mem_append.1 mem with mem | mem
        · have mark : paramMark.all Numeral.isPlain = true := by decide
          exact inner_of_isPlain (List.all_eq_true.1 mark c mem)
        · exact inner_of_isTail (isTail_of_isValid valid c mem)
      · simp [ofWord, readFloat_paramMark, valid]
  | func f =>
      have letters : f.name.toList.all Numeral.isPlain = true := by cases f <;> decide
      refine ⟨by cases f <;> decide,
        fun c mem => inner_of_isPlain (List.all_eq_true.1 letters c mem), ?_⟩
      have noNumber : readFloat f.name.toList = none := by cases f <;> rfl
      have noParam : paramMark.isPrefixOf f.name.toList = false := by cases f <;> decide
      simp [ofWord, noNumber, noParam]
  | op | opening | closing | comma => cases isWord

theorem eq_cut_of_spells {l : Lexeme} {word : List Char} (h : Spells l word)
    (noWord : l.isWord = false) : ∃ c, word = [c] ∧ delimiter? c = some l := by
  cases h with
  | op o => cases o <;> exact ⟨_, rfl, rfl⟩
  | opening => exact ⟨_, rfl, rfl⟩
  | closing => exact ⟨_, rfl, rfl⟩
  | comma => exact ⟨_, rfl, rfl⟩
  | number | param | func => cases noWord

/-! ## Texts -/

theorem delimiter?_of_isBlank {c : Char} (h : Text.isBlank c = true) : delimiter? c = none := by
  unfold delimiter?
  split <;> first | rfl | exact absurd h (by decide)

/-- A word with blanks around it holds no cut. -/
theorem uncut_word {l : Lexeme} {before word behind : List Char} (hb : Blank before)
    (spells : Spells l word) (isWord : l.isWord = true) (ha : Blank behind) :
    ∀ c ∈ before ++ word ++ behind, delimiter? c = none := by
  intro c mem
  rcases List.mem_append.1 mem with mem | mem
  · rcases List.mem_append.1 mem with mem | mem
    · exact delimiter?_of_isBlank (hb c mem)
    · exact ((ofWord_of_spells spells isWord).2.1 c mem).1
  · exact delimiter?_of_isBlank (ha c mem)

/-- What stands between two cuts is one word with blanks around it. -/
theorem ofGap_word {l : Lexeme} {before word behind : List Char} (hb : Blank before)
    (spells : Spells l word) (isWord : l.isWord = true) (ha : Blank behind) :
    ofGap (before ++ word ++ behind) = .ok [l] := by
  obtain ⟨filled, inner, read⟩ := ofWord_of_spells spells isWord
  rw [ofGap, Text.trim_append_append hb (fun c mem => (inner c mem).2) ha]
  simp [filled, read, Except.map]

/-- What stands between two cuts may be blank. -/
theorem ofGap_blank {gap : List Char} (blank : Blank gap) : ofGap gap = .ok [] := by
  have none := @Text.trim_append_append gap [] [] blank (by simp) (by simp)
  rw [List.append_nil, List.append_nil] at none
  rw [ofGap, none]
  rfl

/-- A text without cuts is one gap. -/
theorem ofText_eq_ofGap {gap : List Char} (uncut : ∀ c ∈ gap, delimiter? c = none) :
    ofText gap = ofGap gap := by
  have := ofTextFrom_append [] [] uncut
  rwa [List.append_nil, List.nil_append] at this

/-- Nothing but a cut in a text that begins with blanks and a cut. -/
theorem ofText_blank_cut {gap rest : List Char} {c : Char} {cut : Lexeme} (blank : Blank gap)
    (hc : delimiter? c = some cut) :
    ofText (gap ++ [c] ++ rest) = (ofText rest).map (cut :: ·) := by
  have uncut : ∀ d ∈ gap, delimiter? d = none := fun d mem => delimiter?_of_isBlank (blank d mem)
  rw [List.append_assoc, List.singleton_append, ofText_append_delimiter rest uncut hc,
    ofGap_blank blank]
  cases ofText rest <;> rfl

/-- A word and a cut in a text that begins with them. -/
theorem ofText_word_cut {l cut : Lexeme} {before word behind rest : List Char} {c : Char}
    (hb : Blank before) (spells : Spells l word) (isWord : l.isWord = true) (ha : Blank behind)
    (hc : delimiter? c = some cut) :
    ofText (before ++ word ++ (behind ++ [c] ++ rest)) =
      (ofText rest).map fun more => l :: cut :: more := by
  have shape : before ++ word ++ (behind ++ [c] ++ rest) =
      (before ++ word ++ behind) ++ c :: rest := by simp
  rw [shape, ofText_append_delimiter rest (uncut_word hb spells isWord ha) hc,
    ofGap_word hb spells isWord ha]
  cases ofText rest <;> rfl

/-- A row of lexemes that is spelled out is read as it was meant, as long as no two words stand
side by side in it. -/
theorem ofText_of_spelled {lexemes : List Lexeme} {text : List Char} (h : Spelled lexemes text)
    (separated : Separated lexemes) : ofText text = .ok lexemes := by
  induction h with
  | nil blank =>
      rw [ofText_eq_ofGap fun c mem => delimiter?_of_isBlank (blank c mem), ofGap_blank blank]
  | @cons l rest gap word text blank spells more ih =>
      have ih := ih separated.tail
      cases hl : l.isWord with
      | false =>
          obtain ⟨c, rfl, cut⟩ := eq_cut_of_spells spells hl
          rw [ofText_blank_cut blank cut, ih]
          rfl
      | true =>
          -- The word ends at the end of the text or at the cut that comes next.
          cases more with
          | nil blank' =>
              rw [ofText_eq_ofGap (uncut_word blank spells hl blank'),
                ofGap_word blank spells hl blank']
          | @cons next rest gap' word' text' blank' spells' more' =>
              have noWord : next.isWord = false := separated.rel hl
              obtain ⟨c, rfl, cut⟩ := eq_cut_of_spells spells' noWord
              rw [ofText_blank_cut blank' cut] at ih
              rw [ofText_word_cut blank spells hl blank' cut]
              obtain ⟨read, hread, same⟩ := Outcome.map_eq_ok_iff.1 ih
              rw [hread, ← same]
              rfl

end Lexeme
end SynthPatch
