import SynthPatch.Language.Checker
import SynthPatch.Proofs.Expr.Writing
/-!
# Numbers as expressions

A number may be given as a field of a parameter and as an expression.  The text of an expression is
cut at each sign before its numbers are read.  A minus in front is then drawn back into the number,
but a plus in front is left without an operand, and a sign in the power of ten cuts the number in
two, of which the first part is no word that is known.

Main results:

- Theorem {lit}`Lexeme.ofText_marked`: a number is refused at the sign of its power.
- Theorem {lit}`Postfix.readAlike_of_numberField`: a number is read alike in both places exactly if
  it holds no sign but for a minus in front, and is refused as an expression otherwise.
-/

namespace SynthPatch

/-! ## Signs of a number -/

namespace Numeral

/-- The text holds no sign but for a minus in front. -/
def PlainlySigned (cs : List Char) : Prop :=
  cs.head? ≠ some '+' ∧ ∀ c ∈ cs.tail, isSign c = false

/-- A number is read behind its sign, if it has one. -/
theorem exists_of_read {cs : List Char} {n : Numeral} (h : read cs = some n) :
    ∃ sign body negative, cs = sign ++ body ∧ (sign = [] ∨ sign = ['-'] ∨ sign = ['+']) ∧
      readUnsigned negative body = some n := by
  unfold read at h
  split at h
  · next body => exact ⟨['-'], body, true, rfl, .inr (.inl rfl), h⟩
  · next body => exact ⟨['+'], body, false, rfl, .inr (.inr rfl), h⟩
  · exact ⟨[], cs, false, rfl, .inl rfl, h⟩

end Numeral

/-- The text of a finite number is no word behind its sign. -/
theorem exists_of_readFloat {cs : List Char} {x : Float} (reads : readFloat cs = some x)
    (finite : x.isFinite = true) :
    ∃ sign body d, cs = sign ++ body ∧ (sign = [] ∨ sign = ['-'] ∨ sign = ['+']) ∧
      Decimal.read body = some d := by
  obtain ⟨n, read, rfl⟩ := Option.map_eq_some_iff.1 reads
  obtain ⟨sign, body, negative, shape, signs, unsigned⟩ := Numeral.exists_of_read read
  unfold Numeral.readUnsigned at unsigned
  dsimp only at unsigned
  split at unsigned
  · cases unsigned
    cases negative <;> exact absurd finite (by decide +kernel)
  · split at unsigned
    · cases unsigned
      exact absurd finite (by decide +kernel)
    · obtain ⟨d, decimal, -⟩ := Option.map_eq_some_iff.1 unsigned
      exact ⟨sign, body, d, shape, signs, decimal⟩

/-- A plus in front of a number without signs changes nothing. -/
theorem readFloat_plus {cs : List Char} (unsigned : ∀ c ∈ cs, c ≠ '+' ∧ c ≠ '-') :
    readFloat ('+' :: cs) = readFloat cs := by
  have plain : Numeral.read cs = Numeral.readUnsigned false cs := by
    unfold Numeral.read
    split <;> simp_all
  rw [readFloat, readFloat, plain]
  rfl

/-! ## The cut at a sign -/

namespace Lexeme

variable {mantissa : List Char} {mark : Char}

theorem isPlain_of_mark (isMark : mark = 'e' ∨ mark = 'E') : Numeral.isPlain mark = true := by
  rcases isMark with rfl | rfl <;> decide

/-- What stands in front of the sign of a power is no number. -/
theorem readFloat_marked (filled : mantissa ≠ []) (figures : ∀ c ∈ mantissa, Decimal.IsFigure c)
    (isMark : mark = 'e' ∨ mark = 'E') : readFloat (mantissa ++ [mark]) = none := by
  obtain ⟨first, rest, rfl⟩ := List.exists_cons_of_ne_nil filled
  obtain ⟨noPlus, noMinus⟩ := (figures first List.mem_cons_self).unsigned
  have plain : Numeral.read (first :: rest ++ [mark]) =
      Numeral.readUnsigned false (first :: rest ++ [mark]) := by
    unfold Numeral.read
    split <;> simp_all
  have noDecimal : Decimal.read (first :: rest ++ [mark]) = none := by
    rw [Option.eq_none_iff_forall_ne_some]
    intro d read
    rcases Decimal.isFigure_of_getLast? read mark List.getLast?_concat with digit | point
    · rcases isMark with rfl | rfl <;> exact absurd digit (by decide)
    · rcases isMark with rfl | rfl <;> cases point
  have noWord (word : List Char) (last : word.getLast? ≠ some 'e') :
      (first :: rest ++ [mark]).map Char.toLower ≠ word := by
    rintro rfl
    refine last ?_
    rw [List.map_append, List.map_singleton, List.getLast?_concat]
    rcases isMark with rfl | rfl <;> rfl
  rw [readFloat, plain, Numeral.readUnsigned, noDecimal]
  simp only [noWord "inf".toList (by decide), noWord "infinity".toList (by decide),
    noWord "nan".toList (by decide), or_self, if_false]
  rfl

/-- What stands in front of the sign of a power is no word that is known. -/
theorem ofWord_marked (filled : mantissa ≠ []) (figures : ∀ c ∈ mantissa, Decimal.IsFigure c)
    (isMark : mark = 'e' ∨ mark = 'E') :
    ofWord (mantissa ++ [mark]) =
      .error (.unknownToken (String.ofList (mantissa ++ [mark]))) := by
  have noNumber := readFloat_marked filled figures isMark
  obtain ⟨first, rest, rfl⟩ := List.exists_cons_of_ne_nil filled
  have figure := figures first List.mem_cons_self
  have noParam : paramMark.isPrefixOf (first :: rest ++ [mark]) = false := by
    have other : ('p' == first) = false := by
      rw [beq_eq_false_iff_ne]
      rintro rfl
      exact absurd figure (by decide)
    have shape : paramMark = 'p' :: "aram.".toList := rfl
    rw [shape, List.cons_append, List.isPrefixOf, other, Bool.false_and]
  have noFunc : Func.ofName? (String.ofList (first :: rest ++ [mark])) = none := by
    rw [Func.ofName?, List.find?_eq_none]
    intro f _ same
    rw [beq_iff_eq] at same
    have letters : f.name.toList.all (fun c => !decide (Decimal.IsFigure c)) = true := by
      cases f <;> decide
    rw [same, String.toList_ofList] at letters
    have letter := List.all_eq_true.1 letters first List.mem_cons_self
    simp [figure] at letter
  simp only [ofWord, noNumber, noParam, noFunc, Bool.false_eq_true, if_false]

/-- A number is refused at the sign of its power. -/
theorem ofText_marked {sign : Char} (filled : mantissa ≠ [])
    (figures : ∀ c ∈ mantissa, Decimal.IsFigure c) (isMark : mark = 'e' ∨ mark = 'E')
    (isSign : Numeral.isSign sign = true) (digits : List Char) :
    ofText (mantissa ++ mark :: sign :: digits) =
      .error (.unknownToken (String.ofList (mantissa ++ [mark]))) := by
  have inner : ∀ c ∈ mantissa ++ [mark], Inner c := by
    intro c mem
    rcases List.mem_append.1 mem with mem | mem
    · exact inner_of_isPlain (Numeral.isPlain_of_isFigure (figures c mem))
    · rw [List.mem_singleton.1 mem]
      exact inner_of_isPlain (isPlain_of_mark isMark)
  obtain ⟨cut, isCut⟩ : ∃ cut, delimiter? sign = some cut := by
    rw [Numeral.isSign, Bool.or_eq_true, beq_iff_eq, beq_iff_eq] at isSign
    rcases isSign with rfl | rfl <;> exact ⟨_, rfl⟩
  have trimmed : Text.trim (mantissa ++ [mark]) = mantissa ++ [mark] :=
    Text.trim_eq_self (fun c head => (inner c (List.mem_of_mem_head? head)).2)
      fun c last => (inner c (List.mem_of_getLast? last)).2
  have refused : ofGap (mantissa ++ [mark]) =
      .error (.unknownToken (String.ofList (mantissa ++ [mark]))) := by
    rw [ofGap, trimmed, ofWord_marked filled figures isMark]
    simp [Except.map]
  have shape : mantissa ++ mark :: sign :: digits = (mantissa ++ [mark]) ++ sign :: digits := by
    simp
  rw [shape, ofText_append_delimiter digits (fun c mem => (inner c mem).1) isCut, refused]
  rfl

/-- What is wrong behind a sign in front is wrong with the whole text. -/
theorem ofText_sign_of_eq_error {sign : List Char} {text : List Char} {e : CompileError}
    (signs : sign = [] ∨ sign = ['-'] ∨ sign = ['+']) (failed : ofText text = .error e) :
    ofText (sign ++ text) = .error e := by
  rcases signs with rfl | rfl | rfl
  · exact failed
  · rw [List.singleton_append, ← List.nil_append ('-' :: text),
      ofText_append_delimiter text (by simp) rfl, failed]
    rfl
  · rw [List.singleton_append, ← List.nil_append ('+' :: text),
      ofText_append_delimiter text (by simp) rfl, failed]
    rfl

end Lexeme

/-- A field holds a number exactly if its value is the text of that number. -/
theorem Checker.numberField_eq_ok_iff {field : Located Attribute} {x : Float} :
    numberField field = .ok x ↔ readFloat field.item.value.toList = some x := by
  unfold numberField
  split
  · next found => rw [found, Except.ok.injEq, Option.some_inj]
  · next none => simp [none, fail]

/-! ## Compiling a number -/

namespace Postfix

open Lexeme

variable {text : List Char} {x : Float}

/-- A text of which a word is wrong is not compiled. -/
theorem compile_of_ofText_eq_error {e : CompileError} (failed : ofText text = .error e) :
    compile text = .error e := by
  simp only [compile, failed, bind, Except.bind]

/-- A number without signs is compiled to that number. -/
theorem compile_unsigned (reads : readFloat text = some x) (finite : x.isFinite = true)
    (unsigned : ∀ c ∈ text, c ≠ '+' ∧ c ≠ '-') : compile text = .ok [.number x] :=
  Infix.number.compile_eq (.word (.number reads finite unsigned))

/-- A minus is drawn into the number behind it. -/
theorem compile_minus (reads : readFloat text = some x) (finite : x.isFinite = true)
    (unsigned : ∀ c ∈ text, c ≠ '+' ∧ c ≠ '-') : compile ('-' :: text) = .ok [.number (-x)] :=
  Infix.negative.compile_eq
    ((Spelled.word (.op .sub)).append (.word (.number reads finite unsigned)))

/-- A plus in front of a number is left without an operand. -/
theorem compile_plus (reads : readFloat text = some x) (finite : x.isFinite = true)
    (unsigned : ∀ c ∈ text, c ≠ '+' ∧ c ≠ '-') :
    compile ('+' :: text) = .error (.shape (.missingOperand "+")) := by
  have spelled : Spelled [.op .add, .number x] ('+' :: text) :=
    (Spelled.word (.op .add)).append (.word (.number reads finite unsigned))
  have lexed : ofText ('+' :: text) = .ok [.op .add, .number x] :=
    ofText_of_spelled spelled (Separated.nil.append_cons (.singleton _) rfl)
  simp only [compile, lexed, bind, Except.bind]
  rfl

/-- How the text of a finite number fares as an expression. -/
structure ReadAlike (text : List Char) (x : Float) : Prop where
  /-- It is the number itself exactly if it holds no sign but for a minus in front. -/
  same_iff : compile text = .ok [.number x] ↔ Numeral.PlainlySigned text
  /-- A plus in front is an operator without an operand. -/
  plus : text.head? = some '+' → (∀ c ∈ text.tail, Numeral.isSign c = false) →
    compile text = .error (.shape (.missingOperand "+"))
  /-- A sign further behind cuts off a word that is not known. -/
  power : (∃ c ∈ text.tail, Numeral.isSign c = true) →
    ∃ word, compile text = .error (.unknownToken word)

/-- The text of a finite number is compiled to this number, or it begins with a plus, or it holds a
sign further behind. -/
theorem compile_cases (reads : readFloat text = some x) (finite : x.isFinite = true) :
    (Numeral.PlainlySigned text ∧ compile text = .ok [.number x]) ∨
      (text.head? = some '+' ∧ (∀ c ∈ text.tail, Numeral.isSign c = false) ∧
        compile text = .error (.shape (.missingOperand "+"))) ∨
      ((∃ c ∈ text.tail, Numeral.isSign c = true) ∧
        ∃ word, compile text = .error (.unknownToken word)) := by
  obtain ⟨sign, body, d, rfl, signs, decimal⟩ := exists_of_readFloat reads finite
  by_cases signed : ∃ c ∈ body, Numeral.isSign c = true
  · obtain ⟨c, mem, isSign⟩ := signed
    obtain ⟨mantissa, mark, s, digits, rfl, filled, figures, isMark, isSign⟩ :=
      Decimal.exists_of_sign decimal mem isSign
    have refused := ofText_sign_of_eq_error signs
      (ofText_marked filled figures isMark isSign digits)
    refine .inr (.inr ⟨⟨s, ?_, isSign⟩, _, compile_of_ofText_eq_error refused⟩)
    obtain ⟨first, rest, rfl⟩ := List.exists_cons_of_ne_nil filled
    rcases signs with rfl | rfl | rfl <;> simp
  · have plain : ∀ c ∈ body, Numeral.isSign c = false := by simpa using signed
    have unsigned : ∀ c ∈ body, c ≠ '+' ∧ c ≠ '-' := by
      intro c mem
      simpa [Numeral.isSign] using plain c mem
    rcases signs with rfl | rfl | rfl
    · refine .inl ⟨⟨?_, fun c mem => plain c (List.mem_of_mem_tail mem)⟩,
        compile_unsigned reads finite unsigned⟩
      intro head
      exact (unsigned _ (List.mem_of_mem_head? head)).1 rfl
    · obtain ⟨y, read, bounded, rfl⟩ := exists_of_readFloat_neg reads finite unsigned
      exact .inl ⟨⟨by simp, plain⟩, compile_minus read bounded unsigned⟩
    · rw [List.singleton_append, readFloat_plus unsigned] at reads
      exact .inr (.inl ⟨rfl, plain, compile_plus reads finite unsigned⟩)

/-- A finite number of a field of a parameter is the same number as an expression exactly if it
holds no sign but for a minus in front.  Otherwise it is refused as an expression. -/
theorem readAlike_of_numberField {field : Located Attribute}
    (read : Checker.numberField field = .ok x) (finite : x.isFinite = true) :
    ReadAlike field.item.value.toList x := by
  have quiet {cs : List Char} (plain : ∀ c ∈ cs, Numeral.isSign c = false) :
      ¬ ∃ c ∈ cs, Numeral.isSign c = true := by
    rintro ⟨c, mem, isSign⟩
    rw [plain c mem] at isSign
    cases isSign
  have refused {e : CompileError} (failed : compile field.item.value.toList = .error e) :
      compile field.item.value.toList ≠ .ok [.number x] := by
    rw [failed]
    exact nofun
  rcases compile_cases (Checker.numberField_eq_ok_iff.1 read) finite with
    ⟨plain, compiled⟩ | ⟨head, tail, failed⟩ | ⟨behind, word, failed⟩
  · exact
      { same_iff := ⟨fun _ => plain, fun _ => compiled⟩
        plus := fun head => absurd head plain.1
        power := fun behind => absurd behind (quiet plain.2) }
  · exact
      { same_iff := ⟨fun same => absurd same (refused failed), fun plain => absurd head plain.1⟩
        plus := fun _ _ => failed
        power := fun behind => absurd behind (quiet tail) }
  · exact
      { same_iff := ⟨fun same => absurd same (refused failed),
          fun plain => absurd behind (quiet plain.2)⟩
        plus := fun _ tail => absurd behind (quiet tail)
        power := fun _ => ⟨word, failed⟩ }

/-- The field of the default of a parameter. -/
def defaultField (value : String) : Located Attribute :=
  ⟨[], "default", value⟩

/-- A negative number with a power of ten and without a digit in front of its point means the same
in both places. -/
theorem readAlike_of_numberField_negative :
    Checker.numberField (defaultField "-.5e2") = .ok (-50) ∧ (-50 : Float).isFinite = true ∧
      compile "-.5e2".toList = .ok [.number (-50)] := by
  have read : Checker.numberField (defaultField "-.5e2") = .ok (-50) :=
    Checker.numberField_eq_ok_iff.2 (by decide +kernel)
  have finite : (-50 : Float).isFinite = true := by decide +kernel
  have plain : "-.5e2".toList.tail.all (!Numeral.isSign ·) = true := by decide
  have plain : ∀ c ∈ "-.5e2".toList.tail, Numeral.isSign c = false := by
    intro c mem
    simpa only [Bool.not_eq_true'] using List.all_eq_true.1 plain c mem
  exact ⟨read, finite, (readAlike_of_numberField read finite).same_iff.2 ⟨by decide, plain⟩⟩

/-- A number whose power has a sign is read as a field and refused as an expression. -/
theorem signed_power_refused :
    Checker.numberField (defaultField "1e-3") = .ok 0.001 ∧ (0.001 : Float).isFinite = true ∧
      compile "1e-3".toList = .error (.unknownToken "1e") :=
  ⟨Checker.numberField_eq_ok_iff.2 (by decide +kernel), by decide +kernel, by decide +kernel⟩

end Postfix
end SynthPatch
