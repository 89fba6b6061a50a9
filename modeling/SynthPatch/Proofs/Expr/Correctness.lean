import SynthPatch.Expr.Compile
import SynthPatch.Proofs.Expr.Evaluation
import SynthPatch.Proofs.Expr.Lexing
import SynthPatch.Proofs.Expr.Reordering
/-!
# Expressions from their text to their value

Whatever the text of a formula looks like, it is compiled to the tokens of the formula, and these
evaluate to its value in any arithmetic.

Main results:

- Theorem {lit}`Infix.compile_eq`: every text of a formula is compiled to its tokens.
- Theorem {lit}`Infix.compile_correct`: they have the value of the formula, whatever the operators
  and functions are.
-/

namespace SynthPatch
namespace Infix

open Lexeme

/-- An infix form holds at least one lexeme, signs drawn in or not. -/
theorem foldSigns_ne_nil {level : Nat} {t : Formula Float} {lexemes : List Lexeme}
    (h : Infix level t lexemes) : foldSigns true lexemes ≠ [] := by
  induction h with
  | op loose left right hl hr =>
      rw [left.foldSigns_append]
      exact List.append_ne_nil_of_left_ne_nil hl _
  | _ => simp [foldSigns]

/-- Every text of a formula is compiled to the tokens of the formula. -/
theorem compile_eq {t : Formula Float} {lexemes : List Lexeme} {text : List Char}
    (form : Infix 1 t lexemes) (spelled : Spelled lexemes text) :
    Postfix.compile text = .ok t.tokens := by
  have lexed : ofText text = .ok lexemes := ofText_of_spelled spelled form.separated
  have filled : (foldSigns true lexemes).isEmpty = false :=
    Bool.eq_false_iff.2 fun empty => form.foldSigns_ne_nil (List.isEmpty_iff.1 empty)
  have ordered := form.ofLexemes_eq
  simp only [Postfix.compile, lexed, bind, Except.bind, filled, ordered, t.checkShape_tokens]
  rfl

/-- Every text of a formula is compiled to the tokens of the formula, and evaluating these gives the
value of the formula if it has one, and fails otherwise. -/
theorem compile_correct {t : Formula Float} {lexemes : List Lexeme} {text : List Char}
    (form : Infix 1 t lexemes) (spelled : Spelled lexemes text) :
    Postfix.compile text = .ok t.tokens ∧
      ∀ (α : Type) [Scalar α] (lift : Float → α) (scope : Scope α) (draws : Draws α),
        (∀ v, (Postfix.map lift t.tokens).evaluate scope draws = .ok v ↔
          (t.mapNumbers lift).value scope draws 0 = .ok v) ∧
        ((∃ e, (Postfix.map lift t.tokens).evaluate scope draws = .error e) ↔
          ∃ e, (t.mapNumbers lift).value scope draws 0 = .error e) := by
  refine ⟨compile_eq form spelled, ?_⟩
  intro α _ lift scope draws
  rw [← Formula.tokens_mapNumbers]
  exact ⟨fun v => Formula.evaluate_eq_ok_iff, Formula.evaluate_eq_error_iff⟩

/-- A product whose first factor is negative and whose second stands in parentheses. -/
theorem compile_correct_product :
    Postfix.compile " -2 *(param.x- 1)".toList =
        .ok [.number (-2), .param "x", .number 1, .op .sub, .op .mul] ∧
      ∀ (v : Float) (draws : Draws Float),
        Postfix.evaluate ⟨fun _ => some v, fun _ => none⟩ draws
          [.number (-2), .param "x", .number 1, .op .sub, .op .mul] = .ok (-2 * (v - 1)) := by
  have form : Infix 1 (.op .mul (.number (-2)) (.op .sub (.param "x") (.number 1)))
      [.op .sub, .number 2, .op .mul, .opening, .param "x", .op .sub, .number 1, .closing] :=
    .op (by decide) .negative (.parens (.op (by decide) .param .number))
  have word (x : Float) (c : Char) (reads : readFloat [c] = some x) (finite : x.isFinite = true)
      (unsigned : c ≠ '+' ∧ c ≠ '-') : Spells (.number x) [c] :=
    .number reads finite (by simpa using unsigned)
  have spelled : Spelled _ " -2 *(param.x- 1)".toList :=
    @Spelled.cons _ _ [' '] ['-'] _ (by decide) (.op .sub) <|
    @Spelled.cons _ _ [] ['2'] _ (by decide) (word 2 '2' rfl (by decide +kernel) (by decide)) <|
    @Spelled.cons _ _ [' '] ['*'] _ (by decide) (.op .mul) <|
    @Spelled.cons _ _ [] ['('] _ (by decide) .opening <|
    @Spelled.cons _ _ [] "param.x".toList _ (by decide) (@Spells.param "x" (by decide)) <|
    @Spelled.cons _ _ [] ['-'] _ (by decide) (.op .sub) <|
    @Spelled.cons _ _ [' '] ['1'] _ (by decide) (word 1 '1' rfl (by decide +kernel) (by decide)) <|
    @Spelled.cons _ _ [] [')'] _ (by decide) .closing <|
    .nil (by decide)
  obtain ⟨compiled, evaluated⟩ := compile_correct form spelled
  refine ⟨compiled, ?_⟩
  intro v draws
  exact ((evaluated Float id ⟨fun _ => some v, fun _ => none⟩ draws).1 _).2 rfl

end Infix
end SynthPatch
