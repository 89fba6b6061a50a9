import SynthPatch.Expr.Lexeme
import SynthPatch.Proofs.Expr.Formula
import Mathlib.Data.List.Chain
/-!
# Infix texts of a formula

A formula can be written in many ways.  The grammar here says which rows of lexemes are infix forms
of it: operators stand between their operands, parentheses stand at least where precedence and
association to the left demand them, and a minus sign may only stand before a number.  A second
relation says how a row of lexemes is spelled, with blanks wherever one likes.

Main results:

- Inductive {lit}`Infix`: the infix forms of a formula.
- Inductive {lit}`Lexeme.Spelled`: the texts of a row of lexemes.
- Theorem {lit}`Infix.separated`: no two words stand side by side in an infix form.
- Theorem {lit}`Infix.foldSigns_append`: signs are drawn into numbers in an infix form without
  regard to what follows it.
-/

namespace SynthPatch

/-! ## Spelling -/

namespace Lexeme

/-- The ways to write a lexeme.  A number is written without a sign of its own, in any way that
reads as a finite value. -/
inductive Spells : Lexeme → List Char → Prop
  | number {x : Float} {word : List Char} (reads : readFloat word = some x)
      (finite : x.isFinite = true) (unsigned : ∀ c ∈ word, c ≠ '+' ∧ c ≠ '-') :
      Spells (.number x) word
  | param {name : String} (valid : Identifier.isValid name.toList = true) :
      Spells (.param name) (paramMark ++ name.toList)
  | op (o : Op) : Spells (.op o) o.symbol.toList
  | func (f : Func) : Spells (.func f) f.name.toList
  | opening : Spells .opening ['(']
  | closing : Spells .closing [')']
  | comma : Spells .comma [',']

/-- The characters are blanks only. -/
def Blank (gap : List Char) : Prop :=
  ∀ c ∈ gap, Text.isBlank c = true

instance (gap : List Char) : Decidable (Blank gap) :=
  decidable_of_iff (gap.all Text.isBlank = true) List.all_eq_true

/-- The texts of a row of lexemes: each is spelled out, with blanks before, between and behind them
as one likes. -/
inductive Spelled : List Lexeme → List Char → Prop
  | nil {gap : List Char} (blank : Blank gap) : Spelled [] gap
  | cons {l : Lexeme} {rest : List Lexeme} {gap word text : List Char} (blank : Blank gap)
      (spells : Spells l word) (more : Spelled rest text) :
      Spelled (l :: rest) (gap ++ word ++ text)

/-- The lexeme is a word, which a cut must separate from the next word. -/
def isWord : Lexeme → Bool
  | number _ | param _ | func _ => true
  | _ => false

/-- No two words stand side by side. -/
def Separated (lexemes : List Lexeme) : Prop :=
  lexemes.IsChain fun a b => a.isWord = true → b.isWord = false

theorem Separated.nil : Separated [] :=
  List.IsChain.nil

theorem Separated.singleton (l : Lexeme) : Separated [l] :=
  List.IsChain.singleton l

/-- A lexeme that is no word keeps what stands before it apart from what stands behind it. -/
theorem Separated.append_cons {left right : List Lexeme} {cut : Lexeme} (hl : Separated left)
    (hr : Separated right) (noWord : cut.isWord = false) : Separated (left ++ cut :: right) := by
  refine List.isChain_append.2 ⟨hl, ?_, ?_⟩
  · refine List.isChain_cons.2 ⟨?_, hr⟩
    intro next _ word
    rw [noWord] at word
    cases word
  · intro last _ first head _
    cases head
    exact noWord

/-! ## Signs -/

variable (due : Bool) (rest : List Lexeme)

@[simp]
theorem foldSigns_nil : foldSigns due [] = [] :=
  rfl

@[simp]
theorem foldSigns_func (f : Func) :
    foldSigns due (.func f :: rest) = .func f :: foldSigns false rest :=
  rfl

@[simp]
theorem foldSigns_opening : foldSigns due (.opening :: rest) = .opening :: foldSigns true rest :=
  rfl

@[simp]
theorem foldSigns_closing : foldSigns due (.closing :: rest) = .closing :: foldSigns false rest :=
  rfl

@[simp]
theorem foldSigns_comma : foldSigns due (.comma :: rest) = .comma :: foldSigns true rest :=
  rfl

/-- Where no operand is due an operator is left as it is, and one is due behind it. -/
@[simp]
theorem foldSigns_false_op (o : Op) :
    foldSigns false (.op o :: rest) = .op o :: foldSigns true rest := by
  cases o with
  | sub =>
      cases rest with
      | nil => rfl
      | cons l more => cases l <;> rfl
  | _ => rfl

end Lexeme

/-! ## Grammar -/

/-- The infix forms of a formula that may stand where operators bind at least as tightly as the
given level; one is the level of the loosest operators.  An operator takes operands of its own level
on its left and tighter ones on its right, and a form in parentheses may stand anywhere. -/
inductive Infix : Nat → Formula Float → List Lexeme → Prop
  | number {level : Nat} {x : Float} : Infix level (.number x) [.number x]
  | negative {level : Nat} {x : Float} : Infix level (.number (-x)) [.op .sub, .number x]
  | param {level : Nat} {name : String} : Infix level (.param name) [.param name]
  | op {level : Nat} {o : Op} {l r : Formula Float} {u v : List Lexeme}
      (loose : level ≤ o.precedence) (left : Infix o.precedence l u)
      (right : Infix (o.precedence + 1) r v) : Infix level (.op o l r) (u ++ .op o :: v)
  | curve {level : Nat} {f : Curve} {a : Formula Float} {u : List Lexeme} (argument : Infix 1 a u) :
      Infix level (.curve f a) (.func f.func :: .opening :: (u ++ [.closing]))
  | random {level : Nat} {lo hi : Float} {u v : List Lexeme} (lower : Infix 1 (.number lo) u)
      (upper : Infix 1 (.number hi) v) :
      Infix level (.random lo hi) (.func .random :: .opening :: (u ++ .comma :: (v ++ [.closing])))
  | map {level : Nat} {name : String} {lo hi : Formula Float} {u v w : List Lexeme}
      (source : Infix 1 (.param name) u) (lower : Infix 1 lo v) (upper : Infix 1 hi w) :
      Infix level (.map name lo hi)
        (.func .map :: .opening :: (u ++ .comma :: (v ++ .comma :: (w ++ [.closing]))))
  | parens {level : Nat} {t : Formula Float} {u : List Lexeme} (inner : Infix 1 t u) :
      Infix level t (.opening :: (u ++ [.closing]))

namespace Infix

open Lexeme

/-- No two words stand side by side in an infix form. -/
theorem separated {level : Nat} {t : Formula Float} {lexemes : List Lexeme}
    (h : Infix level t lexemes) : Separated lexemes := by
  have close {u : List Lexeme} (hu : Separated u) : Separated (u ++ [.closing]) :=
    hu.append_cons .nil rfl
  have call {f : Func} {u : List Lexeme} (hu : Separated u) :
      Separated (.func f :: .opening :: u) :=
    (Separated.singleton (.func f)).append_cons hu rfl
  induction h with
  | number => exact .singleton _
  | negative => exact Separated.nil.append_cons (.singleton _) rfl
  | param => exact .singleton _
  | op loose left right hl hr => exact hl.append_cons hr rfl
  | curve argument ha => exact call (close ha)
  | random lower upper hl hu => exact call (hl.append_cons (close hu) rfl)
  | map source lower upper hs hl hu =>
      exact call (hs.append_cons (hl.append_cons (close hu) rfl) rfl)
  | parens inner hi => exact Separated.nil.append_cons (close hi) rfl

/-- Signs are drawn into numbers in an infix form without regard to what follows it, and no operand
is due behind it. -/
theorem foldSigns_append {level : Nat} {t : Formula Float} {lexemes : List Lexeme}
    (h : Infix level t lexemes) (rest : List Lexeme) :
    foldSigns true (lexemes ++ rest) = foldSigns true lexemes ++ foldSigns false rest := by
  induction h generalizing rest with
  | number => rfl
  | negative => rfl
  | param => rfl
  | op loose left right hl hr => simp [hl, hr]
  | curve argument ha => simp [ha]
  | random lower upper hl hu => simp [hl, hu]
  | map source lower upper hs hl hu => simp [hs, hl, hu]
  | parens inner hi => simp [hi]

end Infix
end SynthPatch
