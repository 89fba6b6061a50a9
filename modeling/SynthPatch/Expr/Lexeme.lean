import SynthPatch.Decimal.Numeral
import SynthPatch.Expr.Error
import SynthPatch.Expr.Token
import SynthPatch.Text
/-!
# Lexemes of an expression

The text of an expression is cut at operator signs, parentheses and commas; what stands between
two cuts is a number, a parameter or a function.  A minus sign that cannot be a subtraction is
drawn into the number behind it.

Main results:

- Function {lit}`Lexeme.ofText`: the lexemes of a text.
- Function {lit}`Lexeme.foldSigns`: the lexemes with signed numbers.
- Theorem {lit}`Lexeme.ofText_append_delimiter`: a cut separates the lexemes on its two sides.
-/

namespace SynthPatch

/-- A lexeme of the infix text of an expression. -/
inductive Lexeme where
  | number (value : Float)
  | param (name : String)
  | op (op : Op)
  | func (func : Func)
  | opening
  | closing
  | comma
deriving DecidableEq, Repr

namespace Lexeme

/-! ## Words and cuts -/

/-- What a parameter reference begins with. -/
def paramMark : List Char :=
  "param.".toList

/-- The lexeme of a character that cuts the text. -/
def delimiter? : Char → Option Lexeme
  | '+' => some (.op .add)
  | '-' => some (.op .sub)
  | '*' => some (.op .mul)
  | '/' => some (.op .div)
  | '(' => some .opening
  | ')' => some .closing
  | ',' => some .comma
  | _ => none

/-- The lexeme of a word without blanks around it. -/
def ofWord (word : List Char) : Except CompileError Lexeme :=
  let unknown := .error (.unknownToken (String.ofList word))
  match readFloat word with
  | some x => if x.isFinite then .ok (.number x) else unknown
  | none =>
    if paramMark.isPrefixOf word then
      let name := word.drop paramMark.length
      if Identifier.isValid name then .ok (.param (String.ofList name)) else unknown
    else match Func.ofName? (String.ofList word) with
      | some f => .ok (.func f)
      | none => unknown

/-- The lexemes of what stands between two cuts: one, or none if it is blank. -/
def ofGap (gap : List Char) : Except CompileError (List Lexeme) :=
  let word := Text.trim gap
  if word.isEmpty then .ok [] else (ofWord word).map fun l => [l]

/-- The lexemes of a text that continues a gap already begun. -/
def ofTextFrom (gap : List Char) : List Char → Except CompileError (List Lexeme)
  | [] => ofGap gap
  | c :: rest =>
    match delimiter? c with
    | none => ofTextFrom (gap ++ [c]) rest
    | some cut => do
      let before ← ofGap gap
      let after ← ofTextFrom [] rest
      return before ++ cut :: after

/-- The lexemes of a text. -/
def ofText (text : List Char) : Except CompileError (List Lexeme) :=
  ofTextFrom [] text

/-- A row of characters that cut nothing only lengthens the gap. -/
theorem ofTextFrom_append {word : List Char} (gap rest : List Char)
    (h : ∀ c ∈ word, delimiter? c = none) :
    ofTextFrom gap (word ++ rest) = ofTextFrom (gap ++ word) rest := by
  induction word generalizing gap with
  | nil => simp
  | cons c r ih =>
    have hc := h c (by simp)
    rw [List.cons_append, ofTextFrom, hc, ih _ fun d hd => h d (by simp [hd])]
    simp

/-- The lexemes before a cut come from the gap before it, those after it from the rest. -/
theorem ofText_append_delimiter {word : List Char} {c : Char} {cut : Lexeme} (rest : List Char)
    (h : ∀ d ∈ word, delimiter? d = none) (hc : delimiter? c = some cut) :
    ofText (word ++ c :: rest) = (do
      let before ← ofGap word
      let after ← ofText rest
      return before ++ cut :: after) := by
  rw [ofText, ofTextFrom_append [] (c :: rest) h, ofTextFrom, hc]
  rfl

/-! ## Signs -/

/-- An operand is due after this lexeme. -/
def expectsOperand : Lexeme → Bool
  | .opening | .comma | .op _ => true
  | _ => false

/-- Draw a minus sign into the number behind it where an operand is due. -/
def foldSigns (operandDue : Bool) : List Lexeme → List Lexeme
  | [] => []
  | .op .sub :: .number x :: rest =>
    if operandDue then .number (-x) :: foldSigns false rest
    else .op .sub :: foldSigns true (.number x :: rest)
  | l :: rest => l :: foldSigns l.expectsOperand rest

end Lexeme
end SynthPatch
