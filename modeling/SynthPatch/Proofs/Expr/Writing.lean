import SynthPatch.Proofs.Decimal.Writing
import SynthPatch.Proofs.Expr.Correctness
/-!
# Writing an expression

An expression is kept as its tokens.  To write it as it would be typed, the tokens are turned back
into the formula they come from, and this is written with parentheses where precedence and
association to the left demand them, and nowhere else.

Main results:

- Function {lit}`Postfix.formula?`: the formula of some tokens.
- Function {lit}`Postfix.written`: the text of an expression.
- Theorem {lit}`Formula.exists_infix`: the text of a formula spells an infix form of it.
- Theorem {lit}`Postfix.compile_written`: the text of an expression is compiled to its tokens.
- Theorem {lit}`Postfix.neat_written`: the text of an expression neither begins nor ends with a
  blank, and is made of few characters.
-/

namespace SynthPatch

/-! ## Formulas from tokens -/

section OfTokens

variable {α : Type}

/-- The formulas on a stack after one more token, the latest first. -/
def Formula.push? : List (Formula α) → Token α → Option (List (Formula α))
  | row, .number x => some (.number x :: row)
  | row, .param name => some (.param name :: row)
  | r :: l :: row, .op o => some (.op o l r :: row)
  | a :: row, .func .log => some (.curve .log a :: row)
  | a :: row, .func .exp => some (.curve .exp a :: row)
  | .number hi :: .number lo :: row, .func .random => some (.random lo hi :: row)
  | hi :: lo :: .param name :: row, .func .map => some (.map name lo hi :: row)
  | _, _ => none

/-- The tokens of a formula put it on the stack. -/
theorem Formula.foldlM_push?_tokens (t : Formula α) (row : List (Formula α)) :
    t.tokens.foldlM push? row = some (t :: row) := by
  induction t generalizing row with
  | number x => rfl
  | param name => rfl
  | op o l r left right => simp [tokens, List.foldlM_append, left, right, push?]
  | curve f a arg => cases f <;> simp [tokens, List.foldlM_append, arg, push?, Curve.func]
  | random lo hi => rfl
  | map name lo hi low high => simp [tokens, List.foldlM_append, low, high, push?]

/-- The formula of some tokens, if they make one. -/
def Postfix.formula? (p : Postfix α) : Option (Formula α) :=
  match p.foldlM Formula.push? [] with
  | some [t] => some t
  | _ => none

/-- The formula of the tokens of a formula is that formula. -/
@[simp]
theorem Postfix.formula?_tokens (t : Formula α) : Postfix.formula? t.tokens = some t := by
  rw [formula?, t.foldlM_push?_tokens]

end OfTokens

/-! ## Texts -/

namespace Formula

/-- A text in parentheses. -/
def enclose (inner : List Char) : List Char :=
  '(' :: (inner ++ [')'])

/-- A formula as it is written where operators bind at least as tightly as the given level. -/
def written : Formula Float → Nat → List Char
  | number x, _ => (showNumber x).toList
  | param name, _ => Lexeme.paramMark ++ name.toList
  | op o l r, level =>
    let inner := l.written o.precedence ++
      (' ' :: (o.symbol.toList ++ [' '])) ++ r.written (o.precedence + 1)
    if level ≤ o.precedence then inner else enclose inner
  | curve f a, _ => f.func.name.toList ++ enclose (a.written 1)
  | random lo hi, _ =>
    Func.random.name.toList ++ enclose ((showNumber lo).toList ++ [',', ' '] ++
      (showNumber hi).toList)
  | map name lo hi, _ =>
    Func.map.name.toList ++ enclose (Lexeme.paramMark ++ name.toList ++ [',', ' '] ++
      lo.written 1 ++ [',', ' '] ++ hi.written 1)

end Formula

/-- An expression as it is written. -/
def Postfix.written (p : Postfix Float) : List Char :=
  match p.formula? with
  | some t => t.written 1
  | none => []

theorem Postfix.written_tokens (t : Formula Float) : Postfix.written t.tokens = t.written 1 := by
  rw [written, formula?_tokens]

/-- The token can be written: its number is legible, its name is an identifier. -/
def Token.Writable : Token Float → Prop
  | number x => Legible x
  | param name => Identifier.isValid name.toList = true
  | op _ | func _ => True

instance : DecidablePred Token.Writable
  | .number x => inferInstanceAs (Decidable (Legible x))
  | .param name => inferInstanceAs (Decidable (Identifier.isValid name.toList = true))
  | .op _ | .func _ => inferInstanceAs (Decidable True)

/-! ## Spelling -/

namespace Lexeme

theorem Blank.append {a b : List Char} (ha : Blank a) (hb : Blank b) : Blank (a ++ b) := by
  intro c mem
  rcases List.mem_append.1 mem with mem | mem
  · exact ha c mem
  · exact hb c mem

/-- More blanks may stand in front. -/
theorem Spelled.blank_append {gap text : List Char} {lexemes : List Lexeme} (blank : Blank gap)
    (h : Spelled lexemes text) : Spelled lexemes (gap ++ text) := by
  cases h with
  | nil more => exact .nil (blank.append more)
  | cons more spells rest =>
      rw [← List.append_assoc, ← List.append_assoc]
      exact .cons (blank.append more) spells rest

/-- Texts of two rows side by side spell one row. -/
theorem Spelled.append {a b : List Lexeme} {u v : List Char} (ha : Spelled a u)
    (hb : Spelled b v) : Spelled (a ++ b) (u ++ v) := by
  induction ha with
  | nil blank => exact hb.blank_append blank
  | cons blank spells more ih =>
      rw [List.append_assoc]
      exact .cons blank spells ih

/-- A word spells its lexeme. -/
theorem Spelled.word {l : Lexeme} {word : List Char} (h : Spells l word) : Spelled [l] word := by
  have blank : Blank [] := by decide
  have spelled := Spelled.cons blank h (.nil blank)
  rwa [List.nil_append, List.append_nil] at spelled

/-- A space may stand behind. -/
theorem Spelled.space {a : List Lexeme} {u : List Char} (h : Spelled a u) :
    Spelled a (u ++ [' ']) := by
  have spelled := h.append (.nil (by decide : Blank [' ']))
  rwa [List.append_nil] at spelled

/-- A text in parentheses spells the lexemes of the text between two parentheses. -/
theorem Spelled.enclose {a : List Lexeme} {u : List Char} (h : Spelled a u) :
    Spelled (.opening :: (a ++ [.closing])) (Formula.enclose u) :=
  (Spelled.word .opening).append (h.append (.word .closing))

/-- What stands behind a comma and a space. -/
theorem Spelled.comma {a b : List Lexeme} {u v : List Char} (ha : Spelled a u)
    (hb : Spelled b v) : Spelled (a ++ .comma :: b) (u ++ [',', ' '] ++ v) := by
  rw [List.append_assoc]
  exact ha.append ((Spelled.word .comma).space.append hb)

end Lexeme

namespace Formula

open Lexeme

/-- A legible number is written as a number, or as a minus sign and a number. -/
theorem exists_infix_number {x : Float} (h : Legible x) (level : Nat) :
    ∃ lexemes, Infix level (.number x) lexemes ∧ Spelled lexemes (showNumber x).toList := by
  rcases h.unsigned_or_negative with unsigned | ⟨word, y, text, unsigned, reads, finite, rfl⟩
  · exact ⟨_, .number, .word (.number h.reads h.finite unsigned)⟩
  · rw [text]
    exact ⟨_, .negative, (Spelled.word (.op .sub)).append (.word (.number reads finite unsigned))⟩

/-- The text of a formula spells an infix form of it. -/
theorem exists_infix (t : Formula Float) (level : Nat)
    (writable : ∀ token ∈ t.tokens, token.Writable) :
    ∃ lexemes, Infix level t lexemes ∧ Spelled lexemes (t.written level) := by
  induction t generalizing level with
  | number x => exact exists_infix_number (writable (.number x) (by simp [tokens])) level
  | param name => exact ⟨_, .param, .word (.param (writable (.param name) (by simp [tokens])))⟩
  | op o l r left right =>
      obtain ⟨u, leftForm, leftText⟩ := left o.precedence fun token mem =>
        writable token (by simp [tokens, mem])
      obtain ⟨v, rightForm, rightText⟩ := right (o.precedence + 1) fun token mem =>
        writable token (by simp [tokens, mem])
      have sign : Spelled [.op o] (' ' :: (o.symbol.toList ++ [' '])) :=
        (Spelled.word (.op o)).space.blank_append (by decide : Blank [' '])
      have text := (leftText.append sign).append rightText
      rw [List.append_assoc, List.singleton_append] at text
      rw [written]
      split
      · next loose => exact ⟨_, .op loose leftForm rightForm, text⟩
      · have loosest : 1 ≤ o.precedence := by cases o <;> decide
        exact ⟨_, .parens (.op loosest leftForm rightForm), text.enclose⟩
  | curve f a arg =>
      obtain ⟨u, form, text⟩ := arg 1 fun token mem => writable token (by simp [tokens, mem])
      exact ⟨_, .curve form, (Spelled.word (.func f.func)).append text.enclose⟩
  | random lo hi =>
      obtain ⟨u, lower, lowerText⟩ :=
        exists_infix_number (writable (.number lo) (by simp [tokens])) 1
      obtain ⟨v, upper, upperText⟩ :=
        exists_infix_number (writable (.number hi) (by simp [tokens])) 1
      have text := (Spelled.word (.func .random)).append (lowerText.comma upperText).enclose
      refine ⟨_, .random lower upper, ?_⟩
      simpa [written] using text
  | map name lo hi low high =>
      obtain ⟨v, lower, lowerText⟩ := low 1 fun token mem => writable token (by simp [tokens, mem])
      obtain ⟨w, upper, upperText⟩ := high 1 fun token mem => writable token (by simp [tokens, mem])
      have source := Spelled.word (.param (writable (.param name) (by simp [tokens])))
      have text := (Spelled.word (.func .map)).append
        ((source.comma lowerText).comma upperText).enclose
      refine ⟨_, .map .param lower upper, ?_⟩
      simpa [written] using text

end Formula

/-! ## Characters -/

/-- The text is not empty and neither begins nor ends with a blank. -/
structure Text.Framed (cs : List Char) : Prop where
  first : ∃ c, cs.head? = some c ∧ isBlank c = false
  last : ∃ c, cs.getLast? = some c ∧ isBlank c = false

namespace Text.Framed

/-- Whatever stands between, the ends are those of the outer texts. -/
theorem append {a b : List Char} (ha : Framed a) (middle : List Char) (hb : Framed b) :
    Framed (a ++ middle ++ b) := by
  obtain ⟨c, head, first⟩ := ha.first
  obtain ⟨d, final, last⟩ := hb.last
  exact ⟨⟨c, by simp [List.head?_append, head], first⟩,
    ⟨d, by simp [List.getLast?_append, final], last⟩⟩

/-- A text without blanks. -/
theorem of_forall {cs : List Char} (filled : cs ≠ [])
    (h : ∀ c ∈ cs, isBlank c = false) : Framed cs := by
  refine ⟨⟨cs.head filled, List.head?_eq_some_head filled, h _ (List.head_mem filled)⟩,
    ⟨cs.getLast filled, List.getLast?_eq_some_getLast filled, h _ (List.getLast_mem filled)⟩⟩

theorem ne_nil {cs : List Char} (h : Framed cs) : cs ≠ [] := by
  obtain ⟨c, head, -⟩ := h.first
  rintro rfl
  cases head

/-- Such a text is left as it is when blanks are taken off its ends. -/
theorem trim_eq {cs : List Char} (h : Framed cs) : trim cs = cs := by
  obtain ⟨c, head, first⟩ := h.first
  obtain ⟨d, final, last⟩ := h.last
  refine trim_eq_self ?_ ?_
  · intro c' mem
    rw [head] at mem
    cases mem
    exact first
  · intro d' mem
    rw [final] at mem
    cases mem
    exact last

end Text.Framed

namespace Formula

/-- The character may stand in the text of a formula. -/
def isSymbol (c : Char) : Bool :=
  c.isAlphanum || "_.+-*/(), ".toList.contains c

/-- The text is made of the characters of formulas and neither begins nor ends with a blank. -/
structure Neat (cs : List Char) : Prop where
  framed : Text.Framed cs
  symbols : ∀ c ∈ cs, isSymbol c = true

namespace Neat

variable {a b : List Char}

theorem append (ha : Neat a) {middle : List Char} (symbols : middle.all isSymbol = true)
    (hb : Neat b) : Neat (a ++ middle ++ b) := by
  refine ⟨ha.framed.append middle hb.framed, ?_⟩
  intro c mem
  rcases List.mem_append.1 mem with mem | mem
  · rcases List.mem_append.1 mem with mem | mem
    · exact ha.symbols c mem
    · exact List.all_eq_true.1 symbols c mem
  · exact hb.symbols c mem

/-- The character may stand in the text of a formula and is no blank. -/
def isPlain (c : Char) : Bool :=
  isSymbol c && !Text.isBlank c

/-- A text without blanks. -/
theorem of_all (filled : a ≠ []) (plain : a.all isPlain = true) : Neat a := by
  have plain : ∀ c ∈ a, isSymbol c = true ∧ Text.isBlank c = false := by
    simpa [isPlain] using plain
  exact ⟨.of_forall filled fun c mem => (plain c mem).2, fun c mem => (plain c mem).1⟩

theorem enclose (ha : Neat a) : Neat (Formula.enclose a) := by
  have first : Neat ['('] := .of_all (by decide) (by decide)
  have last : Neat [')'] := .of_all (by decide) (by decide)
  exact first.append (List.all_eq_true.2 ha.symbols) last

theorem number {x : Float} (h : Legible x) : Neat (showNumber x).toList := by
  refine .of_all h.ne_nil (List.all_eq_true.2 ?_)
  intro c mem
  rcases h.written c mem with sign | plain
  · rw [Numeral.isSign, Bool.or_eq_true, beq_iff_eq, beq_iff_eq] at sign
    rcases sign with rfl | rfl <;> decide
  · have inner := (Lexeme.inner_of_isPlain plain).2
    rw [Numeral.isPlain, Bool.or_eq_true, beq_iff_eq] at plain
    rcases plain with letter | rfl
    · simp [isPlain, isSymbol, letter, inner]
    · decide

theorem param {name : String} (valid : Identifier.isValid name.toList = true) :
    Neat (Lexeme.paramMark ++ name.toList) := by
  refine .of_all (by simp [Lexeme.paramMark]) ?_
  rw [List.all_append, Bool.and_eq_true]
  refine ⟨by decide, List.all_eq_true.2 ?_⟩
  intro c mem
  have tail := Lexeme.isTail_of_isValid valid c mem
  have inner := (Lexeme.inner_of_isTail tail).2
  rw [Identifier.isTail, Bool.or_eq_true, beq_iff_eq] at tail
  rcases tail with letter | rfl
  · simp [isPlain, isSymbol, letter, inner]
  · decide

theorem func (f : Func) : Neat f.name.toList := by
  cases f <;> exact .of_all (by decide) (by decide)

/-- A function name in front of what stands in parentheses. -/
theorem call (f : Func) (ha : Neat a) : Neat (f.name.toList ++ Formula.enclose a) := by
  have neat := (func f).append (by decide : List.all [] isSymbol = true) ha.enclose
  rwa [List.append_nil] at neat

/-- Two arguments of a function. -/
theorem comma (ha : Neat a) (hb : Neat b) : Neat (a ++ [',', ' '] ++ b) :=
  ha.append (by decide) hb

end Neat

/-- The text of a formula is neat. -/
theorem neat_written (t : Formula Float) (level : Nat)
    (writable : ∀ token ∈ t.tokens, token.Writable) : Neat (t.written level) := by
  induction t generalizing level with
  | number x => exact .number (writable (.number x) (by simp [tokens]))
  | param name => exact .param (writable (.param name) (by simp [tokens]))
  | op o l r left right =>
      have leftNeat := left o.precedence fun token mem => writable token (by simp [tokens, mem])
      have rightNeat := right (o.precedence + 1) fun token mem =>
        writable token (by simp [tokens, mem])
      have sign : (' ' :: (o.symbol.toList ++ [' '])).all isSymbol = true := by
        cases o <;> decide
      have neat := leftNeat.append sign rightNeat
      rw [written]
      split
      · exact neat
      · exact neat.enclose
  | curve f a arg =>
      exact .call f.func (arg 1 fun token mem => writable token (by simp [tokens, mem]))
  | random lo hi =>
      have lower := Neat.number (writable (.number lo) (by simp [tokens]))
      have upper := Neat.number (writable (.number hi) (by simp [tokens]))
      exact .call .random (lower.comma upper)
  | map name lo hi low high =>
      have source := Neat.param (writable (.param name) (by simp [tokens]))
      have lower := low 1 fun token mem => writable token (by simp [tokens, mem])
      have upper := high 1 fun token mem => writable token (by simp [tokens, mem])
      exact .call .map ((source.comma lower).comma upper)

end Formula

namespace Postfix

/-- The text of an expression is compiled to its tokens. -/
theorem compile_written {p : Postfix Float} (shape : p.checkShape = .ok ())
    (writable : ∀ token ∈ p, token.Writable) : compile p.written = .ok p := by
  obtain ⟨t, rfl⟩ := Formula.exists_of_checkShape shape
  obtain ⟨lexemes, form, spelled⟩ := t.exists_infix 1 writable
  rw [written_tokens]
  exact form.compile_eq spelled

/-- The text of an expression is neat. -/
theorem neat_written {p : Postfix Float} (shape : p.checkShape = .ok ())
    (writable : ∀ token ∈ p, token.Writable) : Formula.Neat p.written := by
  obtain ⟨t, rfl⟩ := Formula.exists_of_checkShape shape
  rw [written_tokens]
  exact t.neat_written 1 writable

end Postfix
end SynthPatch
