import SynthPatch.Conversion
import SynthPatch.Expr.Compile
import SynthPatch.Expr.Evaluate
import SynthPatch.Proofs.Outcome
/-!
# Expressions as trees

An expression that has been compiled is a row of tokens.  This module holds the trees such rows
stand for, the row of each tree, and the value of a tree by recursion over its parts.

Main results:

- Functions {lit}`Formula.tokens` and {lit}`Formula.value`: the tokens of a tree in postfix order,
  and its value without any stack.
- Theorem {lit}`Formula.run_shape`: the tokens of a tree make one expression.
- Theorem {lit}`Formula.exists_of_checkShape`: tokens that make one expression are those of a tree.
- Theorem {lit}`Postfix.exists_of_compile`: what an expression that compiles has been through.
-/

namespace SynthPatch

/-- A function of one number. -/
inductive Curve where
  | log | exp
deriving DecidableEq, Repr

namespace Curve

/-- The function as expressions name it. -/
def func : Curve → Func
  | log => .log
  | exp => .exp

/-- The result of the function. -/
def apply {α : Type} [Scalar α] : Curve → α → α
  | log, x => Scalar.log x
  | exp, x => Scalar.exp x

end Curve

/-- An expression as a tree.  A random draw is between two literal numbers and a mapping starts from
a parameter, so no other draws and mappings can be built. -/
inductive Formula (α : Type) where
  /-- A literal number. -/
  | number (value : α)
  /-- The control parameter of a name. -/
  | param (name : String)
  /-- An operator between two operands. -/
  | op (op : Op) (left right : Formula α)
  /-- A function of one number. -/
  | curve (f : Curve) (argument : Formula α)
  /-- A random draw between two bounds. -/
  | random (lo hi : α)
  /-- A parameter carried from its declared range into another. -/
  | map (name : String) (lo hi : Formula α)
deriving DecidableEq, Repr

namespace Formula

variable {α β : Type}

/-! ## Tokens -/

/-- The tokens of a formula, each operator and function behind its operands. -/
def tokens : Formula α → Postfix α
  | number x => [.number x]
  | param name => [.param name]
  | op o l r => l.tokens ++ r.tokens ++ [.op o]
  | curve f a => a.tokens ++ [.func f.func]
  | random lo hi => [.number lo, .number hi, .func .random]
  | map name lo hi => .param name :: (lo.tokens ++ hi.tokens ++ [.func .map])

/-- How many tokens a formula has. -/
def size : Formula α → Nat
  | number _ | param _ => 1
  | op _ l r => l.size + r.size + 1
  | curve _ a => a.size + 1
  | random _ _ => 3
  | map _ lo hi => lo.size + hi.size + 2

@[simp]
theorem length_tokens (t : Formula α) : t.tokens.length = t.size := by
  induction t with
  | number x => rfl
  | param name => rfl
  | op o l r left right =>
      rw [tokens, List.length_append, List.length_append, left, right]
      rfl
  | curve f a arg => simp [tokens, size, arg]
  | random lo hi => rfl
  | map name lo hi low high =>
      simp only [tokens, List.length_cons, List.length_append, low, high, List.length_nil, size]

/-- A formula in another arithmetic. -/
def mapNumbers (f : α → β) : Formula α → Formula β
  | number x => number (f x)
  | param name => param name
  | op o l r => op o (l.mapNumbers f) (r.mapNumbers f)
  | curve g a => curve g (a.mapNumbers f)
  | random lo hi => random (f lo) (f hi)
  | map name lo hi => map name (lo.mapNumbers f) (hi.mapNumbers f)

/-- The tokens of a formula in another arithmetic are its tokens carried over. -/
theorem tokens_mapNumbers (f : α → β) (t : Formula α) :
    (t.mapNumbers f).tokens = Postfix.map f t.tokens := by
  unfold Postfix.map
  induction t with
  | number x => rfl
  | param name => rfl
  | op o l r left right => simp [mapNumbers, tokens, left, right, Token.map]
  | curve g a arg => simp [mapNumbers, tokens, arg, Token.map]
  | random lo hi => rfl
  | map name lo hi low high => simp [mapNumbers, tokens, low, high, Token.map]

/-! ## Value -/

section Value

variable [Scalar α]

/-- The value of a parameter. -/
def valueOf (scope : Scope α) (name : String) : Except (EvalError α) α :=
  match scope.value name with
  | some v => .ok v
  | none => .error (.unknownParam name)

/-- The declared range of a parameter. -/
def rangeOf (scope : Scope α) (name : String) : Except (EvalError α) (α × α) :=
  match scope.range name with
  | some range => .ok range
  | none => .error (.missingRange name)

/-- The value of a formula whose first token stands at the given place, from the values of its
parts.  A random draw takes the number that is drawn at the place of its own token. -/
def value (scope : Scope α) (draws : Draws α) : Formula α → Nat → Except (EvalError α) α
  | number x, _ => .ok x
  | param name, _ => valueOf scope name
  | op o l r, place => do
    let a ← l.value scope draws place
    let b ← r.value scope draws (place + l.size)
    return o.apply a b
  | curve f a, place => do
    let x ← a.value scope draws place
    return f.apply x
  | random lo hi, place => drawBetween lo hi (draws (place + 2))
  | map name lo hi, place => do
    let v ← valueOf scope name
    let range ← rangeOf scope name
    let a ← lo.value scope draws (place + 1)
    let b ← hi.value scope draws (place + 1 + lo.size)
    return rescale v range (a, b)

end Value

/-! ## Shape -/

/-- What the check of shapes remembers of a formula. -/
def slot : Formula α → Slot
  | number _ => .literal
  | param _ => .param
  | _ => .computed

theorem eq_number_of_slot {t : Formula α} (h : t.slot = .literal) : ∃ x, t = number x := by
  cases t <;> cases h
  exact ⟨_, rfl⟩

theorem eq_param_of_slot {t : Formula α} (h : t.slot = .param) : ∃ name, t = param name := by
  cases t <;> cases h
  exact ⟨_, rfl⟩

/-- The tokens of a formula leave one value on the stack of shapes. -/
theorem run_shape (t : Formula α) (stack : List Slot) :
    Slot.run stack t.tokens = .ok (t.slot :: stack) := by
  induction t generalizing stack with
  | number x => rfl
  | param name => rfl
  | op o l r left right =>
      rw [tokens, Slot.run_append, Slot.run_append, left]
      exact congrArg (· >>= _) (right _)
  | curve f a arg =>
      rw [tokens, Slot.run_append, arg]
      cases f <;> rfl
  | random lo hi => rfl
  | map name lo hi low high =>
      rw [tokens, Slot.run]
      change Slot.run (.param :: stack) _ = _
      rw [Slot.run_append, Slot.run_append, low]
      exact congrArg (· >>= _) (high _)

/-- The tokens of a formula make one expression. -/
theorem checkShape_tokens (t : Formula α) : Postfix.checkShape t.tokens = .ok () := by
  rw [Postfix.checkShape, run_shape]
  rfl

/-- The tokens of the formulas on a stack, the latest of which comes first. -/
def stacked : List (Formula α) → Postfix α
  | [] => []
  | t :: below => stacked below ++ t.tokens

/-- One more token that the check of shapes takes turns formulas into formulas: those that stood on
the stack as its operands become one with it. -/
theorem exists_of_step {row : List (Formula α)} {stack : List Slot} {token : Token α}
    (h : Slot.step (row.map slot) token = .ok stack) :
    ∃ next : List (Formula α), next.map slot = stack ∧ stacked next = stacked row ++ [token] := by
  cases token with
  | number x =>
      cases h
      exact ⟨number x :: row, rfl, rfl⟩
  | param name =>
      cases h
      exact ⟨param name :: row, rfl, rfl⟩
  | op o =>
      match row, h with
      | r :: l :: below, rfl => exact ⟨op o l r :: below, rfl, by simp [stacked, tokens]⟩
  | func f =>
      cases f with
      | log =>
          match row, h with
          | a :: below, rfl =>
              exact ⟨curve .log a :: below, rfl, by simp [stacked, tokens, Curve.func]⟩
      | exp =>
          match row, h with
          | a :: below, rfl =>
              exact ⟨curve .exp a :: below, rfl, by simp [stacked, tokens, Curve.func]⟩
      | random =>
          match row, h with
          | [a], h => simp [Slot.step] at h
          | r :: l :: below, h =>
              simp only [Slot.step, List.map_cons] at h
              split at h
              · next slots =>
                  injection slots with right slots
                  injection slots with left _
                  obtain ⟨hi, rfl⟩ := eq_number_of_slot right
                  obtain ⟨lo, rfl⟩ := eq_number_of_slot left
                  cases h
                  exact ⟨random lo hi :: below, by simp_all [slot], by simp [stacked, tokens]⟩
              · cases h
              · cases h
      | map =>
          match row, h with
          | [a], h | [a, b], h => simp [Slot.step] at h
          | hi :: lo :: source :: below, h =>
              simp only [Slot.step, List.map_cons] at h
              split at h
              · next slots =>
                  injection slots with _ slots
                  injection slots with _ slots
                  injection slots with first _
                  obtain ⟨name, rfl⟩ := eq_param_of_slot first
                  cases h
                  exact ⟨map name lo hi :: below, by simp_all [slot], by simp [stacked, tokens]⟩
              · cases h
              · cases h

/-- Tokens that the check of shapes takes turn formulas into formulas. -/
theorem exists_of_run {p : Postfix α} {row : List (Formula α)} {stack : List Slot}
    (h : Slot.run (row.map slot) p = .ok stack) :
    ∃ next : List (Formula α), next.map slot = stack ∧ stacked next = stacked row ++ p := by
  induction p generalizing row with
  | nil =>
      cases h
      exact ⟨row, rfl, by simp⟩
  | cons token rest ih =>
      rw [Slot.run] at h
      obtain ⟨after, taken, done⟩ := Outcome.bind_eq_ok_iff.1 h
      obtain ⟨middle, rfl, first⟩ := exists_of_step taken
      obtain ⟨next, slots, second⟩ := ih done
      exact ⟨next, slots, by rw [second, first, List.append_assoc, List.singleton_append]⟩

/-- Tokens that make one expression are those of a formula. -/
theorem exists_of_checkShape {p : Postfix α} (h : p.checkShape = .ok ()) :
    ∃ t : Formula α, t.tokens = p := by
  obtain ⟨stack, run, single⟩ := Outcome.bind_eq_ok_iff.1 h
  obtain ⟨row, rfl, same⟩ := @exists_of_run _ _ [] _ run
  match row, same with
  | [t], same => exact ⟨t, same⟩
  | [], same => cases single
  | a :: b :: rest, same => cases single

end Formula

namespace Postfix

/-! ## Another arithmetic -/

section Map

variable {α β : Type} (f : α → β) {p : Postfix α}

/-- The tokens of an expression make one expression in every arithmetic. -/
theorem checkShape_map (h : p.checkShape = .ok ()) : (Postfix.map f p).checkShape = .ok () := by
  obtain ⟨t, rfl⟩ := Formula.exists_of_checkShape h
  rw [← Formula.tokens_mapNumbers]
  exact Formula.checkShape_tokens _

theorem param_mem_map {name : String} : .param name ∈ Postfix.map f p ↔ .param name ∈ p := by
  rw [← references_iff, ← references_iff, references, params_map, references]

end Map

/-! ## Compiling -/

/-- An expression that compiles is what the lexemes of its text come to in postfix order, and makes
one expression. -/
theorem exists_of_compile {text : List Char} {p : Postfix Float} (h : compile text = .ok p) :
    ∃ lexemes, Lexeme.ofText text = .ok lexemes ∧
      ofLexemes (Lexeme.foldSigns true lexemes) = .ok p ∧ p.checkShape = .ok () := by
  obtain ⟨lexemes, read, h⟩ := Outcome.bind_eq_ok_iff.1 h
  dsimp only at h
  split at h
  · cases h
  · obtain ⟨q, ordered, h⟩ := Outcome.bind_eq_ok_iff.1 h
    split at h
    · next shape =>
        cases h
        exact ⟨lexemes, read, ordered, shape⟩
    · cases h

end Postfix
end SynthPatch
