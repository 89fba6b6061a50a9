import SynthPatch.Expr.Error
import SynthPatch.Expr.Token
import SynthPatch.Named
import SynthPatch.Scalar
/-!
# Evaluating an expression

An expression is evaluated on a stack of values.  A parameter stays unresolved on the stack until
it is used, so that a mapping sees which parameter it was handed.  Every random draw comes from a
supply of numbers between zero and one, told apart by the place of its token.

Main results:

- Function {lit}`Postfix.evaluate`: the value of an expression.
- Function {lit}`rescale`: a value carried from one range into another.
- Theorem {lit}`Postfix.run_append`: a row of tokens is evaluated one part after the other.
-/

namespace SynthPatch

variable {α : Type}

/-- What an expression can see of the parameters. -/
structure Scope (α : Type) where
  /-- Current value of a parameter. -/
  value : String → Option α
  /-- Declared bounds of a parameter. -/
  range : String → Option (α × α)

/-- What an expression can see of tables of values and of bounds; a parameter has a range only if it
has both bounds. -/
def Scope.ofTables (values minima maxima : Named α) : Scope α where
  value name := values[name]?
  range name := do return (← minima[name]?, ← maxima[name]?)

/-- The number between zero and one that is drawn at each place of an expression. -/
abbrev Draws (α : Type) :=
  Nat → α

/-- A value on the stack, or a parameter that stands for one. -/
inductive Operand (α : Type) where
  | value (v : α)
  | param (name : String)
deriving DecidableEq, Repr

section Arithmetic

variable [Scalar α]

/-- The result of an operator. -/
def Op.apply : Op → α → α → α
  | .add, a, b => a + b
  | .sub, a, b => a - b
  | .mul, a, b => a * b
  | .div, a, b => a / b

/-- Carry a value from one range into another; a range without width goes to the low end. -/
def rescale (value : α) (source target : α × α) : α :=
  let span := source.2 - source.1
  if Scalar.same span 0 then target.1
  else target.1 + (value - source.1) * (target.2 - target.1) / span

/-- The point of a range that a draw stands for, kept within the range. -/
def between (lo hi draw : α) : α :=
  let point := lo + (hi - lo) * draw
  if hi < point then hi else if point < lo then lo else point

/-- A draw between two bounds, given in either order. -/
def drawBetween (lo hi draw : α) : Except (EvalError α) α :=
  if !Scalar.isFinite (hi - lo) then .error (.randomRange lo hi)
  else
    let (low, high) := if lo ≤ hi then (lo, hi) else (hi, lo)
    .ok (if Scalar.same low high then low else between low high draw)

end Arithmetic

/-! ## The stack -/

namespace Operand

/-- The value an operand stands for. -/
def resolve (scope : Scope α) : Operand α → Except (EvalError α) α
  | .value v => .ok v
  | .param name =>
    match scope.value name with
    | some v => .ok v
    | none => .error (.unknownParam name)

/-- The literal number an operand is. -/
def literal : Operand α → Except (EvalError α) α
  | .value v => .ok v
  | .param _ => .error (.shape .randomArguments)

/-- Take the latest operand off the stack. -/
def pop (what : String) : List (Operand α) → Except (EvalError α) (Operand α × List (Operand α))
  | top :: rest => .ok (top, rest)
  | [] => .error (.shape (.missingOperand what))

end Operand

namespace Postfix

variable [Scalar α]

/-- The stack after one more token; the draw is for a token that needs one. -/
def step (scope : Scope α) (draw : α) (stack : List (Operand α)) :
    Token α → Except (EvalError α) (List (Operand α))
  | .number x => .ok (.value x :: stack)
  | .param name => .ok (.param name :: stack)
  | .op o => do
    let (right, stack) ← Operand.pop o.symbol stack
    let b ← right.resolve scope
    let (left, stack) ← Operand.pop o.symbol stack
    let a ← left.resolve scope
    return .value (o.apply a b) :: stack
  | .func .log => do
    let (arg, stack) ← Operand.pop Func.log.name stack
    let x ← arg.resolve scope
    return .value (Scalar.log x) :: stack
  | .func .exp => do
    let (arg, stack) ← Operand.pop Func.exp.name stack
    let x ← arg.resolve scope
    return .value (Scalar.exp x) :: stack
  | .func .random => do
    let (upper, stack) ← Operand.pop Func.random.name stack
    let hi ← upper.literal
    let (lower, stack) ← Operand.pop Func.random.name stack
    let lo ← lower.literal
    return .value (← drawBetween lo hi draw) :: stack
  | .func .map => do
    let (upper, stack) ← Operand.pop Func.map.name stack
    let hi ← upper.resolve scope
    let (lower, stack) ← Operand.pop Func.map.name stack
    let lo ← lower.resolve scope
    let (source, stack) ← Operand.pop Func.map.name stack
    match source with
    | .value _ => .error (.shape .mapSource)
    | .param name =>
      match scope.range name with
      | none => .error (.missingRange name)
      | some range =>
        let v ← source.resolve scope
        return .value (rescale v range (lo, hi)) :: stack

/-- The stack after a row of tokens, the first of which stands at the given place. -/
def run (scope : Scope α) (draws : Draws α) :
    Nat → List (Operand α) → Postfix α → Except (EvalError α) (List (Operand α))
  | _, stack, [] => .ok stack
  | place, stack, t :: rest => do
    run scope draws (place + 1) (← step scope (draws place) stack t) rest

/-- A row of tokens is evaluated one part after the other. -/
theorem run_append (scope : Scope α) (draws : Draws α) (place : Nat) (stack : List (Operand α))
    (p q : Postfix α) :
    run scope draws place stack (p ++ q) =
      run scope draws place stack p >>= fun s => run scope draws (place + p.length) s q := by
  induction p generalizing place stack with
  | nil => rfl
  | cons t rest ih =>
    rw [List.cons_append, run, run]
    cases step scope (draws place) stack t with
    | error e => rfl
    | ok s =>
      have := ih (place + 1) s
      simp only [List.length_cons]
      rw [show place + (rest.length + 1) = place + 1 + rest.length by omega]
      exact this

/-- The value of an expression. -/
def evaluate (scope : Scope α) (draws : Draws α) (p : Postfix α) : Except (EvalError α) α := do
  match ← run scope draws 0 [] p with
  | [] => .error (.shape .empty)
  | [only] => only.resolve scope
  | stack => .error (.shape (.danglingOperands stack.length))

end Postfix
end SynthPatch
