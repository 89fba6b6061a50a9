import SynthPatch.Expr.Reorder
/-!
# Compiling an expression

The text of an expression becomes its tokens in postfix order, or the first fault found in it.
Before an expression is ever evaluated it is known whether its operators and functions find their
operands.  The check runs over the tokens with a stack that remembers of each value only whether it
is a literal, a parameter or computed.

Main results:

- Function {lit}`Postfix.compile`: the tokens of a text.
- Function {lit}`Postfix.checkShape`: the tokens make exactly one expression.
- Theorem {lit}`Slot.run_append`: a row of tokens is checked one part after the other.
-/

namespace SynthPatch

/-! ## The shape of an expression -/

/-- What is known of a value before evaluation. -/
inductive Slot where
  | literal
  | param
  | computed
deriving DecidableEq, Repr

namespace Slot

variable {α : Type}

/-- The values on the stack after one more token, the latest first. -/
def step (stack : List Slot) : Token α → Except ShapeError (List Slot)
  | .number _ => .ok (.literal :: stack)
  | .param _ => .ok (.param :: stack)
  | .op o =>
    match stack with
    | _ :: _ :: rest => .ok (.computed :: rest)
    | _ => .error (.missingOperand o.symbol)
  | .func .log =>
    match stack with
    | _ :: rest => .ok (.computed :: rest)
    | _ => .error (.missingOperand Func.log.name)
  | .func .exp =>
    match stack with
    | _ :: rest => .ok (.computed :: rest)
    | _ => .error (.missingOperand Func.exp.name)
  | .func .random =>
    match stack with
    | .literal :: .literal :: rest => .ok (.computed :: rest)
    | _ :: _ :: _ => .error .randomArguments
    | _ => .error (.missingOperand Func.random.name)
  | .func .map =>
    match stack with
    | _ :: _ :: .param :: rest => .ok (.computed :: rest)
    | _ :: _ :: _ :: _ => .error .mapSource
    | _ => .error (.missingOperand Func.map.name)

/-- The values on the stack after a row of tokens. -/
def run (stack : List Slot) : Postfix α → Except ShapeError (List Slot)
  | [] => .ok stack
  | t :: rest => do run (← step stack t) rest

/-- A row of tokens is checked one part after the other. -/
theorem run_append (stack : List Slot) (p q : Postfix α) :
    run stack (p ++ q) = run stack p >>= fun s => run s q := by
  induction p generalizing stack with
  | nil => rfl
  | cons t rest ih =>
    rw [List.cons_append, run, run]
    cases step stack t with
    | error e => rfl
    | ok s => exact ih s

end Slot

namespace Postfix

variable {α : Type}

/-- The tokens make exactly one expression. -/
def checkShape (p : Postfix α) : Except ShapeError Unit := do
  match ← Slot.run [] p with
  | [] => .error .empty
  | [_] => .ok ()
  | stack => .error (.danglingOperands stack.length)

/-! ## From text to tokens -/

/-- The tokens of a text, known to make exactly one expression. -/
def compile (text : List Char) : Except CompileError (Postfix Float) := do
  let lexemes := Lexeme.foldSigns true (← Lexeme.ofText text)
  if lexemes.isEmpty then .error (.shape .empty)
  else
    let p ← ofLexemes lexemes
    match p.checkShape with
    | .ok () => .ok p
    | .error fault => .error (.shape fault)

end Postfix
end SynthPatch
