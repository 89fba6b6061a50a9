import SynthPatch.Expr.Lexeme
/-!
# Operators behind their operands

The lexemes of an expression are brought into postfix order in one pass.  Operators, functions and
opening parentheses that still wait for operands are kept on a stack, the latest on top.

Main results:

- Function {lit}`Postfix.ofLexemes`: the tokens of an expression in postfix order.
- Theorems {lit}`Pending.takeTight_append`, {lit}`Pending.takeOps_append`: what is taken off the
  stack and what is left make up the stack.
-/

namespace SynthPatch

/-- What waits for its operands, or for its closing parenthesis. -/
inductive Pending where
  | op (op : Op)
  | func (func : Func)
  | opening
deriving DecidableEq, Repr

namespace Pending

/-- Take the operators off the stack that bind at least as tightly as the given one. -/
def takeTight (o : Op) : List Pending → List Op × List Pending
  | .op top :: rest =>
    if top.precedence < o.precedence then ([], .op top :: rest)
    else
      let (taken, left) := takeTight o rest
      (top :: taken, left)
  | rest => ([], rest)

/-- Take all operators off the top of the stack. -/
def takeOps : List Pending → List Op × List Pending
  | .op top :: rest =>
    let (taken, left) := takeOps rest
    (top :: taken, left)
  | rest => ([], rest)

/-- The operators taken off and what is left make up the stack. -/
theorem takeTight_append (o : Op) (stack : List Pending) :
    (takeTight o stack).1.map .op ++ (takeTight o stack).2 = stack := by
  induction stack with
  | nil => rfl
  | cons top rest ih =>
    cases top with
    | op p =>
      unfold takeTight
      split
      · rfl
      · simpa using ih
    | func f => rfl
    | opening => rfl

/-- The operators taken off and what is left make up the stack. -/
theorem takeOps_append (stack : List Pending) :
    (takeOps stack).1.map .op ++ (takeOps stack).2 = stack := by
  induction stack with
  | nil => rfl
  | cons top rest ih =>
    cases top with
    | op p => simpa [takeOps] using ih
    | func f => rfl
    | opening => rfl

end Pending

namespace Postfix

/-- The tokens of operators taken off the stack. -/
def ofOps (ops : List Op) : Postfix Float :=
  ops.map .op

/-- The tokens that are still due when the text is at its end. -/
def drain : List Pending → Except CompileError (Postfix Float)
  | [] => .ok []
  | .op o :: rest => (drain rest).map (.op o :: ·)
  | .func f :: _ => .error (.shape (.missingOperand f.name))
  | .opening :: _ => .error .unbalancedParens

/-- The tokens that a row of lexemes and a stack come to. -/
def reorder (stack : List Pending) : List Lexeme → Except CompileError (Postfix Float)
  | [] => drain stack
  | .number x :: rest => (reorder stack rest).map (.number x :: ·)
  | .param name :: rest => (reorder stack rest).map (.param name :: ·)
  | .func f :: rest => reorder (.func f :: stack) rest
  | .opening :: rest => reorder (.opening :: stack) rest
  | .op o :: rest =>
    let (ops, below) := Pending.takeTight o stack
    (reorder (.op o :: below) rest).map (ofOps ops ++ ·)
  | .comma :: rest =>
    match Pending.takeOps stack with
    | (ops, .opening :: below) => (reorder (.opening :: below) rest).map (ofOps ops ++ ·)
    | _ => .error .unbalancedParens
  | .closing :: rest =>
    match Pending.takeOps stack with
    | (ops, .opening :: .func f :: below) => (reorder below rest).map (ofOps ops ++ .func f :: ·)
    | (ops, .opening :: below) => (reorder below rest).map (ofOps ops ++ ·)
    | _ => .error .unbalancedParens

/-- The tokens of an expression in postfix order. -/
def ofLexemes (lexemes : List Lexeme) : Except CompileError (Postfix Float) :=
  reorder [] lexemes

end Postfix
end SynthPatch
