/-!
# Expressions in postfix order

A tweak expression is kept as its tokens in operator-last order.  This module holds the operators
and functions, the tokens, and what an expression refers to.

Main results:

- Theorem {lit}`Postfix.references_iff`: an expression refers to a name exactly when the name is
  among its parameters.
- Theorem {lit}`Func.ofName?_name`: a function is found by its own name.
-/

namespace SynthPatch

/-- A binary operator. -/
inductive Op where
  | add | sub | mul | div
deriving DecidableEq, Repr

namespace Op

/-- How tightly an operator binds. -/
def precedence : Op → Nat
  | add | sub => 1
  | mul | div => 2

/-- The sign an operator is written with. -/
def symbol : Op → String
  | add => "+"
  | sub => "-"
  | mul => "*"
  | div => "/"

end Op

/-- A built-in function. -/
inductive Func where
  | log | exp | random | map
deriving DecidableEq, Repr

namespace Func

/-- The name a function is called by. -/
def name : Func → String
  | log => "log"
  | exp => "exp"
  | random => "random"
  | map => "map"

/-- The function of a name. -/
def ofName? (word : String) : Option Func :=
  [log, exp, random, map].find? fun f => f.name == word

/-- A function is found by its own name. -/
@[simp]
theorem ofName?_name (f : Func) : ofName? f.name = some f := by
  cases f <;> decide

/-- How many arguments a function takes. -/
def arity : Func → Nat
  | log | exp => 1
  | random => 2
  | map => 3

end Func

/-- One token of an expression in postfix order. -/
inductive Token (α : Type) where
  /-- A literal number. -/
  | number (value : α)
  /-- The control parameter of a name. -/
  | param (name : String)
  /-- An operator on the two values before it. -/
  | op (op : Op)
  /-- A function of the values before it. -/
  | func (func : Func)
deriving DecidableEq, Repr

namespace Token

variable {α : Type}

/-- The parameter a token refers to. -/
def param? : Token α → Option String
  | param name => some name
  | _ => none

/-- The token draws at random when it is evaluated. -/
def isRandom : Token α → Bool
  | func .random => true
  | _ => false

end Token

/-- An expression with every operator and function after its operands. -/
abbrev Postfix (α : Type) :=
  List (Token α)

namespace Postfix

variable {α : Type}

/-- The parameters an expression refers to, in order of appearance. -/
def params (p : Postfix α) : List String :=
  p.filterMap Token.param?

/-- The expression refers to the parameter. -/
def references (p : Postfix α) (name : String) : Bool :=
  p.params.contains name

/-- An expression refers to a name exactly when the name is among its parameters. -/
theorem references_iff {p : Postfix α} {name : String} :
    p.references name = true ↔ Token.param name ∈ p := by
  rw [references, List.contains_iff_mem, params, List.mem_filterMap]
  constructor
  · rintro ⟨t, mem, eq⟩
    cases t <;> cases eq
    exact mem
  · intro mem
    exact ⟨_, mem, rfl⟩

/-- The expression draws at random when it is evaluated. -/
def isRandom (p : Postfix α) : Bool :=
  p.any Token.isRandom

end Postfix
end SynthPatch
