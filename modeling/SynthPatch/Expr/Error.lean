import SynthPatch.Decimal.Layout
/-!
# Faults of expressions

What can be wrong with an expression as it is written, and what can go wrong when it is evaluated.
A fault of shape can be found at both times.
-/

namespace SynthPatch

/-- The tokens do not make one expression. -/
inductive ShapeError where
  /-- There is no token. -/
  | empty
  /-- An operator or function has too few values before it. -/
  | missingOperand (what : String)
  /-- More than one value is left at the end, or none where one is needed. -/
  | danglingOperands (count : Nat)
  /-- An argument of a random draw is not a literal number. -/
  | randomArguments
  /-- The first argument of a mapping is not a parameter. -/
  | mapSource
deriving DecidableEq, Repr

/-- The text is not an expression. -/
inductive CompileError where
  /-- A word is no number, parameter or function. -/
  | unknownToken (word : String)
  /-- Parentheses or commas do not match. -/
  | unbalancedParens
  /-- The tokens do not make one expression. -/
  | shape (fault : ShapeError)
deriving DecidableEq, Repr

/-- The expression has no value. -/
inductive EvalError (α : Type) where
  /-- The tokens do not make one expression. -/
  | shape (fault : ShapeError)
  /-- The bounds of a random draw are too far apart. -/
  | randomRange (lo hi : α)
  /-- A parameter has no value. -/
  | unknownParam (name : String)
  /-- A mapped parameter has no range. -/
  | missingRange (name : String)
deriving DecidableEq, Repr

namespace ShapeError

/-- The fault in words. -/
def message : ShapeError → String
  | empty => "empty expression"
  | missingOperand what => s!"'{what}' is missing an operand"
  | danglingOperands count => s!"expression leaves {count} values; expected exactly one"
  | randomArguments => "random() takes two numeric literals"
  | mapSource => "map() takes a param. reference as its first argument"

end ShapeError

namespace CompileError

/-- The fault in words. -/
def message : CompileError → String
  | unknownToken word => s!"unrecognised token '{word}'"
  | unbalancedParens => "unbalanced parentheses"
  | shape fault => fault.message

end CompileError

namespace EvalError

/-- The fault in words. -/
def message : EvalError Float → String
  | shape fault => fault.message
  | randomRange lo hi =>
    s!"random({showNumber lo}, {showNumber hi}) spans more than a float can hold"
  | unknownParam name => s!"unknown parameter '{name}'"
  | missingRange name => s!"parameter '{name}' has no declared range"

end EvalError
end SynthPatch
