import SynthPatch.Expr.Token
import SynthPatch.Json.Tree
/-!
# Expressions as text

An expression is written with its tokens in postfix order, on a line for messages and as a list in
documents, where numbers stay numbers.
-/

namespace SynthPatch

namespace Token

/-- A token as it is written in messages. -/
def text : Token Float → String
  | number x => showNumber x
  | param name => "param." ++ name
  | op o => o.symbol
  | func f => f.name

/-- A token in a document. -/
def document : Token Float → Json
  | number x => .ofFloat x
  | t => .ofString t.text

end Token

namespace Postfix

/-- An expression as it is written in messages. -/
def text (p : Postfix Float) : String :=
  " ".intercalate (p.map Token.text)

/-- An expression in a document. -/
def document (p : Postfix Float) : Json :=
  .array (p.map Token.document)

end Postfix
end SynthPatch
