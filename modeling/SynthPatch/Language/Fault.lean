import SynthPatch.Expr.Error
import SynthPatch.Language.Statement
/-!
# Faults of a patch

Everything that can be wrong with a text that has the form of a patch, and the error that reading
a patch ends in.
-/

namespace SynthPatch

/-- What is wrong with an item of a patch. -/
inductive Fault where
  /-- There is no header. -/
  | missingHeader
  /-- There is a header already. -/
  | secondHeader
  | unknownHeaderField (key : String)
  /-- A parameter has the name of a module. -/
  | parameterNamedAsModule (name : String)
  | parameterTaken (name : String)
  | unknownParameterField (key : String)
  | badType (value : String)
  | badMutable (value : String)
  | badNumber (key value : String)
  | missingField (parameter key : String)
  /-- A tag declares no kind that is at hand. -/
  | unknownKind (tag : String)
  | moduleTaken (id : String)
  /-- A module has the name of a parameter. -/
  | moduleNamedAsParameter (id : String)
  | needsTable (kind : Kind) (id : String)
  | tableNotAllowed
  | unknownModule (id : String)
  /-- A cable runs from a module to itself. -/
  | selfCable (id : String)
  | noOutput (source : Endpoint)
  | noInput (target : Endpoint)
  | cableTaken (cable : Cable)
  | noTweak (target : Endpoint)
  | tweakTaken (target : Endpoint)
  | badExpression (source : String) (error : CompileError)
  | unknownParameter (name : String)
deriving DecidableEq, Repr

namespace Fault

/-- The fault in words. -/
def message : Fault → String
  | missingHeader => "missing @synth header"
  | secondHeader => "only one @synth header is allowed"
  | unknownHeaderField key => s!"unknown synth attribute '{key}'"
  | parameterNamedAsModule name => s!"parameter '{name}' clashes with a module of the same name"
  | parameterTaken name => s!"parameter '{name}' is already defined"
  | unknownParameterField key => s!"unknown parameter attribute '{key}'"
  | badType value => s!"parameter type must be float or int, not '{value}'"
  | badMutable value => s!"mutable must be yes or no, not '{value}'"
  | badNumber key value => s!"'{key}' must be a number, not '{value}'"
  | missingField parameter key => s!"parameter '{parameter}' is missing '{key}'"
  | unknownKind tag => s!"unknown module type '{tag}'"
  | moduleTaken id => s!"module '{id}' is already defined"
  | moduleNamedAsParameter id => s!"module '{id}' clashes with a parameter of the same name"
  | needsTable kind id => s!"{kind.tag} '{id}' needs a TABLE"
  | tableNotAllowed => s!"TABLE is only allowed on {Kind.custom.tag}"
  | unknownModule id => s!"unknown module '{id}'"
  | selfCable id => s!"cannot patch module '{id}' into itself"
  | noOutput source => s!"module '{source.module}' has no output '{source.port}'"
  | noInput target => s!"module '{target.module}' has no input '{target.port}'"
  | cableTaken cable => s!"duplicate patch {cable.text}"
  | noTweak target => s!"module '{target.module}' has no tweakable '{target.port}'"
  | tweakTaken target => s!"'{target.text}' is already tweaked"
  | badExpression source error => s!"bad expression '{source}': {error.message}"
  | unknownParameter name => s!"unknown parameter 'param.{name}'"

end Fault

/-- Why a text is not a patch, with the line at fault. -/
inductive ParseError where
  /-- The text does not have the form of a patch. -/
  | shape (line : Nat)
  /-- An item of the patch makes no sense. -/
  | meaning (line : Nat) (fault : Fault)
deriving DecidableEq, Repr

namespace ParseError

/-- The line at fault. -/
def line : ParseError → Nat
  | shape line => line
  | meaning line _ => line

end ParseError
end SynthPatch
