import SynthPatch.Expr.Token
import SynthPatch.Module.Kind
/-!
# Statements of the patch language

A patch is written as a header, parameters, modules, cables between modules, tweaks of module
properties, and comments.  A statement is the checked form of one of these.
-/

namespace SynthPatch

/-- A port or property of a module. -/
structure Endpoint where
  module : String
  port : String
deriving DecidableEq, Repr

namespace Endpoint

/-- The endpoint as it is written. -/
def text (e : Endpoint) : String :=
  e.module ++ "." ++ e.port

end Endpoint

/-- A cable from an output to an input. -/
structure Cable where
  source : Endpoint
  target : Endpoint
deriving DecidableEq, Repr

namespace Cable

/-- The cable as it is written. -/
def text (c : Cable) : String :=
  c.source.text ++ " -> " ++ c.target.text

end Cable

/-- What a patch says about itself. -/
structure Header where
  shortname : String
  longname : String := ""
  version : String := ""
  author : String := ""
  doc : String := ""
  type : String := ""
deriving DecidableEq, Repr

/-- The numbers a parameter is meant to take. -/
inductive NumberType where
  | float
  | int
deriving DecidableEq, Repr

namespace NumberType

/-- The name of a number type. -/
def name : NumberType → String
  | float => "float"
  | int => "int"

/-- The number type of a name. -/
def ofName? : String → Option NumberType
  | "float" => some float
  | "int" => some int
  | _ => none

end NumberType

/-- A control parameter. -/
structure Parameter (α : Type) where
  name : String
  type : NumberType
  /-- It may be changed while a voice sounds. -/
  mutable : Bool
  step : α
  min : α
  max : α
  default : α
  doc : String
deriving DecidableEq, Repr

/-- A module of a patch. -/
structure ModuleDecl where
  id : String
  kind : Kind
  /-- The wavetable it plays. -/
  table : Option String
deriving DecidableEq, Repr

/-- An expression that sets a property of a module. -/
structure Tweak (α : Type) where
  target : Endpoint
  value : Postfix α
deriving DecidableEq, Repr

/-- A statement of a patch. -/
inductive Statement (α : Type) where
  | header (header : Header)
  | parameter (parameter : Parameter α)
  | module (decl : ModuleDecl)
  | cable (cable : Cable)
  | tweak (tweak : Tweak α)
  | comment (text : String)
deriving DecidableEq, Repr

/-- The sink that every patch has without declaring it. -/
def sinkId : String :=
  "audio"

/-- The parameters that every patch has without declaring them. -/
def implicitParameters : List String :=
  ["pitch", "level"]

end SynthPatch
