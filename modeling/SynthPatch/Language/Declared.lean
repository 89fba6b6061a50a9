import SynthPatch.Language.Statement
/-!
# What statements declare

A statement is checked against the statements before it.  Everything that such a check needs to
know is read off the list of those statements.
-/

namespace SynthPatch
namespace Statement

variable {α : Type}

/-- The module a statement declares. -/
def module? : Statement α → Option ModuleDecl
  | .module decl => some decl
  | _ => none

/-- The parameter a statement declares. -/
def parameter? : Statement α → Option (Parameter α)
  | .parameter p => some p
  | _ => none

/-- The cable a statement lays. -/
def cable? : Statement α → Option Cable
  | .cable c => some c
  | _ => none

/-- The tweak a statement makes. -/
def tweak? : Statement α → Option (Tweak α)
  | .tweak t => some t
  | _ => none

/-- The header a statement is. -/
def header? : Statement α → Option Header
  | .header h => some h
  | _ => none

/-- Kind of a module among the declared ones and the sink. -/
def kindOf? (statements : List (Statement α)) (id : String) : Option Kind :=
  if id = sinkId then some .audio
  else ((statements.filterMap module?).find? (·.id = id)).map (·.kind)

/-- A parameter of the name is declared. -/
def declaresParameter (statements : List (Statement α)) (name : String) : Bool :=
  (statements.filterMap parameter?).any (·.name = name)

/-- A parameter of the name can be referred to. -/
def knowsParameter (statements : List (Statement α)) (name : String) : Bool :=
  implicitParameters.contains name || declaresParameter statements name

/-- The property is tweaked. -/
def tweaks (statements : List (Statement α)) (target : Endpoint) : Bool :=
  (statements.filterMap tweak?).any (·.target = target)

/-- The cable is laid. -/
def lays (statements : List (Statement α)) (cable : Cable) : Bool :=
  (statements.filterMap cable?).contains cable

/-- There is a header. -/
def hasHeader (statements : List (Statement α)) : Bool :=
  statements.any (·.header?.isSome)

end Statement
end SynthPatch
