import SynthPatch.Decimal.Numeral
import SynthPatch.Expr.Compile
import SynthPatch.Language.Declared
import SynthPatch.Language.Fault
import SynthPatch.Language.Grammar
import SynthPatch.Module.Registry
/-!
# Checking a patch

Each item of a patch is checked against the kinds at hand and the statements before it, from top to
bottom; names are declared before they are used.  The first fault ends the check.

Main results:

- Function {lit}`Checker.parse`: the statements of a patch, or what is wrong with it.
- Theorem {lit}`Checker.checkAll_cons`: an item is checked before those behind it.
-/

namespace SynthPatch
namespace Checker

/-- The result of a check: a fault comes with the place it was found at. -/
abbrev Checked (β : Type) :=
  Except (Located Fault) β

/-- End a check with a fault at a place. -/
def fail {β : Type} (place : List Char) (fault : Fault) : Checked β :=
  .error ⟨place, fault⟩

/-- Go on if a condition holds. -/
def require (holds : Bool) (place : List Char) (fault : Fault) : Checked Unit :=
  if holds then .ok () else fail place fault

/-! ## Header -/

/-- Set a field of the header. -/
def setHeaderField (header : Header) (field : Located Attribute) : Checked Header :=
  let text := field.item.value
  match field.item.key with
  | "longname" => .ok { header with longname := text }
  | "version" => .ok { header with version := text }
  | "author" => .ok { header with author := text }
  | "doc" => .ok { header with doc := text }
  | "type" => .ok { header with type := text }
  | key => fail field.place (.unknownHeaderField key)

/-- Check the header of a patch. -/
def checkHeader (before : List (Statement Float)) (place : List Char) (name : String)
    (fields : List (Located Attribute)) : Checked Header := do
  require (!Statement.hasHeader before) place .secondHeader
  fields.foldlM setHeaderField { shortname := name }

/-! ## Parameters -/

/-- A parameter whose bounds may not be known yet. -/
structure Draft where
  type : NumberType := .float
  mutable : Bool := true
  step : Float := 0.01
  min : Option Float := none
  max : Option Float := none
  default : Option Float := none
  doc : String := ""

/-- The number of a field. -/
def numberField (field : Located Attribute) : Checked Float :=
  match readFloat field.item.value.toList with
  | some x => .ok x
  | none => fail field.place (.badNumber field.item.key field.item.value)

/-- Set a field of a parameter. -/
def setParameterField (draft : Draft) (field : Located Attribute) : Checked Draft :=
  let text := field.item.value
  match field.item.key with
  | "type" =>
    match NumberType.ofName? text with
    | some type => .ok { draft with type }
    | none => fail field.place (.badType text)
  | "mutable" =>
    match text with
    | "yes" => .ok { draft with mutable := true }
    | "no" => .ok { draft with mutable := false }
    | _ => fail field.place (.badMutable text)
  | "step" => (numberField field).map fun step => { draft with step }
  | "min" => (numberField field).map fun min => { draft with min := some min }
  | "max" => (numberField field).map fun max => { draft with max := some max }
  | "default" => (numberField field).map fun default => { draft with default := some default }
  | "doc" => .ok { draft with doc := text }
  | key => fail field.place (.unknownParameterField key)

/-- A bound that a parameter must have. -/
def requiredField (place : List Char) (name key : String) : Option Float → Checked Float
  | some x => .ok x
  | none => fail place (.missingField name key)

/-- Check a parameter. -/
def checkParameter (before : List (Statement Float)) (place : List Char) (name : String)
    (fields : List (Located Attribute)) : Checked (Parameter Float) := do
  require (Statement.kindOf? before name).isNone place (.parameterNamedAsModule name)
  require (!Statement.declaresParameter before name) place (.parameterTaken name)
  let draft ← fields.foldlM setParameterField {}
  let min ← requiredField place name "min" draft.min
  let max ← requiredField place name "max" draft.max
  let default ← requiredField place name "default" draft.default
  return {
    name, min, max, default
    type := draft.type, mutable := draft.mutable, step := draft.step, doc := draft.doc }

/-! ## Modules -/

/-- The kind that a tag declares, if it is at hand. -/
def declaredKind? (registry : Registry) (tag : String) : Option Kind :=
  (Kind.ofTag? tag).filter fun kind => (registry.ports? kind).isSome

/-- Check a module. -/
def checkModule (registry : Registry) (before : List (Statement Float)) (place : List Char)
    (tag id : String) (table : Option String) : Checked ModuleDecl := do
  match declaredKind? registry tag with
  | none => fail place (.unknownKind tag)
  | some kind =>
    require (Statement.kindOf? before id).isNone place (.moduleTaken id)
    require (!Statement.knowsParameter before id) place (.moduleNamedAsParameter id)
    require (!kind.takesWavetable || table.isSome) place (.needsTable kind id)
    require (kind.takesWavetable || table.isNone) place .tableNotAllowed
    return { id, kind, table }

/-- The ports of a module declared before. -/
def portsOf (registry : Registry) (before : List (Statement Float)) (place : List Char)
    (id : String) : Checked Ports :=
  match (Statement.kindOf? before id).bind registry.ports? with
  | some ports => .ok ports
  | none => fail place (.unknownModule id)

/-! ## Cables and tweaks -/

/-- Check a cable. -/
def checkCable (registry : Registry) (before : List (Statement Float)) (place : List Char)
    (cable : Cable) : Checked Cable := do
  let source ← portsOf registry before place cable.source.module
  let target ← portsOf registry before place cable.target.module
  require (cable.source.module != cable.target.module) place (.selfCable cable.source.module)
  require (source.hasOutput cable.source.port) place (.noOutput cable.source)
  require (target.hasInput cable.target.port) place (.noInput cable.target)
  require (!Statement.lays before cable) place (.cableTaken cable)
  return cable

/-- Check a tweak. -/
def checkTweak (registry : Registry) (before : List (Statement Float)) (place : List Char)
    (target : Endpoint) (source : String) : Checked (Tweak Float) := do
  let ports ← portsOf registry before place target.module
  require (ports.hasTweak target.port) place (.noTweak target)
  require (!Statement.tweaks before target) place (.tweakTaken target)
  match Postfix.compile source.toList with
  | .error error => fail place (.badExpression source error)
  | .ok value =>
    match value.params.find? (!Statement.knowsParameter before ·) with
    | some name => fail place (.unknownParameter name)
    | none => return { target, value }

/-! ## Patches -/

/-- Check an item against the statements before it. -/
def check (registry : Registry) (before : List (Statement Float)) (item : Located Item) :
    Checked (Statement Float) :=
  let place := item.place
  match item.item with
  | .synth name fields => return .header (← checkHeader before place name fields)
  | .param name fields => return .parameter (← checkParameter before place name fields)
  | .module tag id table => return .module (← checkModule registry before place tag id table)
  | .patch cable => return .cable (← checkCable registry before place cable)
  | .tweak target source => return .tweak (← checkTweak registry before place target source)
  | .comment text => return .comment text

/-- Check items behind the statements before them. -/
def checkAll (registry : Registry) (before : List (Statement Float)) :
    List (Located Item) → Checked (List (Statement Float))
  | [] => .ok before
  | item :: rest => do
    let statement ← check registry before item
    checkAll registry (before ++ [statement]) rest

/-- An item is checked before those behind it. -/
theorem checkAll_cons (registry : Registry) (before : List (Statement Float))
    (item : Located Item) (rest : List (Located Item)) :
    checkAll registry before (item :: rest) =
      check registry before item >>= fun s => checkAll registry (before ++ [s]) rest :=
  rfl

/-- The statements of a text that ends in a line break. -/
def parseLines (registry : Registry) (source : List Char) :
    Except ParseError (List (Statement Float)) :=
  match Grammar.read source with
  | .error place => .error (.shape (lineAt source place))
  | .ok items =>
    match checkAll registry [] items with
    | .error fault => .error (.meaning (lineAt source fault.place) fault.item)
    | .ok statements =>
      if Statement.hasHeader statements then .ok statements
      else .error (.meaning 1 .missingHeader)

/-- The statements of a patch, or what is wrong with it. -/
def parse (registry : Registry) (source : String) : Except ParseError (List (Statement Float)) :=
  parseLines registry (source.toList ++ ['\n'])

end Checker
end SynthPatch
