import SynthPatch.Text
import SynthPatch.Language.Rule
import SynthPatch.Language.Statement
/-!
# The grammar of the patch language

The language is line oriented: every entry ends with a line break, and blocks run from their
opening line to {lit}`@end`.  Reading a text yields its items, each with the place it starts at;
whether the items make sense is not decided here.

Main results:

- Function {lit}`Grammar.read`: the items of a text, or the place where it could not be read.
- Function {lit}`lineAt`: the line of a place.
-/

namespace SynthPatch

/-! ## Items and places -/

/-- Something read, with the text that starts where it does. -/
structure Located (β : Type) where
  /-- The text from the start of the item on. -/
  place : List Char
  item : β

/-- A named value inside a block. -/
structure Attribute where
  key : String
  value : String
deriving DecidableEq, Repr

/-- An entry of a patch, before it is checked. -/
inductive Item where
  | synth (name : String) (attributes : List (Located Attribute))
  | param (name : String) (attributes : List (Located Attribute))
  | module (tag id : String) (table : Option String)
  | patch (cable : Cable)
  | tweak (target : Endpoint) (source : String)
  | comment (text : String)

/-- The line of a place in a text; lines are counted from one, and each begins behind a line
feed. -/
def lineAt (source place : List Char) : Nat :=
  1 + (source.count '\n' - place.count '\n')

namespace Grammar

/-! ## Blanks, line breaks and names -/

/-- The character ends a line or begins its end. -/
def isBreak (c : Char) : Bool :=
  c == '\n' || c == '\r'

/-- The character may stand between the parts of an entry. -/
def isGap (c : Char) : Bool :=
  c == ' ' || c == '\t'

/-- Blanks between the parts of an entry. -/
def gap : Rule Unit := do
  let _ ← Rule.row isGap
  return ()

/-- The end of a line. -/
def newline : Rule Unit :=
  (Rule.literal ['\n']).orElse ((Rule.literal ['\r', '\n']).orElse (Rule.literal ['\r']))

/-- A fixed text with blanks in front of it. -/
def mark (text : String) : Rule Unit := do
  gap
  Rule.literal text.toList

/-- A comment, up to the end of its line. -/
def comment : Rule (List Char) :=
  (Rule.word (· == '#') (!isBreak ·)).named

/-- An identifier. -/
def identifier : Rule String :=
  Rule.named do
    return String.ofList (← Rule.word Identifier.isHead Identifier.isTail)

/-- The tag of a kind of module. -/
def typeTag : Rule String :=
  Rule.named do
    return String.ofList
      (← Rule.word Char.isUpper fun c => c.isUpper || c.isDigit || c == '-')

/-- A module and a port of it, written without blanks. -/
def endpoint : Rule Endpoint :=
  Rule.named do
    let module ← identifier
    Rule.literal ['.']
    return ⟨module, ← identifier⟩

/-! ## Blocks -/

/-- Text between double quotes; it may run over several lines. -/
def quoted : Rule String :=
  Rule.named do
    Rule.literal ['"']
    let inner ← Rule.row (· != '"')
    Rule.literal ['"']
    return String.ofList inner

/-- The rest of a line up to a comment. -/
def bare : Rule (List Char) :=
  let inner := fun c => !isBreak c && c != '#'
  (Rule.word inner inner).named

/-- The value of an attribute. -/
def value : Rule String :=
  quoted.orElse do
    return String.ofList (Text.trim (← bare))

/-- A thing and the place where it starts. -/
def located {β : Type} (p : Rule β) : Rule (Located β) :=
  ⟨fun s =>
    match p.run s with
    | ⟨none, fs⟩ => ⟨none, fs⟩
    | ⟨some (x, r), fs⟩ => ⟨some (⟨s, x⟩, r), fs⟩⟩

/-- A named value; a missing value is empty. -/
def field : Rule Attribute :=
  Rule.named do
    let key ← identifier
    mark ":"
    gap
    return ⟨key, (← value.optional).getD ""⟩

/-- What may stand behind an entry on its line, and the end of the line. -/
def lineEnd : Rule (Option (Located (List Char))) := do
  gap
  let note ← (located comment).optional
  gap
  newline
  return note

/-- A line of a block: an attribute, a comment, both or neither. -/
def blockLine : Rule (Option (Located Attribute)) := do
  gap
  let entry ← (located field).optional
  let _ ← lineEnd
  return entry

/-- A block from its opening word to its end. -/
def block (opening : String) : Rule (String × List (Located Attribute)) :=
  Rule.named do
    Rule.literal opening.toList
    gap
    let name ← identifier
    let _ ← lineEnd
    let lines ← blockLine.many
    mark "@end"
    return (name, lines.filterMap id)

/-! ## Entries -/

/-- A module and the table it plays. -/
def moduleDecl : Rule Item :=
  Rule.named do
    let tag ← typeTag
    mark ":"
    gap
    let id ← identifier
    gap
    let table ← Rule.optional <| Rule.named do
      Rule.literal "TABLE".toList
      gap
      identifier
    return .module tag id table

/-- A cable. -/
def cable : Rule Item :=
  Rule.named do
    let source ← endpoint
    mark "->"
    gap
    return .patch ⟨source, ← endpoint⟩

/-- A property and the expression it is set to. -/
def tweak : Rule Item :=
  Rule.named do
    let target ← endpoint
    mark "="
    gap
    return .tweak target (String.ofList (Text.trim (← bare)))

/-- The synth block. -/
def synthBlock : Rule Item := do
  let (name, attributes) ← block "@synth"
  return .synth name attributes

/-- A parameter block. -/
def paramBlock : Rule Item := do
  let (name, attributes) ← block "@param"
  return .param name attributes

/-- A statement. -/
def statement : Rule Item :=
  synthBlock.orElse (paramBlock.orElse (moduleDecl.orElse (cable.orElse tweak)))

/-- What a comment says. -/
def commentText (note : List Char) : String :=
  String.ofList (Text.trim (note.dropWhile (· == '#')))

/-- An entry: a statement, a comment, both or neither, and the end of the line. -/
def entry : Rule (List (Located Item)) := do
  gap
  let item ← (located statement).optional
  let note ← lineEnd
  return item.toList ++ note.toList.map fun n => ⟨n.place, .comment (commentText n.item)⟩

/-- A whole text. -/
def program : Rule (List (Located Item)) :=
  Rule.named do
    let entries ← entry.many
    gap
    Rule.ending.named
    return entries.flatten

/-- The furthest of some places: the one with the least text behind it. -/
def furthest (source : List Char) (places : List (List Char)) : List Char :=
  places.foldl (fun best p => if p.length < best.length then p else best) source

/-- The items of a text, or the place where it could not be read. -/
def read (source : List Char) : Except (List Char) (List (Located Item)) :=
  match program.run source with
  | ⟨some (items, _), _⟩ => .ok items
  | ⟨none, failures⟩ => .error (furthest source failures)

end Grammar
end SynthPatch
