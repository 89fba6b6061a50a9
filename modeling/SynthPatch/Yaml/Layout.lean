import SynthPatch.Yaml.Block
import SynthPatch.Yaml.Property
import SynthPatch.Yaml.Tree
/-!
# The layout of a text

The text of a document is a row of tokens.  Some of them are marks that stand in the text; where
blocks begin and end, and where a text turns out to be a key, is told by the columns and by the
colons.  The reader of a text keeps the columns of the blocks that are open and, for the space
outside of brackets and for each open bracket, the last part that a colon would make a key.

Main results:

- Function {lit}`tokens?`: the tokens of a text, none if it is not made of tokens.
- Theorem {lit}`Layout.not_of_head?_closeBlocks`: blocks that end do not stay open.
-/

namespace SynthPatch
namespace Yaml

/-! ## Tokens -/

/-- A part of the text of a document. -/
inductive Token where
  | directive (directive : Directive)
  | documentStart
  | documentEnd
  /-- A sequence whose items stand on lines of their own begins. -/
  | blockSequence
  /-- A mapping whose entries stand on lines of their own begins. -/
  | blockMapping
  | blockEnd
  | openSequence
  | closeSequence
  | openMapping
  | closeMapping
  /-- The mark in front of an item on a line of its own. -/
  | item
  /-- The mark between two parts in brackets. -/
  | comma
  | key
  | value
  | reference (name : String)
  | anchor (name : String)
  | tag (tag : WrittenTag)
  | text (style : Style) (content : List Char)
  | textEnd
deriving DecidableEq, Repr

/-! ## Keys -/

/-- A part that a colon would make a key. -/
structure Candidate where
  position : Position
  /-- How many tokens stand before it. -/
  index : Nat
  /-- Nothing but a key may stand here. -/
  required : Bool
deriving DecidableEq, Repr

/-- How many bytes a key may be away from its colon. -/
def maxKeyWidth : Nat :=
  1024

/-- A colon at a position comes too late for a key: they stand on one line, and not far apart. -/
def Candidate.isStale (candidate : Candidate) (position : Position) : Bool :=
  candidate.position.line < position.line ||
    candidate.position.width + maxKeyWidth < position.width

/-! ## Layouts -/

/-- How far a text has been read. -/
structure Layout where
  place : Place
  /-- The columns of the open blocks, the inner ones first. -/
  blocks : List Nat := []
  /-- What may turn out to be a key outside of brackets. -/
  outer : Option Candidate := none
  /-- What may turn out to be a key in each open bracket, the inner ones first. -/
  inner : List (Option Candidate) := []
  /-- A key may begin here. -/
  mayKey : Bool := true
  tokens : Array Token := #[]

namespace Layout

/-- The place stands between brackets. -/
def bracketed (layout : Layout) : Bool :=
  !layout.inner.isEmpty

/-- The least column at which a block within the open ones may stand. -/
def least (layout : Layout) : Nat :=
  match layout.blocks with
  | [] => 0
  | column :: _ => column + 1

/-- What may turn out to be a key. -/
def candidate? (layout : Layout) : Option Candidate :=
  match layout.inner with
  | [] => layout.outer
  | candidate :: _ => candidate

/-- Say what may turn out to be a key. -/
def setCandidate (candidate : Option Candidate) (layout : Layout) : Layout :=
  match layout.inner with
  | [] => { layout with outer := candidate }
  | _ :: others => { layout with inner := candidate :: others }

/-- No key has been found in time; it must not have been required. -/
def dropCandidate (layout : Layout) : Option Layout :=
  if layout.candidate?.any (·.required) then none else some (layout.setCandidate none)

/-- What begins here may turn out to be a key, if one may begin here. -/
def addCandidate (layout : Layout) : Option Layout :=
  if layout.mayKey then do
    let dropped ← layout.dropCandidate
    return dropped.setCandidate (some {
      position := layout.place.toPosition
      index := layout.tokens.size
      required := !layout.bracketed && layout.blocks.head? = some layout.place.column })
  else some layout

/-- A token that has been read up to a place. -/
def push (token : Token) (place : Place) (layout : Layout) : Layout :=
  { layout with place, tokens := layout.tokens.push token }

/-- A mark of one character. -/
def pushMark (token : Token) (layout : Layout) : Layout :=
  layout.push token layout.place.next

/-- A token that turns out to stand before others. -/
def insert (index : Nat) (token : Token) (layout : Layout) : Layout :=
  { layout with tokens := layout.tokens.insertIdxIfInBounds index token }

/-! ## Blocks -/

/-- A block begins with the token of a number, unless one is open at its column. -/
def openBlock (column index : Nat) (token : Token) (layout : Layout) : Layout :=
  if layout.bracketed || column < layout.least then layout
  else { layout with blocks := column :: layout.blocks }.insert index token

/-- The inner blocks at columns of a class end; brackets keep them open. -/
def closeBlocks (p : Nat → Bool) (layout : Layout) : Layout :=
  if layout.bracketed then layout
  else
    { layout with
      blocks := layout.blocks.dropWhile p
      tokens := layout.tokens ++
        Array.replicate (layout.blocks.takeWhile p).length Token.blockEnd }

/-- The innermost block that stays open is not of the class. -/
theorem not_of_head?_closeBlocks {p : Nat → Bool} {layout : Layout} {column : Nat}
    (hb : layout.bracketed = false) (h : (layout.closeBlocks p).blocks.head? = some column) :
    p column = false := by
  simp only [closeBlocks, hb, Bool.false_eq_true, if_false] at h
  have := List.head?_dropWhile_not p layout.blocks
  rw [h] at this
  simpa using this

/-! ## Between tokens -/

/-- Go on to the next token.  A line outside of brackets may begin with a key, and blocks at columns
behind it have ended.  What had to be a key must not be stale. -/
def settle (layout : Layout) : Option Layout :=
  let (crossed, place) :=
    layout.place.skip layout.bracketed (layout.bracketed || !layout.mayKey)
  if layout.outer.any fun k => k.required && k.isStale place.toPosition then none
  else
    let mayKey := layout.mayKey || (crossed && !layout.bracketed)
    some ({ layout with place, mayKey }.closeBlocks (place.column < ·))

/-! ## Tokens -/

/-- All blocks end before a line that has to do with the document as a whole. -/
def leave (layout : Layout) : Option Layout :=
  ((layout.closeBlocks fun _ => true).dropCandidate).map ({ · with mayKey := false })

/-- A line that begins or ends a document. -/
def takeBoundary (token : Token) (layout : Layout) : Option Layout :=
  layout.leave.map fun l => l.push token l.place.next.next.next

/-- A line in front of a document. -/
def takeDirective (layout : Layout) : Option Layout := do
  let (directive, behind) ← readDirective layout.place
  return (← layout.leave).push (.directive directive) behind

/-- An opening bracket, behind which a key may stand. -/
def openBracket (token : Token) (layout : Layout) : Option Layout :=
  layout.addCandidate.map fun l =>
    { l with inner := none :: l.inner, mayKey := true }.pushMark token

/-- A closing bracket, behind which no key may stand. -/
def closeBracket (token : Token) (layout : Layout) : Option Layout :=
  layout.dropCandidate.map fun l =>
    { l with inner := l.inner.tail, mayKey := false }.pushMark token

/-- A comma, behind which a key may stand. -/
def takeComma (layout : Layout) : Option Layout :=
  layout.dropCandidate.map fun l => { l with mayKey := true }.pushMark .comma

/-- A mark that may begin a block, where a key may begin, and what stands behind it may be a key. -/
def takeBlockMark (block token : Token) (layout : Layout) : Option Layout :=
  if layout.bracketed || layout.mayKey then
    (layout.openBlock layout.place.column layout.tokens.size block).dropCandidate.map
      (·.pushMark token)
  else none

/-- The mark of an item. -/
def takeItem (layout : Layout) : Option Layout :=
  (layout.takeBlockMark .blockSequence .item).map ({ · with mayKey := true })

/-- The mark of a key that may be any part of a document. -/
def takeKey (layout : Layout) : Option Layout :=
  (layout.takeBlockMark .blockMapping .key).map ({ · with mayKey := !layout.bracketed })

/-- A colon.  It makes a key of what may be one; otherwise it belongs to a key with a mark. -/
def takeValue (layout : Layout) : Option Layout :=
  match layout.candidate?.filter fun k => !k.isStale layout.place.toPosition with
  | some k =>
    let keyed := ((layout.insert k.index .key).openBlock k.position.column k.index .blockMapping)
    some ({ keyed.setCandidate none with mayKey := false }.pushMark .value)
  | none =>
    ((layout.setCandidate none).takeBlockMark .blockMapping .value).map
      ({ · with mayKey := !layout.bracketed })

/-- A token that may be a key, behind which none may begin. -/
def takeProperty (token : Token) (place : Place) (layout : Layout) : Option Layout :=
  layout.addCandidate.map fun l => { l with mayKey := false }.push token place

/-- A text on lines of the document, which may be a key. -/
def takeText (style : Style) (scanned : Scanned) (layout : Layout) : Option Layout :=
  layout.addCandidate.map fun l =>
    { l with mayKey := scanned.fresh }.push (.text style scanned.text) scanned.place

/-- A text in a block. -/
def takeBlock (style : Style) (layout : Layout) : Option Layout := do
  let dropped ← layout.dropCandidate
  let scanned ← readBlock (style = .folded) layout.blocks.head? layout.place.next
  return { dropped with mayKey := scanned.fresh }.push (.text style scanned.text) scanned.place

/-- The token that begins with a character. -/
def take (c : Char) (rest : List Char) (layout : Layout) : Option Layout :=
  let place := layout.place
  let aside := layout.bracketed || wordEnds rest
  if c == '%' && place.column == 0 then layout.takeDirective
  else if isMarker '-' place.column place.rest then layout.takeBoundary .documentStart
  else if isMarker '.' place.column place.rest then layout.takeBoundary .documentEnd
  else if c == '[' then layout.openBracket .openSequence
  else if c == '\x7b' then layout.openBracket .openMapping
  else if c == ']' then layout.closeBracket .closeSequence
  else if c == '\x7d' then layout.closeBracket .closeMapping
  else if c == ',' then layout.takeComma
  else if c == '-' && wordEnds rest then layout.takeItem
  else if c == '?' && aside then layout.takeKey
  else if c == ':' && aside then layout.takeValue
  else if c == '*' then
    (readAnchor place.next).bind fun (name, behind) => layout.takeProperty (.reference name) behind
  else if c == '&' then
    (readAnchor place.next).bind fun (name, behind) => layout.takeProperty (.anchor name) behind
  else if c == '!' then
    (readTag layout.bracketed place).bind fun (tag, behind) =>
      layout.takeProperty (.tag tag) behind
  else if c == '|' && !layout.bracketed then layout.takeBlock .literal
  else if c == '>' && !layout.bracketed then layout.takeBlock .folded
  else if c == '\'' || c == '"' then (readQuoted place).bind (layout.takeText .quoted)
  else if beginsBare layout.bracketed place.rest then
    (readBare { bracketed := layout.bracketed, least := layout.least } place).bind
      (layout.takeText .plain)
  else none

/-- The end of the text, where all blocks end. -/
def finish (layout : Layout) : Option (Array Token) :=
  layout.leave.map fun l => l.tokens.push .textEnd

/-- The tokens up to the end of the text.  The bound is on the number of tokens that stand in the
text. -/
def run : Nat → Layout → Option (Array Token)
  | 0, _ => none
  | bound + 1, layout =>
    match layout.settle with
    | none => none
    | some layout =>
      match layout.place.rest with
      | [] => layout.finish
      | c :: rest =>
        match layout.take c rest with
        | none => none
        | some layout => run bound layout

end Layout

/-- The tokens of a text, none if it is not made of tokens. -/
def tokens? (text : List Char) : Option (Array Token) :=
  Layout.run (text.length + 1) { place := ⟨.start, text⟩ }

end Yaml
end SynthPatch
