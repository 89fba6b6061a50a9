import SynthPatch.Yaml.Scalar
/-!
# Texts in blocks

A text may be written as a block of lines, each behind the indent of the first.  The lines of a
literal block stay lines; those of a folded one are joined like the lines of any other text, but a
line that begins with a blank stays by itself.  What the line ends behind the last line mean is said
in front of the block.

Main results:

- Function {lit}`readBlock`: a text in a block.
-/

namespace SynthPatch
namespace Yaml

/-- Which line ends behind the last line belong to the text. -/
inductive Tail where
  | strip
  /-- The first one. -/
  | clip
  | keep
deriving DecidableEq, Repr

/-- How a block is written. -/
structure Block where
  folded : Bool
  tail : Tail
  /-- The least indent its lines may have. -/
  least : Nat
deriving DecidableEq, Repr

/-- The lines of a block that were read. -/
structure Lines where
  /-- The text, the last character first. -/
  text : List Char := []
  /-- The end of the last line. -/
  first : Option Char := none
  /-- The ends of the empty lines behind it, the last one first. -/
  others : List Char := []
  /-- The last line begins with a blank. -/
  blank : Bool := false

namespace Lines

/-- The text and the line ends behind it, with a new line that begins with a character. -/
def begin (folded : Bool) (c : Char) (lines : Lines) : Lines :=
  let gap := match lines.first with
    | none => lines.others
    | some first =>
      if folded && !lines.blank && !isBlank c then joinLines first lines.others
      else lines.others ++ [first]
  { text := c :: (gap ++ lines.text), blank := isBlank c }

/-- The text of a block without lines to come, the last character first. -/
def finish (tail : Tail) (lines : Lines) : List Char :=
  match tail with
  | .strip => lines.text
  | .clip => lines.first.toList ++ lines.text
  | .keep => lines.others ++ (lines.first.toList ++ lines.text)

end Lines

/-- The column at which the lines of a block stand, if it is known. -/
abbrev Indent :=
  Option Nat

namespace Indent

/-- A position lies within the indent. -/
def contains (indent : Indent) (column : Nat) : Bool :=
  indent.all (column < ·)

end Indent

/-- A text in a block from within.  As long as the indent is not known, it is the widest one in
front of the first line that is not empty. -/
def readBlockFrom (b : Block) (indent : Indent) (widest : Nat) (inLine : Bool)
    (position : Position) (lines : Lines) : List Char → Option Scanned
  | [] => some ⟨(lines.finish b.tail).reverse, true, ⟨position, []⟩⟩
  | c :: rest =>
    if inLine then
      if isBreak c then
        readBlockFrom b indent widest false (position.advance c) { lines with first := some c } rest
      else
        readBlockFrom b indent widest true (position.advance c)
          { lines with text := c :: lines.text } rest
    else if c == ' ' && indent.contains position.column then
      readBlockFrom b indent widest false (position.advance c) lines rest
    else if c == '\t' && indent.contains position.column then none
    else if isBreak c then
      readBlockFrom b indent (max widest position.column) false (position.advance c)
        { lines with others := c :: lines.others } rest
    else
      let column := indent.getD (max b.least (max widest position.column))
      if position.column = column then
        readBlockFrom b (some column) widest true (position.advance c) (lines.begin b.folded c) rest
      else some ⟨(lines.finish b.tail).reverse, true, ⟨position, c :: rest⟩⟩

/-! ## What is said in front of a block -/

/-- A mark for the line ends behind the last line. -/
def readTail? : Char → Option Tail
  | '+' => some .keep
  | '-' => some .strip
  | _ => none

/-- A mark for the width of the indent. -/
def readIndent? (c : Char) : Option Nat :=
  if c.isDigit then some (c.toNat - '0'.toNat) else none

/-- The marks in front of a block, in either order, and the place behind them. -/
def readBlockMarks (place : Place) : Option Tail × Option Nat × Place :=
  match place.rest.head?.bind readTail? with
  | some tail =>
    match place.next.rest.head?.bind readIndent? with
    | some width => (some tail, some width, place.next.next)
    | none => (some tail, none, place.next)
  | none =>
    match place.rest.head?.bind readIndent? with
    | some width =>
      match place.next.rest.head?.bind readTail? with
      | some tail => (some tail, some width, place.next.next)
      | none => (none, some width, place.next)
    | none => (none, none, place)

/-- A text in a block behind its first mark, in a part of the document whose column may be known.
No width is nothing. -/
def readBlock (folded : Bool) (column : Option Nat) (place : Place) : Option Scanned := do
  let (tail, width, place) := readBlockMarks place
  let finish ← place.lineEnd?
  if width = some 0 then none
  else
    let least := max 1 ((column.map (· + 1)).getD 0)
    let first := finish.next
    readBlockFrom { folded, tail := tail.getD .clip, least } (width.map (column.getD 0 + ·)) 0 false
      first.toPosition {} first.rest

end Yaml
end SynthPatch
