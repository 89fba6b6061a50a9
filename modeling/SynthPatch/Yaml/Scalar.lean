import SynthPatch.Json.Quoted
import SynthPatch.Yaml.Place
/-!
# Texts on the lines of a document

A text is written bare or between quotes and may go on over several lines.  One line end between two
lines of it reads as a blank; of several the first does not count.  Blanks around a line end are
dropped.

Main results:

- Function {lit}`readBare`: a text without quotes.
- Function {lit}`readQuoted`: a text between quotes.
-/

namespace SynthPatch
namespace Yaml

/-- What line ends between two lines of a text read as, given the first and those behind it with the
last one first. -/
def joinLines (first : Char) (others : List Char) : List Char :=
  if first == '\n' then if others.isEmpty then [' '] else others else others ++ [first]

/-- What has been passed since the last character of a text. -/
inductive Gap where
  | nothing
  /-- Blanks of the same line, the last one first. -/
  | blanks (cs : List Char)
  /-- Line ends, the last one first; the first is missing if it was escaped. -/
  | lines (first : Option Char) (others : List Char)

namespace Gap

/-- A blank of a line; it counts only between two characters of the line. -/
def blank (c : Char) : Gap → Gap
  | nothing => blanks [c]
  | blanks cs => blanks (c :: cs)
  | lines first others => lines first others

/-- The end of a line. -/
def newline (c : Char) : Gap → Gap
  | nothing | blanks _ => lines (some c) []
  | lines first others => lines first (c :: others)

/-- Anything has been passed. -/
def passed : Gap → Bool
  | nothing => false
  | _ => true

/-- The line has ended. -/
def crossed : Gap → Bool
  | lines _ _ => true
  | _ => false

/-- Add what a gap reads as to a text, the last character first. -/
def close (gap : Gap) (text : List Char) : List Char :=
  match gap with
  | nothing => text
  | blanks cs => cs ++ text
  | lines none others => others ++ text
  | lines (some first) others => joinLines first others ++ text

end Gap

/-- A text that was read. -/
structure Scanned where
  text : List Char
  /-- The place behind it begins a line. -/
  fresh : Bool
  place : Place

/-! ## Texts without quotes -/

/-- The marks that begin something other than a text without quotes. -/
def isLeadingMark (c : Char) : Bool :=
  ['#', '&', '*', '!', '|', '>', '\'', '"', '%', '@', '\x60'].contains c

/-- A text without quotes may begin so. -/
def beginsBare (bracketed : Bool) : List Char → Bool
  | [] => false
  | c :: rest =>
    if c == '-' then !wordEnds rest
    else if c == '?' || c == ':' then !bracketed && !wordEnds rest
    else !isBlank c && !isBreak c && !isBracketMark c && !isLeadingMark c

/-- Where and how a text without quotes stands. -/
structure Bare where
  bracketed : Bool
  /-- The least column at which it may go on. -/
  least : Nat

/-- A text without quotes ends before such a character. -/
def Bare.stops (b : Bare) (column : Nat) (gap : Gap) (c : Char) (rest : List Char) : Bool :=
  (gap.crossed && !b.bracketed && column < b.least) ||
    isBoundary column (c :: rest) ||
    (c == '#' && gap.passed) ||
    (c == ':' && wordEnds rest) ||
    (b.bracketed && isBracketMark c)

/-- A text without quotes from within.  Within brackets a colon may not run into a mark, and a tab
may not stand for the indent that a further line needs. -/
def readBareFrom (b : Bare) (position : Position) (gap : Gap) (text : List Char) :
    List Char → Option Scanned
  | [] => some ⟨text.reverse, gap.crossed, ⟨position, []⟩⟩
  | c :: rest =>
    if isBreak c then readBareFrom b (position.advance c) (gap.newline c) text rest
    else if isBlank c then
      if c == '\t' && gap.crossed && position.column < b.least then none
      else readBareFrom b (position.advance c) (gap.blank c) text rest
    else if b.stops position.column gap c rest then
      some ⟨text.reverse, gap.crossed, ⟨position, c :: rest⟩⟩
    else if b.bracketed && c == ':' && rest.head?.any fun d => isBracketMark d || d == '?' then none
    else readBareFrom b (position.advance c) .nothing (c :: gap.close text) rest

/-- A text without quotes. -/
def readBare (b : Bare) (place : Place) : Option Scanned :=
  readBareFrom b place.toPosition .nothing [] place.rest

/-! ## Texts between quotes -/

/-- The character of a one-letter escape. -/
def escaped? : Char → Option Char
  | '0' => some '\x00'
  | 'a' => some '\x07'
  | 'b' => some '\x08'
  | 't' | '\t' => some '\t'
  | 'n' => some '\n'
  | 'v' => some '\x0b'
  | 'f' => some '\x0c'
  | 'r' => some '\r'
  | 'e' => some '\x1b'
  | ' ' => some ' '
  | '"' => some '"'
  | '/' => some '/'
  | '\\' => some '\\'
  | 'N' => some '\x85'
  | '_' => some '\xa0'
  | 'L' => some '\u2028'
  | 'P' => some '\u2029'
  | _ => none

/-- How many digits follow an escape that gives the number of a character. -/
def escapeDigits? : Char → Option Nat
  | 'x' => some 2
  | 'u' => some 4
  | 'U' => some 8
  | _ => none

/-- The character of a number. -/
def charOf? (n : Nat) : Option Char :=
  if n.isValidChar then some (Char.ofNat n) else none

/-- How far the reading of an escape has come. -/
inductive Escape where
  | nothing
  | begun
  /-- So many digits are still to come, and the number so far. -/
  | digits (left value : Nat)

/-- A text between double quotes, from within. -/
def readDoubleFrom (position : Position) (escape : Escape) (gap : Gap) (text : List Char) :
    List Char → Option Scanned
  | [] => none
  | c :: rest =>
    match escape with
    | .digits left value =>
      match Quoted.hexValue? c with
      | none => none
      | some d =>
        if left ≤ 1 then
          match charOf? (16 * value + d) with
          | some e => readDoubleFrom (position.advance c) .nothing .nothing (e :: text) rest
          | none => none
        else readDoubleFrom (position.advance c) (.digits (left - 1) (16 * value + d)) gap text rest
    | .begun =>
      if isBreak c then readDoubleFrom (position.advance c) .nothing (.lines none []) text rest
      else
        match escapeDigits? c, escaped? c with
        | some n, _ => readDoubleFrom (position.advance c) (.digits n 0) .nothing text rest
        | none, some e => readDoubleFrom (position.advance c) .nothing .nothing (e :: text) rest
        | none, none => none
    | .nothing =>
      if isBoundary position.column (c :: rest) then none
      else if isBreak c then readDoubleFrom (position.advance c) .nothing (gap.newline c) text rest
      else if isBlank c then readDoubleFrom (position.advance c) .nothing (gap.blank c) text rest
      else if c == '"' then some ⟨(gap.close text).reverse, false, ⟨position.advance c, rest⟩⟩
      else if c == '\\' then
        readDoubleFrom (position.advance c) .begun .nothing (gap.close text) rest
      else readDoubleFrom (position.advance c) .nothing .nothing (c :: gap.close text) rest

/-- A text between single quotes, from within; two quotes there read as one. -/
def readSingleFrom (position : Position) (gap : Gap) (text : List Char) :
    List Char → Option Scanned
  | [] => none
  | '\'' :: '\'' :: rest =>
    readSingleFrom ((position.advance '\'').advance '\'') .nothing ('\'' :: gap.close text) rest
  | c :: rest =>
    if isBoundary position.column (c :: rest) then none
    else if isBreak c then readSingleFrom (position.advance c) (gap.newline c) text rest
    else if isBlank c then readSingleFrom (position.advance c) (gap.blank c) text rest
    else if c == '\'' then some ⟨(gap.close text).reverse, false, ⟨position.advance c, rest⟩⟩
    else readSingleFrom (position.advance c) .nothing (c :: gap.close text) rest

/-- A text between quotes, the mark of which stands next. -/
def readQuoted (place : Place) : Option Scanned :=
  match place.rest with
  | '"' :: rest => readDoubleFrom (place.advance '"') .nothing .nothing [] rest
  | '\'' :: rest => readSingleFrom (place.advance '\'') .nothing [] rest
  | _ => none

end Yaml
end SynthPatch
