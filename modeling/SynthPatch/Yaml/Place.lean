/-!
# Places in a document

The reader of a document keeps the line and the column it has reached, for they tell what belongs
together.  Between the parts of a document stand blanks, comments and line ends.

Main results:

- Function {lit}`Place.skip`: the place of the next part.
- Theorem {lit}`Place.skip_suffix`: nothing but leading text is passed over.
-/

namespace SynthPatch
namespace Yaml

/-! ## Characters -/

/-- A blank within a line. -/
def isBlank (c : Char) : Bool :=
  c == ' ' || c == '\t'

/-- The end of a line. -/
def isBreak (c : Char) : Bool :=
  c == '\n' || c == '\u2028' || c == '\u2029'

/-- A mark that stands before every other character of a text and means nothing there. -/
def byteOrderMark : Char :=
  '\ufeff'

/-- A line ends before such a text. -/
def lineEnds : List Char → Bool
  | [] => true
  | c :: _ => isBreak c

/-- A word ends before such a text. -/
def wordEnds : List Char → Bool
  | [] => true
  | c :: _ => isBlank c || isBreak c

/-- A character of a name. -/
def isNameChar (c : Char) : Bool :=
  c.isAlphanum || c == '_' || c == '-'

/-- The marks that separate the parts between brackets. -/
def isBracketMark (c : Char) : Bool :=
  [',', '[', ']', '\x7b', '\x7d'].contains c

/-- A character that may stand in a document. -/
def isAllowed (c : Char) : Bool :=
  let n := c.toNat
  n == 0x09 || n == 0x0a || n == 0x0d || n == 0x85 || (0x20 ≤ n && n ≤ 0x7e) ||
    (0xa0 ≤ n && n ≤ 0xfffd) || 0x10000 ≤ n

/-- The ways to end a line that say no more than that as one. -/
def joinBreaks : List Char → List Char
  | '\r' :: '\n' :: rest => '\n' :: joinBreaks rest
  | c :: rest => (if c == '\r' || c == '\x85' then '\n' else c) :: joinBreaks rest
  | [] => []

/-! ## Positions -/

/-- A position in a text. -/
structure Position where
  line : Nat
  /-- How many characters stand before the position on its line. -/
  column : Nat
  /-- How many bytes these characters take. -/
  width : Nat
deriving DecidableEq, Repr

namespace Position

/-- The beginning of a text. -/
def start : Position where
  line := 0
  column := 0
  width := 0

/-- The position behind a character. -/
def advance (position : Position) (c : Char) : Position :=
  if isBreak c then ⟨position.line + 1, 0, 0⟩
  else ⟨position.line, position.column + 1, position.width + c.utf8Size⟩

end Position

/-! ## Places -/

/-- A position with the text that follows. -/
structure Place extends Position where
  rest : List Char
deriving DecidableEq, Repr

namespace Place

/-- The place behind the next character. -/
def next (place : Place) : Place :=
  match place.rest with
  | [] => place
  | c :: rest => ⟨place.advance c, rest⟩

/-- The place behind the characters of a class that stand next in a text. -/
def skipWhileFrom (p : Char → Bool) (position : Position) : List Char → Place
  | [] => ⟨position, []⟩
  | c :: rest => if p c then skipWhileFrom p (position.advance c) rest else ⟨position, c :: rest⟩

/-- The place behind the characters of a class. -/
def skipWhile (p : Char → Bool) (place : Place) : Place :=
  skipWhileFrom p place.toPosition place.rest

/-- The characters of a class that stand next, and the place behind them. -/
def span (p : Char → Bool) (place : Place) : List Char × Place :=
  (place.rest.takeWhile p, place.skipWhile p)

/-- The end of the line, if nothing but blanks and a comment stands before it. -/
def lineEnd? (place : Place) : Option Place :=
  let blank := place.skipWhile isBlank
  let finish := if blank.rest.head? = some '#' then blank.skipWhile (!isBreak ·) else blank
  if lineEnds finish.rest then some finish else none

end Place

/-- A line of three marks that begins or ends a document. -/
def isMarker (mark : Char) (column : Nat) : List Char → Bool
  | a :: b :: c :: rest => column == 0 && a == mark && b == mark && c == mark && wordEnds rest
  | _ => false

/-- A document begins or ends here. -/
def isBoundary (column : Nat) (rest : List Char) : Bool :=
  isMarker '-' column rest || isMarker '.' column rest

namespace Place

/-- What may be passed over, and what has been. -/
structure Passing where
  /-- Line ends and blanks mean nothing, for brackets tell what belongs together. -/
  bracketed : Bool
  /-- Tabs may be passed over. -/
  tabs : Bool
  comment : Bool := false
  /-- A line end has been passed. -/
  crossed : Bool := false

/-- The place of the next part, and whether it stands on a new line.  A tab does not count as
indent, so it is not passed over where indent matters.  A byte order mark may begin a line. -/
def skipFrom (p : Passing) (position : Position) : List Char → Bool × Place
  | [] => (p.crossed, ⟨position, []⟩)
  | c :: rest =>
    if isBreak c then
      skipFrom { p with tabs := p.bracketed, comment := false, crossed := true }
        (position.advance c) rest
    else if p.comment then skipFrom p (position.advance c) rest
    else if c == '#' then skipFrom { p with comment := true } (position.advance c) rest
    else if c == ' ' || (c == '\t' && p.tabs) || (c == byteOrderMark && position.column == 0) then
      skipFrom p (position.advance c) rest
    else (p.crossed, ⟨position, c :: rest⟩)

/-- The place of the next part, and whether it stands on a new line. -/
def skip (place : Place) (bracketed tabs : Bool) : Bool × Place :=
  skipFrom { bracketed, tabs } place.toPosition place.rest

theorem skipFrom_suffix (p : Passing) (position : Position) (rest : List Char) :
    (skipFrom p position rest).2.rest <:+ rest := by
  induction rest generalizing p position with
  | nil => exact List.suffix_rfl
  | cons c rest ih =>
    unfold skipFrom
    split
    · exact (ih _ _).trans (List.suffix_cons c rest)
    split
    · exact (ih _ _).trans (List.suffix_cons c rest)
    split
    · exact (ih _ _).trans (List.suffix_cons c rest)
    split
    · exact (ih _ _).trans (List.suffix_cons c rest)
    · exact List.suffix_rfl

/-- Nothing but leading text is passed over. -/
theorem skip_suffix (place : Place) (bracketed tabs : Bool) :
    (place.skip bracketed tabs).2.rest <:+ place.rest :=
  skipFrom_suffix _ _ _

end Place
end Yaml
end SynthPatch
