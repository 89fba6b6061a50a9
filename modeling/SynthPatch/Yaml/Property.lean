import SynthPatch.Json.Quoted
import SynthPatch.Yaml.Place
import SynthPatch.Yaml.Tree
/-!
# Properties and directives

In front of a part of a document may stand an anchor, by which other parts can name it, and a tag,
which says what kind of value it is.  A tag is given in full or as a handle and the rest; directives
in front of the document say which handles there are.

Main results:

- Function {lit}`readAnchor`: the name of an anchor.
- Function {lit}`readTag`: a tag as it is written.
- Function {lit}`readDirective`: a directive as it is written.
- Theorem {lit}`Tag.mem_clip`: a tag holds no null character.
-/

namespace SynthPatch
namespace Yaml

/-! ## Anchors -/

/-- The marks that may follow the name of an anchor. -/
def anchorFollowers : List Char :=
  ['?', ':', ',', ']', '\x7d', '%', '@', '\x60']

/-- The name of an anchor, and the place behind it. -/
def readAnchor (place : Place) : Option (String × Place) :=
  let (name, behind) := place.span isNameChar
  if name.isEmpty then none
  else if wordEnds behind.rest || behind.rest.head?.any anchorFollowers.contains then
    some (String.ofList name, behind)
  else none

/-! ## The text of tags -/

namespace Tag

/-- A tag ends before a null character. -/
def clip (tag : Tag) : Tag :=
  tag.takeWhile (· != '\x00')

/-- A tag holds no null character. -/
theorem mem_clip {tag : Tag} {c : Char} (h : c ∈ tag.clip) : c ≠ '\x00' := by
  induction tag with
  | nil => simp [clip] at h
  | cons d rest ih =>
    rw [clip, List.takeWhile_cons] at h
    split at h
    · next hd =>
      rcases List.mem_cons.1 h with rfl | h
      · simpa using hd
      · exact ih h
    · simp at h

end Tag

/-- The marks that may stand in a tag. -/
def uriMarks : List Char :=
  [';', '/', '?', ':', '@', '&', '=', '+', '$', '.', '!', '~', '*', '\'', '(', ')']

/-- The marks that may stand in a tag if it is given in full. -/
def wideUriMarks : List Char :=
  [',', '[', ']']

/-- A character that may stand in a tag. -/
def isUriChar (wide : Bool) (c : Char) : Bool :=
  isNameChar c || uriMarks.contains c || (wide && wideUriMarks.contains c)

/-- How many octets of the same character are to come behind an octet, given how many were to come
before it. -/
def octetsLeft? (left octet : Nat) : Option Nat :=
  if left = 0 then
    if octet < 0x80 then some 0
    else if octet < 0xc0 then none
    else if octet < 0xe0 then some 1
    else if octet < 0xf0 then some 2
    else if octet < 0xf8 then some 3
    else none
  else if 0x80 ≤ octet ∧ octet < 0xc0 then some (left - 1)
  else none

/-- The text of a tag from within, octet by octet, and the place behind it.  A percent sign and two
digits give an octet by its number. -/
def readUriFrom (wide : Bool) (left : Nat) (position : Position) (text : List Char) :
    List Char → Option (List Char × Place)
  | '%' :: a :: b :: rest =>
    match Quoted.hexValue? a, Quoted.hexValue? b with
    | some m, some n =>
      match octetsLeft? left (16 * m + n) with
      | some left =>
        readUriFrom wide left (((position.advance '%').advance a).advance b)
          (Char.ofNat (16 * m + n) :: text) rest
      | none => none
    | _, _ => none
  | c :: rest =>
    if left != 0 || c == '%' then none
    else if isUriChar wide c then readUriFrom wide 0 (position.advance c) (c :: text) rest
    else some (text.reverse, ⟨position, c :: rest⟩)
  | [] => if left != 0 then none else some (text.reverse, ⟨position, []⟩)

/-- The text of a tag, which may be empty, and the place behind it. -/
def readUri (wide : Bool) (place : Place) : Option (List Char × Place) :=
  readUriFrom wide 0 place.toPosition [] place.rest

/-- The text of a tag, and the place behind it. -/
def readSomeUri (wide : Bool) (place : Place) : Option (List Char × Place) :=
  (readUri wide place).filter fun (text, _) => !text.isEmpty

/-! ## Handles -/

/-- A name between two exclamation marks, or the beginning of one, and the place behind it. -/
def readHandle (place : Place) : Option (List Char × Place) :=
  if place.rest.head? = some '!' then
    let (name, behind) := place.next.span isNameChar
    if behind.rest.head? = some '!' then some ('!' :: (name ++ ['!']), behind.next)
    else some ('!' :: name, behind)
  else none

/-- A text that was read as a handle is closed by an exclamation mark of its own. -/
def isHandle (handle : List Char) : Bool :=
  1 < handle.length && handle.getLast? = some '!'

/-- The handle of tags that belong to the document alone. -/
def localHandle : List Char :=
  ['!']

/-- A tag as it is written: a handle, none if the tag is given in full, and the rest. -/
structure WrittenTag where
  handle : Option (List Char)
  suffix : List Char
deriving DecidableEq, Repr

/-- A tag as it is written, the first exclamation mark of which stands next, and the place behind
it. -/
def readTagBody (place : Place) : Option (WrittenTag × Place) :=
  match place.rest with
  | '!' :: '<' :: _ => do
    let (text, behind) ← readSomeUri true place.next.next
    if behind.rest.head? = some '>' then return (⟨none, text⟩, behind.next) else none
  | _ => do
    let (handle, behind) ← readHandle place
    if isHandle handle then
      let (text, behind) ← readSomeUri false behind
      return (⟨some handle, text⟩, behind)
    else
      let (text, behind) ← readUri false behind
      let suffix := Tag.clip (handle.tail ++ text)
      return (if suffix.isEmpty then ⟨none, localHandle⟩ else ⟨some localHandle, suffix⟩, behind)

/-- A tag as it is written and the place behind it, where a word ends or a comma separates the parts
between brackets. -/
def readTag (bracketed : Bool) (place : Place) : Option (WrittenTag × Place) :=
  (readTagBody place).filter fun (_, behind) =>
    wordEnds behind.rest || (bracketed && behind.rest.head? = some ',')

/-! ## Directives -/

/-- What is said in front of a document. -/
inductive Directive where
  /-- The version of the language. -/
  | version (major minor : Nat)
  /-- What tags with a handle begin with. -/
  | handle (name start : List Char)
deriving DecidableEq, Repr

/-- The most digits that a number of a version has. -/
def maxVersionDigits : Nat :=
  9

/-- A number of a version, and the place behind it. -/
def readVersionNumber (place : Place) : Option (Nat × Place) :=
  let (digits, behind) := place.span Char.isDigit
  if digits.isEmpty || maxVersionDigits < digits.length then none
  else (readDigits? 10 digits).map fun n => (n, behind)

/-- The version of the language, and the place behind it. -/
def readVersion (place : Place) : Option (Directive × Place) := do
  let (major, dot) ← readVersionNumber place
  if dot.rest.head? = some '.' then
    let (minor, behind) ← readVersionNumber dot.next
    return (.version major minor, behind)
  else none

/-- A handle and what its tags begin with, and the place behind it. -/
def readHandleRule (place : Place) : Option (Directive × Place) := do
  let (name, behind) ← readHandle place
  if (isHandle name || name = localHandle) && behind.rest.head?.any isBlank then
    let (start, behind) ← readSomeUri true (behind.skipWhile isBlank)
    if wordEnds behind.rest then return (.handle name start, behind) else none
  else none

/-- A directive, the mark of which stands next, and the place behind its line. -/
def readDirective (place : Place) : Option (Directive × Place) := do
  let (name, behind) := place.next.span isNameChar
  let value := behind.skipWhile isBlank
  if wordEnds behind.rest then
    let (directive, behind) ←
      if name = "YAML".toList then readVersion value
      else if name = "TAG".toList then readHandleRule value
      else none
    let finish ← behind.lineEnd?
    return (directive, finish.next)
  else none

end Yaml
end SynthPatch
