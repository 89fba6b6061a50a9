import SynthPatch.Yaml.Anchor
import SynthPatch.Yaml.Layout
/-!
# Documents in the making

The characters of a text make tokens, and the tokens make a document, one by one.  The collections
that are open lie on a stack; the phase says what is to come next.  Before a token is taken, what is
left out in front of it is filled in with parts that stand for nothing.

Main results:

- Function {lit}`Draft.step`: a document with one more token.
- Function {lit}`document?`: the document of a row of tokens.
- Function {lit}`read?`: the document of a text, none if it is not one.
- Theorem {lit}`Draft.step_closing`: nothing follows a document but its end.
- Theorem {lit}`isAllowed_of_read?`: a text that is read holds no character that must not stand in
  a document.
-/

namespace SynthPatch
namespace Yaml

/-! ## Open collections -/

/-- What the next part is in a collection. -/
inductive Slot where
  /-- An item, or a key whose value is left out. -/
  | whole
  /-- A key. -/
  | key
  /-- The value of a key. -/
  | value (key : Yaml)

/-- A collection that is open.  Its parts are kept with the last one first. -/
inductive Collection where
  | blockSequence (items : List Yaml)
  /-- A sequence whose items stand at the column of the key that it belongs to. -/
  | looseSequence (items : List Yaml)
  /-- A sequence in brackets; an item may be a key with its value. -/
  | flowSequence (items : List Yaml) (slot : Slot)
  | blockMapping (entries : List (Yaml × Yaml)) (slot : Slot)
  | flowMapping (entries : List (Yaml × Yaml)) (slot : Slot)

namespace Collection

/-- The whole of a collection. -/
def toYaml : Collection → Yaml
  | blockSequence items | looseSequence items | flowSequence items _ => sequence items.reverse
  | blockMapping entries _ | flowMapping entries _ => mapping entries.reverse

/-- A collection whose next part is a key. -/
def expectKey : Collection → Collection
  | flowSequence items _ => flowSequence items .key
  | blockMapping entries _ => blockMapping entries .key
  | flowMapping entries _ => flowMapping entries .key
  | collection => collection

end Collection

/-- What is to come next in a document. -/
inductive Phase where
  /-- The document, in front of which nothing stands. -/
  | opening
  /-- The mark that begins the document, for directives stand in front of it. -/
  | directed
  /-- A part. -/
  | part
  /-- An entry of a collection, or its end. -/
  | entry
  /-- The mark of a value. -/
  | colon
  /-- A comma, or the end of a collection. -/
  | comma
  /-- The end of the document. -/
  | closing
deriving DecidableEq, Repr

/-- A collection with a part that is whole, and what is to come next. -/
def Collection.put (y : Yaml) : Collection → Phase × Collection
  | blockSequence items => (.entry, blockSequence (y :: items))
  | looseSequence items => (.entry, looseSequence (y :: items))
  | flowSequence items .whole => (.comma, flowSequence (y :: items) .whole)
  | flowSequence items .key => (.colon, flowSequence items (.value y))
  | flowSequence items (.value key) => (.comma, flowSequence (mapping [(key, y)] :: items) .whole)
  | blockMapping entries .whole => (.entry, blockMapping ((y, missing) :: entries) .whole)
  | blockMapping entries .key => (.colon, blockMapping entries (.value y))
  | blockMapping entries (.value key) => (.entry, blockMapping ((key, y) :: entries) .whole)
  | flowMapping entries .whole => (.comma, flowMapping ((y, missing) :: entries) .whole)
  | flowMapping entries .key => (.colon, flowMapping entries (.value y))
  | flowMapping entries (.value key) => (.comma, flowMapping ((key, y) :: entries) .whole)

/-- A collection that is open, with its place among the parts that have an anchor. -/
structure Open where
  collection : Collection
  anchor : Option Nat := none

/-- The properties of a part that is still to come. -/
structure Properties where
  anchor : Option String := none
  tag : Option Tag := none
deriving DecidableEq, Repr

namespace Properties

/-- A part without properties. -/
def isEmpty (properties : Properties) : Bool :=
  properties.anchor.isNone && properties.tag.isNone

end Properties

/-- A document in the making. -/
structure Draft where
  phase : Phase := .opening
  properties : Properties := {}
  stack : List Open := []
  anchors : Anchors := {}
  /-- The version of the language was said. -/
  versioned : Bool := false
  /-- What the tags with a handle begin with. -/
  handles : List (List Char × Tag) := []
  root : Yaml := missing

namespace Draft

/-! ## Parts -/

/-- The document with a part that is whole. -/
def put (y : Yaml) (draft : Draft) : Draft :=
  match draft.stack with
  | [] => { draft with phase := .closing, properties := {}, root := y }
  | ⟨collection, anchor⟩ :: rest =>
    let (phase, collection) := collection.put y
    { draft with phase, properties := {}, stack := ⟨collection, anchor⟩ :: rest }

/-- The document with the anchor of a part that begins, and the place of the part among those that
have one. -/
def define (draft : Draft) : Option Nat × Draft :=
  match draft.properties.anchor with
  | none => (none, draft)
  | some name =>
    (some draft.anchors.next, { draft with anchors := draft.anchors.define name })

/-- The document with a part that is whole and may have a place among those that have an anchor. -/
def complete (anchor : Option Nat) (y : Yaml) (draft : Draft) : Draft :=
  match anchor with
  | none => draft.put y
  | some place => { draft with anchors := draft.anchors.complete place y }.put y

/-- The document with a text that has the properties that were read. -/
def putText (style : Style) (content : List Char) (draft : Draft) : Draft :=
  let y := scalar style draft.properties.tag content
  let (anchor, draft) := draft.define
  draft.complete anchor y

/-- The document with a part that is left out. -/
def putMissing (draft : Draft) : Draft :=
  draft.putText .plain []

/-- The document with a collection that begins. -/
def enter (collection : Collection) (phase : Phase) (draft : Draft) : Draft :=
  let (anchor, draft) := draft.define
  { draft with phase, properties := {}, stack := ⟨collection, anchor⟩ :: draft.stack }

/-- The document with the end of the innermost collection. -/
def leave (draft : Draft) : Option Draft :=
  match draft.stack with
  | [] => none
  | ⟨collection, anchor⟩ :: rest =>
    some ({ draft with stack := rest }.complete anchor collection.toYaml)

/-! ## What is left out -/

/-- The innermost collection. -/
def inmost? (draft : Draft) : Option Collection :=
  draft.stack.head?.map (·.collection)

/-- A token belongs to the part whose properties were read. -/
def continues (draft : Draft) : Token → Bool
  | .text .. | .openSequence | .openMapping | .blockSequence | .blockMapping => true
  | .anchor _ => draft.properties.anchor.isNone
  | .tag _ => draft.properties.tag.isNone
  | .item => (draft.inmost? matches some (.blockMapping ..))
  | _ => false

/-- A part without properties is left out before a token. -/
def omitsBefore (collection : Option Collection) (token : Token) : Bool :=
  match collection, token with
  | none, .documentEnd | none, .textEnd => true
  | some (.blockSequence _), .item | some (.blockSequence _), .blockEnd => true
  | some (.looseSequence _), .item | some (.looseSequence _), .key
  | some (.looseSequence _), .value | some (.looseSequence _), .blockEnd => true
  | some (.blockMapping ..), .key | some (.blockMapping ..), .value
  | some (.blockMapping ..), .blockEnd => true
  | some (.flowMapping _ .key), .value => true
  | some (.flowMapping ..), .comma | some (.flowMapping ..), .closeMapping => true
  | some (.flowSequence _ (.value _)), .comma
  | some (.flowSequence _ (.value _)), .closeSequence => true
  | _, _ => false

/-- The part that is to come is left out before a token. -/
def omits (draft : Draft) (token : Token) : Bool :=
  draft.phase = .part &&
    if draft.properties.isEmpty then omitsBefore draft.inmost? token else !draft.continues token

/-- Fill in the part that is left out before a token. -/
def fillPart (token : Token) (draft : Draft) : Draft :=
  if draft.omits token then draft.putMissing else draft

/-- A sequence at the column of its key ends before what is not an item. -/
def fillEnd (token : Token) (draft : Draft) : Draft :=
  match draft.phase, draft.inmost?, token with
  | .entry, some (.looseSequence _), .item => draft
  | .entry, some (.looseSequence _), _ => draft.leave.getD draft
  | _, _, _ => draft

/-- Fill in the value that is left out before a token. -/
def fillValue (token : Token) (draft : Draft) : Draft :=
  if draft.phase = .colon && token != .value then draft.putMissing else draft

/-- Fill in all that is left out before a token. -/
def fill (token : Token) (draft : Draft) : Draft :=
  ((draft.fillPart token).fillEnd token).fillValue token

/-! ## Tags -/

/-- The versions of the language that can be read. -/
def isKnownVersion (major minor : Nat) : Bool :=
  major = 1 && (minor = 1 || minor = 2)

/-- What the tags with a handle begin with where no directive says otherwise. -/
def standardHandles : List (List Char × Tag) :=
  [(localHandle, localHandle), ("!!".toList, Tag.common.toList)]

/-- The tag that is written, if its handle is known. -/
def tag? (draft : Draft) (tag : WrittenTag) : Option Tag :=
  match tag.handle with
  | none => some (Tag.clip tag.suffix)
  | some handle =>
    ((draft.handles ++ standardHandles).lookup handle).map fun start =>
      Tag.clip start ++ Tag.clip tag.suffix

/-- The document with a directive; no two say the same thing. -/
def direct (draft : Draft) : Directive → Option Draft
  | .version major minor =>
    if draft.versioned || !isKnownVersion major minor then none
    else some { draft with phase := .directed, versioned := true }
  | .handle name start =>
    if (draft.handles.lookup name).isSome then none
    else some { draft with phase := .directed, handles := (name, start) :: draft.handles }

/-! ## Tokens -/

/-- The document with a token of the part that is to come. -/
def takePart (token : Token) (draft : Draft) : Option Draft :=
  match token, draft.inmost? with
  | .anchor name, _ =>
    some { draft with properties := { draft.properties with anchor := some name } }
  | .tag tag, _ =>
    (draft.tag? tag).map fun t =>
      { draft with properties := { draft.properties with tag := some t } }
  | .reference name, _ => (draft.anchors.number? name).map fun n => draft.put (reference n)
  | .text style content, _ => some (draft.putText style content)
  | .openSequence, _ => some (draft.enter (.flowSequence [] .whole) .entry)
  | .openMapping, _ => some (draft.enter (.flowMapping [] .whole) .entry)
  | .blockSequence, _ => some (draft.enter (.blockSequence []) .entry)
  | .blockMapping, _ => some (draft.enter (.blockMapping [] .whole) .entry)
  | .item, some (.blockMapping ..) => some (draft.enter (.looseSequence []) .part)
  | .value, some (.flowSequence _ .key) | .comma, some (.flowSequence _ .key)
  | .closeSequence, some (.flowSequence _ .key) => some draft.putMissing
  | _, _ => none

/-- The document whose next part is a key. -/
def expectKey (draft : Draft) : Draft :=
  { draft with
    phase := .part
    stack := match draft.stack with
      | [] => []
      | ⟨collection, anchor⟩ :: rest => ⟨collection.expectKey, anchor⟩ :: rest }

/-- The document with a token in front of an entry or behind the last one. -/
def takeEntry (token : Token) (draft : Draft) : Option Draft :=
  match draft.inmost?, token with
  | some (.blockSequence _), .item | some (.looseSequence _), .item =>
    some { draft with phase := .part }
  | some (.blockMapping ..), .key | some (.flowSequence ..), .key | some (.flowMapping ..), .key =>
    some draft.expectKey
  | some (.blockSequence _), .blockEnd | some (.blockMapping ..), .blockEnd
  | some (.flowSequence ..), .closeSequence | some (.flowMapping ..), .closeMapping => draft.leave
  | some (.flowSequence ..), _ | some (.flowMapping ..), _ =>
    { draft with phase := .part }.takePart token
  | _, _ => none

/-- The document with a token behind an entry between brackets. -/
def takeComma (token : Token) (draft : Draft) : Option Draft :=
  match draft.inmost?, token with
  | some (.flowSequence ..), .comma | some (.flowMapping ..), .comma =>
    some { draft with phase := .entry }
  | some (.flowSequence ..), .closeSequence | some (.flowMapping ..), .closeMapping => draft.leave
  | _, _ => none

/-- The document with a token in front of which nothing is left out. -/
def take (token : Token) (draft : Draft) : Option Draft :=
  match draft.phase, token with
  | .opening, .directive directive | .directed, .directive directive => draft.direct directive
  | .opening, .documentStart | .directed, .documentStart => some { draft with phase := .part }
  | .opening, .textEnd => some { draft with phase := .closing }
  | .opening, _ => { draft with phase := .part }.takePart token
  | .part, _ => draft.takePart token
  | .entry, _ => draft.takeEntry token
  | .colon, .value => some { draft with phase := .part }
  | .comma, _ => draft.takeComma token
  | .closing, .documentEnd | .closing, .textEnd => some draft
  | _, _ => none

/-- A document with one more token. -/
def step (draft : Draft) (token : Token) : Option Draft :=
  (draft.fill token).take token

/-- Nothing follows a document but its end. -/
theorem step_closing {draft : Draft} (h : draft.phase = .closing) (token : Token) :
    draft.step token =
      if token = .documentEnd ∨ token = .textEnd then some draft else none := by
  have part : draft.fillPart token = draft := by simp [fillPart, omits, h]
  have finish : draft.fillEnd token = draft := by simp [fillEnd, h]
  have value : draft.fillValue token = draft := by simp [fillValue, h]
  cases token <;> simp [step, fill, part, finish, value, take, h]

end Draft

/-- The document of a row of tokens, which holds no other one. -/
def document? (tokens : Array Token) : Option Document := do
  let draft ← tokens.foldlM Draft.step {}
  if draft.phase = .closing then return { root := draft.root, anchors := draft.anchors } else none

/-! ## Texts -/

/-- The one document of a text, none if there are others or it cannot be read. -/
def read? (source : String) : Option Document :=
  if source.toList.all isAllowed then (tokens? (joinBreaks source.toList)).bind document? else none

/-- A text that is read holds no character that must not stand in a document. -/
theorem isAllowed_of_read? {source : String} {document : Document} {c : Char}
    (h : read? source = some document) (hc : c ∈ source.toList) : isAllowed c = true := by
  unfold read? at h
  split at h
  · next all => exact List.all_eq_true.1 all c hc
  · cases h

end Yaml
end SynthPatch
