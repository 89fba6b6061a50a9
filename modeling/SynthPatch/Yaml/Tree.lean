import SynthPatch.Decimal.Numeral
import SynthPatch.Json.Quoted
/-!
# YAML documents

A document is a tree of texts, sequences and mappings.  A text that was written without quotes may
also stand for a number or for nothing; one that was written otherwise is only ever a text, unless
it is a block of lines with a tag that says so.  A part of the tree may stand for another one that
has an anchor.

Main results:

- Theorem {lit}`Yaml.natural?_lt`: a natural number that is read is below its bound.
-/

namespace SynthPatch
namespace Yaml

/-- How a text is written. -/
inductive Style where
  /-- Without quotes. -/
  | plain
  | quoted
  /-- As a block whose lines stay lines. -/
  | literal
  /-- As a block whose lines are joined. -/
  | folded
deriving DecidableEq, Repr

/-- What kind of value a text is said to stand for. -/
abbrev Tag :=
  List Char

namespace Tag

/-- What the tags of the common kinds begin with. -/
def common : String :=
  "tag:yaml.org,2002:"

/-- The tag of a common kind. -/
def ofKind (kind : String) : Tag :=
  (common ++ kind).toList

end Tag

end Yaml

/-- A part of a YAML document. -/
inductive Yaml where
  | scalar (style : Yaml.Style) (tag : Option Yaml.Tag) (content : List Char)
  | sequence (items : List Yaml)
  | mapping (entries : List (Yaml × Yaml))
  /-- The part that has the anchor of a number. -/
  | reference (number : Nat)

namespace Yaml

/-! ## Texts -/

/-- The part that stands where nothing is written. -/
def missing : Yaml :=
  scalar .plain none []

/-- The words that stand for nothing. -/
def nullWords : List String :=
  ["~", "null", "Null", "NULL"]

/-- The text of a part. -/
def text? : Yaml → Option String
  | scalar _ _ content => some (String.ofList content)
  | _ => none

/-- The text of a part that may also stand for nothing.  What is tagged as nothing has to be one of
the words for it, and with another tag no word is one. -/
def optionalText? : Yaml → Option (Option String)
  | scalar .plain none content =>
    let word := String.ofList content
    some (if content.isEmpty || nullWords.contains word then none else some word)
  | scalar .plain (some tag) content =>
    let word := String.ofList content
    if tag = Tag.ofKind "null" then if nullWords.contains word then some none else none
    else some (some word)
  | y => y.text?.map some

/-- The entries of a mapping; one that is not written has none. -/
def entries? : Yaml → Option (List (Yaml × Yaml))
  | mapping entries => some entries
  | scalar .plain _ [] => some []
  | _ => none

/-! ## Numbers -/

/-- The content of a text that may stand for a number of a kind: one without quotes, or a block of
lines that the tag says to be one. -/
def numeral? (kind : String) : Yaml → Option (List Char)
  | scalar .plain _ content => some content
  | scalar .literal (some tag) content => if tag = Tag.ofKind kind then some content else none
  | _ => none

/-- The digits behind a plus sign, if there is one. -/
def dropPlus : List Char → List Char
  | '+' :: digits => digits
  | digits => digits

/-- The text begins with a sign. -/
def hasSign : List Char → Bool
  | '+' :: _ | '-' :: _ => true
  | _ => false

/-- A number as it is written without quotes.  Infinity and the undefined value have words of their
own; no other text stands for them, nor does a number too large to be finite. -/
def readNumber? (content : List Char) : Option Float :=
  let word := String.ofList content
  let unsigned := dropPlus content
  if content.head? = some '+' ∧ hasSign unsigned then none
  else if [".inf", ".Inf", ".INF"].contains (String.ofList unsigned) then some (1 / 0)
  else if ["-.inf", "-.Inf", "-.INF"].contains word then some (-1 / 0)
  else if [".nan", ".NaN", ".NAN"].contains word then some (0 / 0)
  else (readFloat unsigned).filter Float.isFinite

/-- The number of a part. -/
def number? (y : Yaml) : Option Float :=
  (y.numeral? "float").bind readNumber?

/-- The value of one or more digits to a base. -/
def readDigits? (base : Nat) : List Char → Option Nat
  | [] => none
  | digits => digits.foldlM (fun n c => do
      let d ← (Quoted.hexValue? c).filter (· < base)
      return base * n + d) 0

/-- A natural number as it is written, with the mark of its base if it is not ten.  A number to
base ten does not begin with an idle zero. -/
def readNatural? (content : List Char) : Option Nat :=
  match dropPlus content with
  | '0' :: 'x' :: digits => readDigits? 16 digits
  | '0' :: 'o' :: digits => readDigits? 8 digits
  | '0' :: 'b' :: digits => readDigits? 2 digits
  | '0' :: _ :: _ => none
  | digits => readDigits? 10 digits

/-- The natural number of a part, if it is below a bound. -/
def natural? (bound : Nat) (y : Yaml) : Option Nat :=
  ((y.numeral? "int").bind readNatural?).filter (· < bound)

/-- A natural number that is read is below its bound. -/
theorem natural?_lt {bound n : Nat} {y : Yaml} (h : y.natural? bound = some n) : n < bound := by
  simpa using (Option.filter_eq_some_iff.1 h).2

end Yaml
end SynthPatch
