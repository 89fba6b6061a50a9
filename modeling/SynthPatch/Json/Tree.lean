import SynthPatch.Decimal.Layout
import SynthPatch.Json.Quoted
/-!
# JSON documents

A document is a tree whose leaves are kept as they are written, so that reading and writing decide
nothing about numbers and quoted text.  Values enter the tree through the constructors at the end.

Main results:

- Function {lit}`Json.compact`: a document on one line.
- Function {lit}`Json.pretty`: a document with one entry a line, two blanks of indent a level.
-/

namespace SynthPatch

/-- A JSON document. -/
inductive Json where
  | null
  | bool (b : Bool)
  /-- A number as it is written. -/
  | number (text : List Char)
  /-- A quoted text as it stands between its quotes. -/
  | string (body : List Char)
  | array (items : List Json)
  /-- Fields in order, each name as it stands between its quotes. -/
  | object (fields : List (List Char × Json))

namespace Json

/-! ## On one line -/

/-- A quoted text with its quotes. -/
def quote (body : List Char) : List Char :=
  '"' :: body ++ ['"']

mutual

/-- A document on one line. -/
def compact : Json → List Char
  | .null => "null".toList
  | .bool true => "true".toList
  | .bool false => "false".toList
  | .number text => text
  | .string body => quote body
  | .array [] => "[]".toList
  | .array (x :: rest) => '[' :: compact x ++ compactItems rest ++ [']']
  | .object [] => ['\x7b', '\x7d']
  | .object ((name, x) :: rest) =>
    '\x7b' :: quote name ++ ':' :: compact x ++ compactFields rest ++ ['\x7d']

/-- The items after the first. -/
def compactItems : List Json → List Char
  | [] => []
  | x :: rest => ',' :: compact x ++ compactItems rest

/-- The fields after the first. -/
def compactFields : List (List Char × Json) → List Char
  | [] => []
  | (name, x) :: rest => ',' :: quote name ++ ':' :: compact x ++ compactFields rest

end

/-! ## On many lines -/

/-- A line break and the indent of a level. -/
def newline (level : Nat) : List Char :=
  '\n' :: List.replicate (2 * level) ' '

mutual

/-- A document on many lines, standing at a level of indent. -/
def prettyAt (level : Nat) : Json → List Char
  | .null => "null".toList
  | .bool true => "true".toList
  | .bool false => "false".toList
  | .number text => text
  | .string body => quote body
  | .array [] => "[]".toList
  | .array (x :: rest) =>
    '[' :: newline (level + 1) ++ prettyAt (level + 1) x ++ prettyItems (level + 1) rest ++
      newline level ++ [']']
  | .object [] => ['\x7b', '\x7d']
  | .object ((name, x) :: rest) =>
    '\x7b' :: newline (level + 1) ++ quote name ++ ':' :: ' ' :: prettyAt (level + 1) x ++
      prettyFields (level + 1) rest ++ newline level ++ ['\x7d']

/-- The items after the first. -/
def prettyItems (level : Nat) : List Json → List Char
  | [] => []
  | x :: rest => ',' :: newline level ++ prettyAt level x ++ prettyItems level rest

/-- The fields after the first. -/
def prettyFields (level : Nat) : List (List Char × Json) → List Char
  | [] => []
  | (name, x) :: rest =>
    ',' :: newline level ++ quote name ++ ':' :: ' ' :: prettyAt level x ++ prettyFields level rest

end

/-- A document on many lines. -/
def pretty (j : Json) : String :=
  String.ofList (prettyAt 0 j)

/-! ## Values as documents -/

/-- A text. -/
def ofString (s : String) : Json :=
  .string (Quoted.encode s.toList)

/-- A number; one that is not finite has no place in a document. -/
def ofFloat (x : Float) : Json :=
  if x.isFinite then .number (Layout.document.write x).toList else .null

/-- An object of named values. -/
def ofFields (fields : List (String × Json)) : Json :=
  .object (fields.map fun (name, x) => (Quoted.encode name.toList, x))

end Json
end SynthPatch
