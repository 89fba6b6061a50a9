import SynthPatch.Json.Tree
/-!
# Reading documents

A text is read as one document, with blanks around every part of it.  Numbers and quoted texts are
only checked for their form.

Main results:

- Function {lit}`Json.read?`: the document of a text, none if it is not one.
-/

namespace SynthPatch
namespace Json

/-! ## Leaves -/

/-- The characters that may stand between the parts of a document. -/
def isSpace (c : Char) : Bool :=
  c == ' ' || c == '\n' || c == '\t' || c == '\r'

/-- The text behind leading blanks. -/
def skipSpace (s : List Char) : List Char :=
  s.dropWhile isSpace

/-- Take a fixed text off the front. -/
def dropLiteral? : List Char → List Char → Option (List Char)
  | [], s => some s
  | c :: r, d :: s => if c == d then dropLiteral? r s else none
  | _ :: _, [] => none

/-- One or more digits, with the text behind them. -/
def splitDigits? (s : List Char) : Option (List Char × List Char) :=
  let digits := s.takeWhile Char.isDigit
  if digits.isEmpty then none else some (digits, s.dropWhile Char.isDigit)

/-- The whole part of a number: zero, or digits that do not begin with it. -/
def splitWhole? : List Char → Option (List Char × List Char)
  | '0' :: rest =>
    match rest with
    | c :: _ => if c.isDigit then none else some (['0'], rest)
    | [] => some (['0'], [])
  | s => splitDigits? s

/-- The fraction of a number, if it has one. -/
def splitFraction? : List Char → Option (List Char × List Char)
  | '.' :: s => (splitDigits? s).map fun (digits, rest) => ('.' :: digits, rest)
  | s => some ([], s)

/-- The power of ten of a number, if it has one. -/
def splitPower? : List Char → Option (List Char × List Char)
  | mark :: s =>
    if mark == 'e' || mark == 'E' then
      match s with
      | sign :: t =>
        if sign == '+' || sign == '-' then
          (splitDigits? t).map fun (digits, rest) => (mark :: sign :: digits, rest)
        else (splitDigits? s).map fun (digits, rest) => (mark :: digits, rest)
      | [] => none
    else some ([], mark :: s)
  | [] => some ([], [])

/-- A number, with the text behind it. -/
def splitNumber? (s : List Char) : Option (List Char × List Char) := do
  let (sign, s) := match s with
    | '-' :: r => (['-'], r)
    | r => ([], r)
  let (whole, s) ← splitWhole? s
  let (fraction, s) ← splitFraction? s
  let (power, s) ← splitPower? s
  return (sign ++ whole ++ fraction ++ power, s)

/-- The body of a quoted text up to its closing quote, with the text behind that. -/
def splitQuoted? : List Char → Option (List Char × List Char)
  | [] => none
  | '"' :: rest => some ([], rest)
  | '\\' :: 'u' :: a :: b :: c :: d :: rest =>
    if (Quoted.hexUnit? a b c d).isSome then
      (splitQuoted? rest).map fun (body, rest) => ('\\' :: 'u' :: a :: b :: c :: d :: body, rest)
    else none
  | '\\' :: e :: rest =>
    if (Quoted.escaped? e).isSome then
      (splitQuoted? rest).map fun (body, rest) => ('\\' :: e :: body, rest)
    else none
  | c :: rest =>
    if c == '\\' || c.toNat < 0x20 then none
    else (splitQuoted? rest).map fun (body, rest) => (c :: body, rest)

/-! ## Trees -/

mutual

/-- A document at the front of a text, with the text behind it.  The bound is on the number of
parts that are entered. -/
def readValue : Nat → List Char → Option (Json × List Char)
  | 0, _ => none
  | bound + 1, s =>
    match skipSpace s with
    | '\x7b' :: s =>
      match skipSpace s with
      | '\x7d' :: s => some (.object [], s)
      | s => (readFields bound s).map fun (fields, s) => (.object fields, s)
    | '[' :: s =>
      match skipSpace s with
      | ']' :: s => some (.array [], s)
      | s => (readItems bound s).map fun (items, s) => (.array items, s)
    | '"' :: s => (splitQuoted? s).map fun (body, s) => (.string body, s)
    | 't' :: s => (dropLiteral? "rue".toList s).map fun s => (.bool true, s)
    | 'f' :: s => (dropLiteral? "alse".toList s).map fun s => (.bool false, s)
    | 'n' :: s => (dropLiteral? "ull".toList s).map fun s => (.null, s)
    | s => (splitNumber? s).map fun (text, s) => (.number text, s)

/-- One or more items up to the closing bracket. -/
def readItems : Nat → List Char → Option (List Json × List Char)
  | 0, _ => none
  | bound + 1, s => do
    let (x, s) ← readValue bound s
    match skipSpace s with
    | ']' :: s => return ([x], s)
    | ',' :: s =>
      let (items, s) ← readItems bound s
      return (x :: items, s)
    | _ => none

/-- One or more fields up to the closing brace. -/
def readFields : Nat → List Char → Option (List (List Char × Json) × List Char)
  | 0, _ => none
  | bound + 1, s =>
    match skipSpace s with
    | '"' :: s => do
      let (name, s) ← splitQuoted? s
      match skipSpace s with
      | ':' :: s =>
        let (x, s) ← readValue bound s
        match skipSpace s with
        | '\x7d' :: s => return ([(name, x)], s)
        | ',' :: s =>
          let (fields, s) ← readFields bound s
          return ((name, x) :: fields, s)
        | _ => none
      | _ => none
    | _ => none

end

/-- The document of a text, none if it is not one. -/
def read? (s : String) : Option Json :=
  let cs := s.toList
  match readValue (cs.length + 1) cs with
  | some (j, rest) => if (skipSpace rest).isEmpty then some j else none
  | none => none

end Json
end SynthPatch
