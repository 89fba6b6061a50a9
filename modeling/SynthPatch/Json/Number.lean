import SynthPatch.Decimal.Basic
/-!
# Numbers of a document

A number of a document is brought to double precision in two roundings.  Its leading digits, as
many as make a whole number below {lit}`2 ^ 64`, are rounded to a double; that is multiplied or
divided by a power of ten.  Digits of the whole part that do not fit only count as places, digits
of the fraction that do not fit are dropped.

Main results:

- Function {lit}`DocumentNumber.toFloat?`: the double of a number, none if it is too large.
-/

namespace SynthPatch
namespace DocumentNumber

/-- Digits taken so far, and the power of ten they are scaled by. -/
structure Part where
  /-- A whole number below {lit}`2 ^ 64`. -/
  significand : Nat
  /-- The power of ten it is scaled by. -/
  exponent : Int
deriving Repr, DecidableEq

/-- Take in the digits of the whole part; from the first that does not fit on they only count as
places. -/
def takeWhole (n : Nat) : List Char → Part
  | [] => ⟨n, 0⟩
  | c :: rest =>
    let m := 10 * n + (c.toNat - '0'.toNat)
    if m < UInt64.size then takeWhole m rest else ⟨n, (c :: rest).length⟩

/-- Take in the digits of the fraction as long as they fit. -/
def takeFraction (part : Part) : List Char → Part
  | [] => part
  | c :: rest =>
    let m := 10 * part.significand + (c.toNat - '0'.toNat)
    if m < UInt64.size then takeFraction ⟨m, part.exponent - 1⟩ rest else part

/-- A power of ten within double precision. -/
def powerOfTen (n : Nat) : Float :=
  Float.ofScientific 1 false n

/-- Divide by a power of ten, in steps within double precision. -/
def divideBy (x : Float) (places : Nat) : Float :=
  if places ≤ 308 then x / powerOfTen places
  else if x == 0 then x
  else divideBy (x / powerOfTen 308) (places - 308)
termination_by places

/-- The double of a significand and a power of ten, none if it is too large. -/
def scale? (part : Part) : Option Float :=
  let x := Float.ofNat part.significand
  if part.exponent < 0 then some (divideBy x part.exponent.natAbs)
  else if 308 < part.exponent then (if x == 0 then some x else none)
  else
    let y := x * powerOfTen part.exponent.natAbs
    if y.isInf then none else some y

/-- The power of ten written behind a number. -/
def readPower : List Char → Int
  | _ :: '-' :: ds => -(Nat.ofDigitChars 10 ds 0 : Int)
  | _ :: '+' :: ds => Nat.ofDigitChars 10 ds 0
  | _ :: ds => Nat.ofDigitChars 10 ds 0
  | [] => 0

/-- The double of an unsigned number. -/
def ofUnsigned? (text : List Char) : Option Float :=
  let whole := takeWhole 0 (text.takeWhile Char.isDigit)
  let rest := text.dropWhile Char.isDigit
  match rest with
  | '.' :: rest =>
    let part := takeFraction whole (rest.takeWhile Char.isDigit)
    scale? ⟨part.significand, part.exponent + readPower (rest.dropWhile Char.isDigit)⟩
  | rest => scale? ⟨whole.significand, whole.exponent + readPower rest⟩

/-- The double of a number, none if it is too large. -/
def toFloat? : List Char → Option Float
  | '-' :: text => (ofUnsigned? text).map fun x => -x
  | text => ofUnsigned? text

end DocumentNumber
end SynthPatch
