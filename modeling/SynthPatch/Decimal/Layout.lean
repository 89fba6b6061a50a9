import SynthPatch.Decimal.Shortest
/-!
# Writing numbers

A double is written with the fewest digits that read back to it.  A layout says which numbers are
written positionally and which with a power of ten, and whether a whole number shows a point.

Main results:

- Function {lit}`Layout.write`: the text of a double in a layout.
- Function {lit}`writePlaces`: the text of a double with a fixed number of places.
-/

namespace SynthPatch

/-- The decisions of a way to write numbers. -/
structure Layout where
  /-- Positional notation is used for these powers of ten of the leading digit. -/
  positional : Int → Bool
  /-- A whole number in positional notation ends in {lit}`.0`. -/
  showsPoint : Bool
  /-- Which of two equally near decimals is written. -/
  tie : Decimal.Tie

namespace Layout

/-- Numbers in messages are positional throughout, and whole numbers have no point. -/
def message : Layout where
  positional _ := true
  showsPoint := false
  tie := .up

/-- Numbers in documents are positional when the leading digit lies between the fifth place and
the sixteenth figure, and whole numbers then show a point. -/
def document : Layout where
  positional e := -5 ≤ e && e < 16
  showsPoint := true
  tie := .toEven

end Layout

namespace Decimal

/-- The digits without the zeros at their end. -/
def stripZeros (cs : List Char) : List Char :=
  (cs.reverse.dropWhile (· == '0')).reverse

/-- Digits with a point after the first {lit}`lead` of them; zeros fill in on either side. -/
def placePoint (showsPoint : Bool) (cs : List Char) (lead : Int) : List Char :=
  if lead ≤ 0 then '0' :: '.' :: List.replicate (-lead).toNat '0' ++ cs
  else
    let whole := cs.take lead.toNat ++ List.replicate (lead.toNat - cs.length) '0'
    let fraction := cs.drop lead.toNat
    if !fraction.isEmpty then whole ++ '.' :: fraction
    else if showsPoint then whole ++ ['.', '0']
    else whole

/-- Digits with a point after the first of them and a signed power of ten. -/
def placePower (cs : List Char) (power : Int) : List Char :=
  let fraction := cs.drop 1
  cs.take 1 ++ (if fraction.isEmpty then [] else '.' :: fraction) ++
    'e' :: (if power < 0 then '-' else '+') :: Nat.toDigits 10 power.natAbs

/-- A decimal in a layout. -/
def write (layout : Layout) (d : Decimal) : List Char :=
  let all := Nat.toDigits 10 d.digits
  if d.digits = 0 then placePoint layout.showsPoint ['0'] 1
  else
    let lead : Int := all.length + d.exponent
    if layout.positional (lead - 1) then placePoint layout.showsPoint (stripZeros all) lead
    else placePower (stripZeros all) (lead - 1)

end Decimal

/-! ## Doubles -/

/-- The sign bit of a double is set. -/
def isNegative (x : Float) : Bool :=
  UInt64.size / 2 ≤ x.toBits.toNat

/-- The text of a number that may be infinite or undefined, given how its magnitude is written. -/
def writeWith (magnitude : Binary → List Char) (x : Float) : String :=
  if x.isNaN then "NaN"
  else
    let sign := if isNegative x then ['-'] else []
    String.ofList (sign ++ if x.isInf then "inf".toList else magnitude (Binary.ofFloat x))

/-- The text of a double in a layout. -/
def Layout.write (layout : Layout) (x : Float) : String :=
  writeWith (fun b => (b.shortest layout.tie).write layout) x

/-- A number as messages show it. -/
def showNumber (x : Float) : String :=
  Layout.message.write x

/-- The text of a magnitude with a fixed number of places, rounded from its exact value. -/
def Binary.writePlaces (places : Nat) (b : Binary) : List Char :=
  let rounded := Decimal.roundDiv (b.scaled * Decimal.powerOfTen places) b.unit .toEven
  let digits := Nat.toDigits 10 rounded
  let padded := List.replicate (places + 1 - digits.length) '0' ++ digits
  let whole := padded.length - places
  padded.take whole ++ '.' :: padded.drop whole

/-- The text of a double with a fixed number of places; a value just between two such texts goes
to the one with the even last digit. -/
def writePlaces (places : Nat) (x : Float) : String :=
  writeWith (Binary.writePlaces places) x

end SynthPatch
