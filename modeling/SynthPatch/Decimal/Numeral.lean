import SynthPatch.Decimal.Basic
/-!
# Reading numbers

A number is written as an optional sign and digits with an optional point and an optional power of
ten, at least one digit standing before the power.  The words for an infinite and for an undefined
value are read in any mixture of cases.

Main results:

- Function {lit}`Numeral.read`: what a text denotes, if it is a number at all.
- Theorem {lit}`Numeral.read_neg`: a minus sign in front of an unsigned number negates it.
-/

namespace SynthPatch

/-- What the text of a number denotes, before it is rounded. -/
inductive Numeral where
  | finite (negative : Bool) (magnitude : Decimal)
  | infinite (negative : Bool)
  | undefined
deriving Repr, DecidableEq

/-! ## Digits, point and power -/

/-- A row of one or more digits. -/
def Numeral.readDigits (cs : List Char) : Option Nat :=
  if !cs.isEmpty && cs.all Char.isDigit then some (Nat.ofDigitChars 10 cs 0) else none

/-- The power of ten that may end a number; none at all is the power zero. -/
def Numeral.readPower : List Char → Option Int
  | [] => some 0
  | mark :: r =>
    if mark == 'e' || mark == 'E' then
      match r with
      | '-' :: ds => (readDigits ds).map fun n => -(n : Int)
      | '+' :: ds => (readDigits ds).map fun n => (n : Int)
      | ds => (readDigits ds).map fun n => (n : Int)
    else none

/-- The digits after the point, with what follows them. -/
def Numeral.splitFraction : List Char → List Char × List Char
  | '.' :: r => (r.takeWhile Char.isDigit, r.dropWhile Char.isDigit)
  | r => ([], r)

/-- Read a number that has no sign of its own. -/
def Decimal.read (cs : List Char) : Option Decimal :=
  let whole := cs.takeWhile Char.isDigit
  let (fraction, rest) := Numeral.splitFraction (cs.dropWhile Char.isDigit)
  if whole.isEmpty && fraction.isEmpty then none
  else (Numeral.readPower rest).map fun power =>
    ⟨Nat.ofDigitChars 10 (whole ++ fraction) 0, power - fraction.length⟩

namespace Numeral

/-! ## Signs and words -/

/-- Read what follows the sign. -/
def readUnsigned (negative : Bool) (cs : List Char) : Option Numeral :=
  let word := cs.map Char.toLower
  if word = "inf".toList ∨ word = "infinity".toList then some (.infinite negative)
  else if word = "nan".toList then some .undefined
  else (Decimal.read cs).map (.finite negative)

/-- Read a number, with or without a sign. -/
def read : List Char → Option Numeral
  | '-' :: r => readUnsigned true r
  | '+' :: r => readUnsigned false r
  | r => readUnsigned false r

/-- The number with its sign turned round. -/
def neg : Numeral → Numeral
  | .finite negative magnitude => .finite (!negative) magnitude
  | .infinite negative => .infinite (!negative)
  | .undefined => .undefined

/-- A minus sign turns the number round that follows it, if that has no sign of its own. -/
theorem read_neg {cs : List Char} (first : ∀ c ∈ cs.head?, c ≠ '-' ∧ c ≠ '+') :
    read ('-' :: cs) = (read cs).map neg := by
  have unsigned : read cs = readUnsigned false cs := by
    unfold read
    split <;> simp_all
  rw [unsigned]
  simp only [read, readUnsigned]
  split
  · rfl
  · split
    · rfl
    · rw [Option.map_map]
      rfl

end Numeral

/-! ## Rounding to double precision -/

/-- The double nearest to a decimal.  Values beyond every double become infinite, values below
every double vanish. -/
def Decimal.toFloat (d : Decimal) : Float :=
  let lead : Int := Decimal.digitCount d.digits + d.exponent
  if d.digits = 0 ∨ lead < -400 then 0
  else if 400 < lead then 1 / 0
  else Float.ofScientific d.digits (d.exponent < 0) d.exponent.natAbs

/-- The double nearest to what was read. -/
def Numeral.toFloat : Numeral → Float
  | .finite false magnitude => magnitude.toFloat
  | .finite true magnitude => -magnitude.toFloat
  | .infinite false => 1 / 0
  | .infinite true => -(1 / 0)
  | .undefined => 0 / 0

/-- Read a number in double precision. -/
def readFloat (cs : List Char) : Option Float :=
  (Numeral.read cs).map Numeral.toFloat

end SynthPatch
