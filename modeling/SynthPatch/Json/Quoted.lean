/-!
# Text between quotes

A text stands in a document with its quotes, backslashes and control characters escaped; all other
characters stand for themselves.  Reading also takes escapes that writing does not use.

Main results:

- Theorem {lit}`Quoted.decode_encode`: reading gives back what was written.
- Theorem {lit}`Quoted.encode_injective`: different texts are written differently.
-/

namespace SynthPatch
namespace Quoted

/-! ## Writing -/

/-- The hexadecimal digit of a number below sixteen. -/
def hexDigit (n : Nat) : Char :=
  Nat.digitChar n

/-- How one character is written. -/
def encodeChar (c : Char) : List Char :=
  match c with
  | '"' => ['\\', '"']
  | '\\' => ['\\', '\\']
  | '\n' => ['\\', 'n']
  | '\r' => ['\\', 'r']
  | '\t' => ['\\', 't']
  | '\x08' => ['\\', 'b']
  | '\x0c' => ['\\', 'f']
  | c =>
    if c.toNat < 0x20 then
      ['\\', 'u', '0', '0', hexDigit (c.toNat / 16), hexDigit (c.toNat % 16)]
    else [c]

/-- How a text is written between quotes. -/
def encode (s : List Char) : List Char :=
  s.flatMap encodeChar

/-! ## Reading -/

/-- Value of a hexadecimal digit, in either case. -/
def hexValue? (c : Char) : Option Nat :=
  if c.isDigit then some (c.toNat - '0'.toNat)
  else if 'a' ≤ c ∧ c ≤ 'f' then some (c.toNat - 'a'.toNat + 10)
  else if 'A' ≤ c ∧ c ≤ 'F' then some (c.toNat - 'A'.toNat + 10)
  else none

/-- Value of four hexadecimal digits. -/
def hexUnit? (a b c d : Char) : Option Nat := do
  return ((← hexValue? a) * 16 + (← hexValue? b)) * 256 + ((← hexValue? c) * 16 + (← hexValue? d))

/-- The character of a one-letter escape. -/
def escaped? : Char → Option Char
  | '"' => some '"'
  | '\\' => some '\\'
  | '/' => some '/'
  | 'b' => some '\x08'
  | 'f' => some '\x0c'
  | 'n' => some '\n'
  | 'r' => some '\r'
  | 't' => some '\t'
  | _ => none

/-- The character of one code unit, or of a leading and a trailing unit together. -/
def ofUnits? (lead : Nat) (trail : Option Nat) : Option Char :=
  if lead < 0xD800 ∨ 0xDFFF < lead then
    match trail with
    | none => some (Char.ofNat lead)
    | some _ => none
  else match trail with
    | none => none
    | some t =>
      if lead < 0xDC00 ∧ 0xDC00 ≤ t ∧ t ≤ 0xDFFF then
        some (Char.ofNat (0x10000 + (lead - 0xD800) * 0x400 + (t - 0xDC00)))
      else none

/-- The text that stands between quotes, if every escape in it stands for a character. -/
def decode : List Char → Option (List Char)
  | [] => some []
  | '\\' :: 'u' :: a :: b :: c :: d :: rest =>
    match hexUnit? a b c d with
    | none => none
    | some lead =>
      match ofUnits? lead none with
      | some ch => (decode rest).map (ch :: ·)
      | none =>
        match rest with
        | '\\' :: 'u' :: e :: f :: g :: h :: rest =>
          match (hexUnit? e f g h).bind fun trail => ofUnits? lead (some trail) with
          | some ch => (decode rest).map (ch :: ·)
          | none => none
        | _ => none
  | '\\' :: e :: rest =>
    match escaped? e with
    | some ch => (decode rest).map (ch :: ·)
    | none => none
  | ['\\'] => none
  | c :: rest => (decode rest).map (c :: ·)

private theorem decode_plain {c : Char} (h : c ≠ '\\') (rest : List Char) :
    decode (c :: rest) = (decode rest).map (c :: ·) := by
  rw [decode.eq_def]
  split <;> simp_all

private theorem decode_escaped {e ch : Char} (h : escaped? e = some ch) (hu : e ≠ 'u')
    (rest : List Char) : decode ('\\' :: e :: rest) = (decode rest).map (ch :: ·) := by
  rw [decode.eq_def]
  split <;> grind

private theorem decode_control {n : Nat} (h : n < 32) (rest : List Char) :
    decode ('\\' :: 'u' :: '0' :: '0' :: hexDigit (n / 16) :: hexDigit (n % 16) :: rest) =
      (decode rest).map (Char.ofNat n :: ·) := by
  have unit : ∀ m < 32, hexUnit? '0' '0' (hexDigit (m / 16)) (hexDigit (m % 16)) = some m := by
    decide
  rw [decode, unit n h]
  simp [ofUnits?, show n < 0xD800 by omega]

/-- One written character reads back to it. -/
theorem decode_encodeChar_append (c : Char) (rest : List Char) :
    decode (encodeChar c ++ rest) = (decode rest).map (c :: ·) := by
  unfold encodeChar
  split
  · exact decode_escaped rfl (by decide) rest
  · exact decode_escaped rfl (by decide) rest
  · exact decode_escaped rfl (by decide) rest
  · exact decode_escaped rfl (by decide) rest
  · exact decode_escaped rfl (by decide) rest
  · exact decode_escaped rfl (by decide) rest
  · exact decode_escaped rfl (by decide) rest
  · split
    · next small =>
      have := decode_control small rest
      rw [Char.ofNat_toNat] at this
      exact this
    · exact decode_plain (by assumption) rest

/-- Reading gives back what was written. -/
@[simp]
theorem decode_encode (s : List Char) : decode (encode s) = some s := by
  induction s with
  | nil => rfl
  | cons c r ih =>
    rw [encode, List.flatMap_cons, decode_encodeChar_append]
    rw [encode] at ih
    simp [ih]

/-- Different texts are written differently. -/
theorem encode_injective {s t : List Char} (h : encode s = encode t) : s = t := by
  have := congrArg decode h
  simpa using this

end Quoted
end SynthPatch
