/-!
# Characters and words

What the texts of a patch, an expression and a command have in common: the blanks that separate
words without being part of one, the names that are given to things, and the columns that a list is
laid out in.

Main results:

- Theorem {lit}`Text.trim_eq_self`: text without blanks at its ends is left alone.
- Theorem {lit}`Identifier.isTail_of_isHead`: what may begin an identifier may continue it.
- Theorems {lit}`Text.length_flushLeft`, {lit}`Text.length_flushRight`: how wide a column is.
-/

namespace SynthPatch

/-! ## Blanks -/

namespace Text

/-- White space in the sense of Unicode: the control characters from tab to carriage return, the
space, and the separators beyond ASCII. -/
def isBlank (c : Char) : Bool :=
  let n := c.val
  (0x09 ≤ n && n ≤ 0x0D) || n == 0x20 || n == 0x85 || n == 0xA0 || n == 0x1680 ||
    (0x2000 ≤ n && n ≤ 0x200A) || n == 0x2028 || n == 0x2029 || n == 0x202F || n == 0x205F ||
    n == 0x3000

/-- The text without the blanks at its ends. -/
def trim (cs : List Char) : List Char :=
  ((cs.dropWhile isBlank).reverse.dropWhile isBlank).reverse

private theorem dropWhile_isBlank_eq_self {cs : List Char}
    (h : ∀ c ∈ cs.head?, isBlank c = false) : cs.dropWhile isBlank = cs := by
  cases cs with
  | nil => rfl
  | cons c r => simp [List.dropWhile, h c (by simp)]

/-- Text that neither begins nor ends with a blank is left as it is. -/
theorem trim_eq_self {cs : List Char} (first : ∀ c ∈ cs.head?, isBlank c = false)
    (last : ∀ c ∈ cs.getLast?, isBlank c = false) : trim cs = cs := by
  unfold trim
  rw [dropWhile_isBlank_eq_self first, dropWhile_isBlank_eq_self, List.reverse_reverse]
  simpa using last

end Text

/-! ## Identifiers

The names a patch gives to its synth, parameters, modules and tables, and the names of ports and
properties: a letter or underscore, then letters, digits and underscores, all ASCII. -/

namespace Identifier

/-- A character that may begin an identifier. -/
def isHead (c : Char) : Bool :=
  c.isAlpha || c == '_'

/-- A character that may continue an identifier. -/
def isTail (c : Char) : Bool :=
  c.isAlphanum || c == '_'

/-- The characters form an identifier. -/
def isValid : List Char → Bool
  | [] => false
  | c :: r => isHead c && r.all isTail

/-- What may begin an identifier may continue it. -/
theorem isTail_of_isHead {c : Char} (h : isHead c = true) : isTail c = true := by
  simp only [isHead, isTail, Char.isAlphanum, Bool.or_eq_true] at h ⊢
  rcases h with h | h
  · exact .inl (.inl h)
  · exact .inr h

end Identifier

/-! ## Columns -/

namespace Text

/-- The text moved to the left edge of a column. -/
def flushLeft (width : Nat) (s : String) : String :=
  s ++ String.ofList (List.replicate (width - s.length) ' ')

/-- The text moved to the right edge of a column. -/
def flushRight (width : Nat) (s : String) : String :=
  String.ofList (List.replicate (width - s.length) ' ') ++ s

/-- A column is as wide as asked, or as wide as its text. -/
theorem length_flushLeft (width : Nat) (s : String) :
    (flushLeft width s).length = max width s.length := by
  simp [flushLeft]
  omega

/-- A column is as wide as asked, or as wide as its text. -/
theorem length_flushRight (width : Nat) (s : String) :
    (flushRight width s).length = max width s.length := by
  simp [flushRight]
  omega

end Text
end SynthPatch
