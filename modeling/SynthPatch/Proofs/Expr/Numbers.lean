import SynthPatch.Expr.Compile
import SynthPatch.Proofs.Decimal.Writing
import SynthPatch.Proofs.Double.Order
import SynthPatch.Proofs.Expr.Formula
/-!
# The numbers of an expression

Only finite numbers are read in an expression, and neither the signs that are drawn into them nor
the order they are brought into makes them infinite.

Main results:

- Theorem {lit}`isFinite_neg`: a finite number is finite with its sign turned round.
- Definition {lit}`Token.Finite`: a token that is no infinite or undefined number.
- Theorem {lit}`Postfix.forall_of_compile`: what holds of all tokens that can be read holds of those
  of an expression that compiles.
- Theorem {lit}`Postfix.finite_of_compile`: its numbers are finite.
-/

namespace SynthPatch

open Float.Model (UnpackedFloat Format)

/-! ## Signs -/

/-- Bits whose exponent is not the largest stand for a finite number. -/
theorem Unpacked.isFinite_unpack {bits : BitVec Format.binary64.numBits}
    (small : UnpackedFloat.unpackExponent bits ≠ -1#_) :
    (UnpackedFloat.unpack Format.binary64 bits).isFinite = true := by
  rw [UnpackedFloat.unpack, if_neg small]
  split
  · split <;> rfl
  · rfl

/-- A number in the form that doubles have is packed with an exponent that is not the largest. -/
theorem Unpacked.isFinite_pack {u : UnpackedFloat} (canonical : Canonical u)
    (h : u.isFinite = true) :
    (UnpackedFloat.unpack Format.binary64 (UnpackedFloat.pack Format.binary64 u)).isFinite =
      true := by
  cases canonical with
  | infinity s => cases h
  | zero s =>
      refine isFinite_unpack ?_
      rw [UnpackedFloat.pack, UnpackedFloat.packedZero, UnpackedFloat.unpackExponent_packComponents]
      decide
  | @finite s m e fits =>
      have most := fits.most
      have small : ¬ 2 ^ Format.binary64.exponentBits ≤ (e + Format.binary64.exponentBias +
          Format.binary64.mantissaBitsWithoutImplicit).toNat + 1 := by
        change ¬ 2 ^ 11 ≤ (e + 1023 + 52).toNat + 1
        omega
      refine isFinite_unpack ?_
      unfold UnpackedFloat.pack
      dsimp only
      rw [if_neg small]
      split
      · rw [UnpackedFloat.unpackExponent_packComponents]
        intro largest
        have count := congrArg BitVec.toNat largest
        rw [BitVec.toNat_ofNat] at count
        change (e + 1023 + 52).toNat % 2 ^ 11 = 2047 at count
        omega
      · rw [UnpackedFloat.unpackExponent_packComponents]
        decide

theorem Unpacked.Canonical.neg {u : UnpackedFloat} (h : Canonical u) : Canonical u.neg := by
  cases h with
  | infinity s => exact .infinity _
  | zero s => exact .zero _
  | finite s fits => exact .finite _ fits

/-- A finite number is finite with its sign turned round. -/
theorem isFinite_neg {x : Float} (h : x.isFinite = true) : (-x).isFinite = true := by
  obtain ⟨defined, -⟩ := defined_of_isFinite h
  obtain ⟨canonical, -⟩ := Unpacked.canonical_unpack x.toBits.toBitVec defined
  refine Unpacked.isFinite_pack canonical.neg ?_
  change x.toModel.unpack.isFinite = true at h
  generalize x.toModel.unpack = u at h
  cases u with
  | notANumber => cases h
  | infinity s => cases h
  | zero s => rfl
  | finite s m e positive => rfl

/-- The token is no infinite or undefined number. -/
def Token.Finite : Token Float → Prop
  | .number x => x.isFinite = true
  | _ => True

/-! ## Lexemes -/

namespace Lexeme

/-- The token of a lexeme that is an operand. -/
def operand? : Lexeme → Option (Token Float)
  | number x => some (.number x)
  | param name => some (.param name)
  | _ => none

/-- The lexeme is no operand, or one whose token has a property. -/
def Bears (P : Token Float → Prop) (l : Lexeme) : Prop :=
  ∀ t, l.operand? = some t → P t

/-- The words that are operands are finite numbers and parameters whose names are identifiers. -/
theorem bears_of_ofWord {P : Token Float → Prop}
    (numbers : ∀ x, x.isFinite = true → P (.number x))
    (params : ∀ name, Identifier.isValid name.toList = true → P (.param name))
    {word : List Char} {l : Lexeme} (h : ofWord word = .ok l) : l.Bears P := by
  unfold ofWord at h
  dsimp only at h
  split at h
  · split at h
    · next finite =>
        cases h
        rintro t ⟨⟩
        exact numbers _ finite
    · cases h
  · split at h
    · split at h
      · next valid =>
          cases h
          rintro t ⟨⟩
          exact params _ (by rwa [String.toList_ofList])
      · cases h
    · split at h
      · cases h
        rintro t ⟨⟩
      · cases h

section Text

variable {P : Token Float → Prop} (words : ∀ {word l}, ofWord word = .ok l → l.Bears P)

include words

theorem bears_of_ofGap {gap : List Char} {lexemes : List Lexeme} (h : ofGap gap = .ok lexemes) :
    ∀ l ∈ lexemes, l.Bears P := by
  unfold ofGap at h
  dsimp only at h
  split at h
  · cases h
    simp
  · obtain ⟨l, read, rfl⟩ := Outcome.map_eq_ok_iff.1 h
    simpa using words read

omit words in
theorem bears_of_delimiter? {c : Char} {cut : Lexeme} (h : delimiter? c = some cut) :
    cut.Bears P := by
  unfold delimiter? at h
  split at h <;> cases h <;> rintro t ⟨⟩

/-- What the operands among the words have, all operands of a text have. -/
theorem bears_of_ofTextFrom {gap text : List Char} {lexemes : List Lexeme}
    (h : ofTextFrom gap text = .ok lexemes) : ∀ l ∈ lexemes, l.Bears P := by
  induction text generalizing gap lexemes with
  | nil => exact bears_of_ofGap words h
  | cons c rest ih =>
      unfold ofTextFrom at h
      split at h
      · exact ih h
      · next cut found =>
          obtain ⟨before, front, h⟩ := Outcome.bind_eq_ok_iff.1 h
          obtain ⟨after, back, h⟩ := Outcome.bind_eq_ok_iff.1 h
          cases h
          intro l mem
          simp only [List.mem_append, List.mem_cons] at mem
          rcases mem with mem | rfl | mem
          · exact bears_of_ofGap words front l mem
          · exact bears_of_delimiter? found
          · exact ih back l mem

end Text

/-- Signs that are drawn into numbers leave to operands what does not depend on the sign. -/
theorem bears_foldSigns {P : Token Float → Prop} (signs : ∀ x, P (.number x) → P (.number (-x)))
    {due : Bool} {lexemes : List Lexeme} (h : ∀ l ∈ lexemes, l.Bears P) :
    ∀ l ∈ foldSigns due lexemes, l.Bears P := by
  induction due, lexemes using foldSigns.induct with
  | case1 => exact h
  | case2 x rest ih =>
      rw [foldSigns, if_pos rfl]
      simp only [List.forall_mem_cons] at h ⊢
      refine ⟨?_, ih h.2.2⟩
      rintro t ⟨⟩
      exact signs x (h.2.1 _ rfl)
  | case3 due x rest off ih =>
      rw [foldSigns, if_neg off]
      rw [List.forall_mem_cons] at h ⊢
      exact ⟨h.1, ih h.2⟩
  | case4 due l rest other ih =>
      rw [foldSigns]
      · rw [List.forall_mem_cons] at h ⊢
        exact ⟨h.1, ih h.2⟩
      · exact other

end Lexeme

/-! ## Tokens -/

namespace Postfix

section Tokens

variable {P : Token Float → Prop} (ops : ∀ o, P (.op o)) (funcs : ∀ f, P (.func f))

include ops

theorem forall_ofOps (row : List Op) : ∀ t ∈ ofOps row, P t := by
  intro t mem
  obtain ⟨o, -, rfl⟩ := List.mem_map.1 mem
  exact ops o

theorem forall_of_drain {stack : List Pending} {p : Postfix Float} (h : drain stack = .ok p) :
    ∀ t ∈ p, P t := by
  induction stack generalizing p with
  | nil =>
      cases h
      simp
  | cons top below ih =>
      cases top with
      | op o =>
          obtain ⟨q, drained, rfl⟩ := Outcome.map_eq_ok_iff.1 h
          exact List.forall_mem_cons.2 ⟨ops o, ih drained⟩
      | func f => cases h
      | opening => cases h

include funcs

/-- Bringing lexemes into postfix order leaves their operands as they are. -/
theorem forall_of_reorder {stack : List Pending} {lexemes : List Lexeme} {p : Postfix Float}
    (operands : ∀ l ∈ lexemes, l.Bears P) (h : reorder stack lexemes = .ok p) :
    ∀ t ∈ p, P t := by
  induction lexemes generalizing stack p with
  | nil => exact forall_of_drain ops h
  | cons l rest ih =>
      obtain ⟨first, others⟩ := List.forall_mem_cons.1 operands
      cases l with
      | number x =>
          obtain ⟨q, ordered, rfl⟩ := Outcome.map_eq_ok_iff.1 h
          exact List.forall_mem_cons.2 ⟨first _ rfl, ih others ordered⟩
      | param name =>
          obtain ⟨q, ordered, rfl⟩ := Outcome.map_eq_ok_iff.1 h
          exact List.forall_mem_cons.2 ⟨first _ rfl, ih others ordered⟩
      | func f => exact ih others h
      | opening => exact ih others h
      | op o =>
          obtain ⟨q, ordered, rfl⟩ := Outcome.map_eq_ok_iff.1 h
          exact List.forall_mem_append.2 ⟨forall_ofOps ops _, ih others ordered⟩
      | comma =>
          unfold reorder at h
          split at h
          · obtain ⟨q, ordered, rfl⟩ := Outcome.map_eq_ok_iff.1 h
            exact List.forall_mem_append.2 ⟨forall_ofOps ops _, ih others ordered⟩
          · cases h
      | closing =>
          unfold reorder at h
          split at h
          · obtain ⟨q, ordered, rfl⟩ := Outcome.map_eq_ok_iff.1 h
            exact List.forall_mem_append.2
              ⟨forall_ofOps ops _, List.forall_mem_cons.2 ⟨funcs _, ih others ordered⟩⟩
          · obtain ⟨q, ordered, rfl⟩ := Outcome.map_eq_ok_iff.1 h
            exact List.forall_mem_append.2 ⟨forall_ofOps ops _, ih others ordered⟩
          · cases h

/-- What finite numbers and parameters whose names are identifiers have, and operators and functions
too, all tokens of an expression that compiles have. -/
theorem forall_of_compile (numbers : ∀ x, x.isFinite = true → P (.number x))
    (params : ∀ name, Identifier.isValid name.toList = true → P (.param name))
    (signs : ∀ x, P (.number x) → P (.number (-x))) {text : List Char} {p : Postfix Float}
    (h : compile text = .ok p) : ∀ t ∈ p, P t := by
  obtain ⟨lexemes, read, ordered, -⟩ := exists_of_compile h
  have operands := Lexeme.bears_of_ofTextFrom (Lexeme.bears_of_ofWord numbers params) read
  exact forall_of_reorder ops funcs (Lexeme.bears_foldSigns signs operands) ordered

end Tokens

/-- The numbers of an expression that compiles are finite. -/
theorem finite_of_compile {text : List Char} {p : Postfix Float} (h : compile text = .ok p) :
    ∀ t ∈ p, t.Finite :=
  forall_of_compile (fun _ => trivial) (fun _ => trivial) (fun _ => id) (fun _ _ => trivial)
    (fun _ => isFinite_neg) h

end Postfix
end SynthPatch
