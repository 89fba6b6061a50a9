import SynthPatch.Expr.Reorder
import SynthPatch.Proofs.Expr.Infix
/-!
# Infix forms in postfix order

Reading an infix form puts out the first tokens of its formula and leaves the others, all of them
operators, on the stack of what is pending.  What was on the stack before is not touched, as long as
an operand may begin on top of it.

Main results:

- Definition {lit}`Postfix.Delivers`: what reading lexemes puts out and leaves on the stack.
- Theorem {lit}`Infix.delivers`: an infix form delivers the tokens of its formula.
- Theorem {lit}`Infix.ofLexemes_eq`: an infix form comes to the tokens of its formula.
-/

namespace SynthPatch

namespace Pending

/-- An operand may begin on top of the stack whose loosest operator is of the given level.  Behind a
function no operand may begin, only its opening parenthesis. -/
def Ready (level : Nat) : List Pending → Prop
  | [] | .opening :: _ => True
  | .op o :: _ => o.precedence < level
  | .func _ :: _ => False

theorem ready_opening (level : Nat) (stack : List Pending) : Ready level (.opening :: stack) :=
  trivial

/-- Exactly the operators are taken off that bind at least as tightly. -/
theorem takeTight_of_ready {o : Op} {ops : List Op} {stack : List Pending}
    (tight : ∀ p ∈ ops, o.precedence ≤ p.precedence) (ready : Ready o.precedence stack) :
    takeTight o (ops.map .op ++ stack) = (ops, stack) := by
  induction ops with
  | nil =>
      match stack, ready with
      | [], _ => rfl
      | .opening :: _, _ => rfl
      | .op p :: below, looser =>
          have looser : p.precedence < o.precedence := looser
          simp [takeTight, looser]
  | cons p rest ih =>
      have top : ¬ p.precedence < o.precedence := Nat.not_lt.2 (tight p (by simp))
      have below := ih fun q hq => tight q (by simp [hq])
      simp [takeTight, top, below]

/-- Down to an opening parenthesis all operators are taken off. -/
theorem takeOps_opening (ops : List Op) (below : List Pending) :
    takeOps (ops.map .op ++ .opening :: below) = (ops, .opening :: below) := by
  induction ops with
  | nil => rfl
  | cons p rest ih => simp [takeOps, ih]

end Pending

namespace Postfix

open Pending

/-! ## What reading delivers -/

/-- Reading the lexemes where an operand of the level may begin puts out the first of the tokens and
leaves the others, operators of the level or tighter, on the stack. -/
def Delivers (level : Nat) (tokens : Postfix Float) (lexemes : List Lexeme) : Prop :=
  ∃ (out : Postfix Float) (ops : List Op),
    tokens = out ++ ofOps ops ∧ (∀ o ∈ ops, level ≤ o.precedence) ∧
      ∀ stack rest, Ready level stack →
        reorder stack (lexemes ++ rest) = (reorder (ops.map .op ++ stack) rest).map (out ++ ·)

theorem map_append_map_append {ε : Type} (a b : Postfix Float) (x : Except ε (Postfix Float)) :
    (x.map (b ++ ·)).map (a ++ ·) = x.map (a ++ b ++ ·) := by
  cases x with
  | error e => rfl
  | ok p => simp [Except.map]

/-- Lexemes that put out all their tokens deliver them at every level. -/
theorem Delivers.of_all {level : Nat} {tokens : Postfix Float} {lexemes : List Lexeme}
    (h : ∀ stack rest, Ready level stack →
      reorder stack (lexemes ++ rest) = (reorder stack rest).map (tokens ++ ·)) :
    Delivers level tokens lexemes :=
  ⟨tokens, [], by simp [ofOps], by simp, by simpa using h⟩

/-- An operator puts out what its left operand left on the stack, and goes there itself. -/
theorem Delivers.op {level : Nat} {o : Op} {p q : Postfix Float} {u v : List Lexeme}
    (loose : level ≤ o.precedence) (left : Delivers o.precedence p u)
    (right : Delivers (o.precedence + 1) q v) :
    Delivers level (p ++ q ++ [.op o]) (u ++ .op o :: v) := by
  obtain ⟨outL, opsL, rfl, tightL, readL⟩ := left
  obtain ⟨outR, opsR, rfl, tightR, readR⟩ := right
  refine ⟨outL ++ ofOps opsL ++ outR, opsR ++ [o], by simp [ofOps], ?_, ?_⟩
  · intro p hp
    rcases List.mem_append.1 hp with hp | hp
    · have := tightR p hp
      omega
    · rw [List.mem_singleton.1 hp]
      exact loose
  · intro stack rest ready
    have ready' : Ready o.precedence stack := by
      match stack, ready with
      | [], _ => trivial
      | .opening :: _, _ => trivial
      | .op p :: _, looser =>
          have looser : p.precedence < level := looser
          exact Nat.lt_of_lt_of_le looser loose
    have onTop : Ready (o.precedence + 1) (.op o :: stack) := Nat.lt_succ_self _
    rw [List.append_assoc, readL _ _ ready', List.cons_append, reorder,
      takeTight_of_ready tightL ready']
    dsimp only
    rw [readR _ _ onTop, map_append_map_append, map_append_map_append, List.map_append,
      List.append_assoc, List.append_assoc]
    rfl

/-! ## Parentheses -/

section Enclosed

variable {tokens : Postfix Float} {lexemes : List Lexeme} (h : Delivers 1 tokens lexemes)
  (stack : List Pending) (rest : List Lexeme)

include h

/-- A comma puts out what is left of the argument before it. -/
theorem Delivers.reorder_comma :
    reorder (.opening :: stack) (lexemes ++ .comma :: rest) =
      (reorder (.opening :: stack) rest).map (tokens ++ ·) := by
  obtain ⟨out, ops, rfl, -, read⟩ := h
  rw [read _ _ (ready_opening _ _), reorder, takeOps_opening]
  exact map_append_map_append _ _ _

/-- The closing parenthesis of a call puts out what is left of the last argument, and the
function. -/
theorem Delivers.reorder_closing_func (f : Func) :
    reorder (.opening :: .func f :: stack) (lexemes ++ .closing :: rest) =
      (reorder stack rest).map (tokens ++ [.func f] ++ ·) := by
  obtain ⟨out, ops, rfl, -, read⟩ := h
  rw [read _ _ (ready_opening _ _), reorder, takeOps_opening]
  dsimp only
  cases reorder stack rest with
  | error e => rfl
  | ok p => simp [Except.map]

/-- Any other closing parenthesis puts out what is left of what it encloses. -/
theorem Delivers.reorder_closing {level : Nat} (ready : Ready level stack) :
    reorder (.opening :: stack) (lexemes ++ .closing :: rest) =
      (reorder stack rest).map (tokens ++ ·) := by
  obtain ⟨out, ops, rfl, -, read⟩ := h
  rw [read _ _ (ready_opening _ _), reorder, takeOps_opening]
  match stack, ready with
  | [], _ => exact map_append_map_append _ _ _
  | .opening :: _, _ => exact map_append_map_append _ _ _
  | .op o :: _, _ => exact map_append_map_append _ _ _

end Enclosed

/-- At the end of the text the operators that are left on the stack are put out. -/
theorem drain_ops (ops : List Op) : drain (ops.map .op) = .ok (ofOps ops) := by
  induction ops with
  | nil => rfl
  | cons o rest ih =>
      rw [List.map_cons, drain, ih]
      rfl

/-- Lexemes that deliver tokens come to them. -/
theorem Delivers.ofLexemes_eq {tokens : Postfix Float} {lexemes : List Lexeme}
    (h : Delivers 1 tokens lexemes) : ofLexemes lexemes = .ok tokens := by
  obtain ⟨out, ops, rfl, -, read⟩ := h
  have all := read [] [] trivial
  rw [List.append_nil, List.append_nil, reorder, drain_ops] at all
  exact all

end Postfix

/-! ## Infix forms -/

namespace Infix

open Lexeme Postfix

/-- An infix form, its signs drawn into the numbers, delivers the tokens of its formula. -/
theorem delivers {level : Nat} {t : Formula Float} {lexemes : List Lexeme}
    (h : Infix level t lexemes) : Delivers level t.tokens (foldSigns true lexemes) := by
  induction h with
  | number => exact .of_all fun _ _ _ => rfl
  | negative => exact .of_all fun _ _ _ => rfl
  | param => exact .of_all fun _ _ _ => rfl
  | op loose left right hl hr =>
      rw [left.foldSigns_append, foldSigns_false_op]
      exact hl.op loose hr
  | curve argument ha =>
      refine .of_all fun stack rest _ => ?_
      rw [foldSigns_func, foldSigns_opening, argument.foldSigns_append]
      simpa [reorder, Formula.tokens] using ha.reorder_closing_func stack rest _
  | random lower upper hl hu =>
      refine .of_all fun stack rest _ => ?_
      rw [foldSigns_func, foldSigns_opening, lower.foldSigns_append, foldSigns_comma,
        upper.foldSigns_append]
      simp only [List.cons_append, List.append_assoc, foldSigns_closing, foldSigns_nil,
        List.nil_append, reorder]
      rw [hl.reorder_comma, hu.reorder_closing_func, map_append_map_append]
      rfl
  | map source lower upper hs hl hu =>
      refine .of_all fun stack rest _ => ?_
      rw [foldSigns_func, foldSigns_opening, source.foldSigns_append, foldSigns_comma,
        lower.foldSigns_append, foldSigns_comma, upper.foldSigns_append]
      simp only [List.cons_append, List.append_assoc, foldSigns_closing, foldSigns_nil,
        List.nil_append, reorder]
      rw [hs.reorder_comma, hl.reorder_comma, hu.reorder_closing_func, map_append_map_append,
        map_append_map_append]
      simp [Formula.tokens]
  | parens inner hi =>
      refine .of_all fun stack rest ready => ?_
      rw [foldSigns_opening, inner.foldSigns_append]
      simpa [reorder] using hi.reorder_closing stack rest ready

/-- An infix form comes to the tokens of its formula. -/
theorem ofLexemes_eq {t : Formula Float} {lexemes : List Lexeme} (h : Infix 1 t lexemes) :
    ofLexemes (foldSigns true lexemes) = .ok t.tokens :=
  h.delivers.ofLexemes_eq

end Infix
end SynthPatch
