import SynthPatch.Expr.Evaluate
import SynthPatch.Proofs.Outcome
/-!
# What an expression sees

Evaluation looks a parameter up where its value is used, where its range is used, and where it is
all that is left at the end.  Each time the parameter has waited on the stack, and only a token that
names it can have put it there.  So evaluation goes the same way in any two scopes that show the
same under the names of the tokens.  Nothing is asked of the tokens: where they do not make one
expression, the fault is the same too.

Main results:

- Theorem {lit}`Postfix.step_congr`: a token looks up only what waits on the stack.
- Theorem {lit}`Postfix.step_cases`: only a token that names a parameter puts it there.
- Theorem {lit}`Postfix.evaluate_congr`: what an expression comes to depends on the parameters it
  refers to only.
- Theorem {lit}`Postfix.evaluate_of_unreferenced`: a parameter it does not refer to may have any
  value, or none.
- Theorem {lit}`Postfix.evaluate_of_calm`: an expression that draws nothing does not depend on what
  would be drawn.
-/

namespace SynthPatch

variable {α : Type}

/-! ## Scopes -/

namespace Scope

/-- Two scopes show the same of a parameter. -/
structure Agree (scope other : Scope α) (name : String) : Prop where
  value : scope.value name = other.value name
  range : scope.range name = other.range name

/-- Scopes of tables that agree on a parameter show the same of it. -/
theorem agree_ofTables {values others minima lows maxima highs : Named α} {name : String}
    (value : values[name]? = others[name]?) (low : minima[name]? = lows[name]?)
    (high : maxima[name]? = highs[name]?) :
    (ofTables values minima maxima).Agree (ofTables others lows highs) name := by
  refine ⟨value, ?_⟩
  simp only [ofTables, low, high]

end Scope

/-! ## Operands -/

namespace Operand

variable {scope other : Scope α} {stack : List (Operand α)}

theorem pop_eq_ok_iff {what : String} {top : Operand α} {rest : List (Operand α)} :
    pop what stack = .ok (top, rest) ↔ stack = top :: rest := by
  cases stack with
  | nil => simp [pop]
  | cons first under => simp [pop]

/-- An operand stands for the same in scopes that show the same of it. -/
theorem resolve_congr {o : Operand α} (agree : ∀ name, o = .param name → scope.Agree other name) :
    o.resolve scope = o.resolve other := by
  cases o with
  | value v => rfl
  | param name => rw [resolve, resolve, (agree name rfl).value]

/-- What is done with the value of the latest operand is done with the same value in both scopes. -/
theorem pop_congr {γ : Type} {f g : Operand α × List (Operand α) → α → Except (EvalError α) γ}
    (what : String) (agree : ∀ name, .param name ∈ stack → scope.Agree other name)
    (same : ∀ top rest v, rest ⊆ stack → f (top, rest) v = g (top, rest) v) :
    (pop what stack >>= fun popped => popped.1.resolve scope >>= f popped) =
      pop what stack >>= fun popped => popped.1.resolve other >>= g popped := by
  refine Outcome.bind_congr fun (top, rest) popped => ?_
  cases pop_eq_ok_iff.1 popped
  rw [resolve_congr fun name here => agree name (here ▸ List.mem_cons_self)]
  exact Outcome.bind_congr fun v _ => same top rest v (List.subset_cons_self top rest)

end Operand

/-! ## One token -/

namespace Postfix

variable [Scalar α] {scope other : Scope α} {stack : List (Operand α)}

/-- A token looks up only what waits on the stack. -/
theorem step_congr (agree : ∀ name, .param name ∈ stack → scope.Agree other name) (draw : α)
    (t : Token α) : step scope draw stack t = step other draw stack t := by
  cases t with
  | number x => rfl
  | param name => rfl
  | op o =>
      refine Operand.pop_congr o.symbol agree fun right under b deeper => ?_
      exact Operand.pop_congr o.symbol (fun name mem => agree name (deeper mem)) fun _ _ _ _ => rfl
  | func f =>
      cases f with
      | log => exact Operand.pop_congr Func.log.name agree fun _ _ _ _ => rfl
      | exp => exact Operand.pop_congr Func.exp.name agree fun _ _ _ _ => rfl
      | random => rfl
      | map =>
          refine Operand.pop_congr Func.map.name agree fun upper under hi deeper => ?_
          have agree := fun name mem => agree name (deeper mem)
          refine Operand.pop_congr Func.map.name agree fun lower rest lo deeper => ?_
          -- The source is not resolved at once: what is first asked of it is its range.
          refine Outcome.bind_congr fun (source, rest) popped => ?_
          cases Operand.pop_eq_ok_iff.1 popped
          cases source with
          | value v => rfl
          | param name =>
              have here := agree name (deeper List.mem_cons_self)
              simp only [here.range, Operand.resolve, here.value]

/-- A token puts the parameter it names on the stack, or it puts a value on what it leaves of the
stack. -/
theorem step_cases {draw : α} {t : Token α} {next : List (Operand α)}
    (h : step scope draw stack t = .ok next) :
    (∃ name, t = .param name ∧ next = .param name :: stack) ∨
      ∃ v rest, rest <:+ stack ∧ next = .value v :: rest := by
  cases t with
  | number x =>
      cases h
      exact .inr ⟨x, stack, List.suffix_rfl, rfl⟩
  | param name =>
      cases h
      exact .inl ⟨name, rfl, rfl⟩
  | op o =>
      simp only [step, Outcome.bind_eq_ok_iff, Prod.exists, Operand.pop_eq_ok_iff] at h
      obtain ⟨right, under, rfl, b, -, left, rest, rfl, a, -, ⟨⟩⟩ := h
      exact .inr ⟨_, rest, ⟨[right, left], rfl⟩, rfl⟩
  | func f =>
      cases f with
      | log | exp =>
          simp only [step, Outcome.bind_eq_ok_iff, Prod.exists, Operand.pop_eq_ok_iff] at h
          obtain ⟨arg, rest, rfl, x, -, ⟨⟩⟩ := h
          exact .inr ⟨_, rest, ⟨[arg], rfl⟩, rfl⟩
      | random =>
          simp only [step, Outcome.bind_eq_ok_iff, Prod.exists, Operand.pop_eq_ok_iff] at h
          obtain ⟨upper, under, rfl, hi, -, lower, rest, rfl, lo, -, x, -, ⟨⟩⟩ := h
          exact .inr ⟨x, rest, ⟨[upper, lower], rfl⟩, rfl⟩
      | map =>
          simp only [step, Outcome.bind_eq_ok_iff, Prod.exists, Operand.pop_eq_ok_iff] at h
          obtain ⟨upper, under, rfl, hi, -, lower, deeper, rfl, lo, -, source, rest, rfl, h⟩ := h
          split at h
          · cases h
          · split at h
            · cases h
            · obtain ⟨v, -, ⟨⟩⟩ := Outcome.bind_eq_ok_iff.1 h
              exact .inr ⟨_, rest, ⟨[upper, lower, _], rfl⟩, rfl⟩

/-- A parameter on the stack was there before the token, or is the one that the token names. -/
theorem param_mem_of_step {draw : α} {t : Token α} {next : List (Operand α)}
    (h : step scope draw stack t = .ok next) {name : String} (mem : .param name ∈ next) :
    .param name ∈ stack ∨ t = .param name := by
  obtain ⟨own, rfl, rfl⟩ | ⟨v, rest, left, rfl⟩ := step_cases h
  · rcases List.mem_cons.1 mem with same | mem
    · cases same
      exact .inr rfl
    · exact .inl mem
  · rcases List.mem_cons.1 mem with same | mem
    · cases same
    · exact .inl (left.subset mem)

/-! ## Rows of tokens -/

variable {draws : Draws α} {place : Nat} {p : Postfix α}

/-- A parameter that is left on the stack was there before, or is named by one of the tokens. -/
theorem param_mem_of_run {last : List (Operand α)} (h : run scope draws place stack p = .ok last)
    {name : String} (mem : .param name ∈ last) : .param name ∈ stack ∨ .param name ∈ p := by
  induction p generalizing place stack with
  | nil =>
      cases h
      exact .inl mem
  | cons t rest ih =>
      obtain ⟨next, stepped, h⟩ := Outcome.bind_eq_ok_iff.1 h
      rcases ih h with waiting | named
      · rcases param_mem_of_step stepped waiting with waiting | rfl
        · exact .inl waiting
        · exact .inr List.mem_cons_self
      · exact .inr (List.mem_cons_of_mem t named)

/-- A row of tokens goes the same way in scopes that show the same of what waits on the stack and of
what the tokens name. -/
theorem run_congr (waiting : ∀ name, .param name ∈ stack → scope.Agree other name)
    (named : ∀ name, .param name ∈ p → scope.Agree other name) :
    run scope draws place stack p = run other draws place stack p := by
  induction p generalizing place stack with
  | nil => rfl
  | cons t rest ih =>
      rw [run, run, step_congr waiting]
      refine Outcome.bind_congr fun next stepped => ih (fun name mem => ?_) fun name mem => ?_
      · rcases param_mem_of_step stepped mem with there | rfl
        · exact waiting name there
        · exact named name List.mem_cons_self
      · exact named name (List.mem_cons_of_mem t mem)

/-- What an expression comes to, be it a value or a fault, depends on the parameters it refers to
only. -/
theorem evaluate_congr (agree : ∀ name, .param name ∈ p → scope.Agree other name) :
    p.evaluate scope draws = p.evaluate other draws := by
  rw [evaluate, evaluate, run_congr (fun name mem => absurd mem List.not_mem_nil) agree]
  refine Outcome.bind_congr fun last ran => ?_
  match last with
  | [] => rfl
  | [only] =>
      refine Operand.resolve_congr fun name same => agree name ?_
      have mem : .param name ∈ [only] := by simp [same]
      exact (param_mem_of_run ran mem).resolve_left List.not_mem_nil
  | _ :: _ :: _ => rfl

/-- A parameter that an expression does not refer to may have any value, or none. -/
theorem evaluate_of_unreferenced {name : String} (unreferenced : p.references name = false)
    {values others : Named α} (apart : ∀ other, other ≠ name → values[other]? = others[other]?)
    (minima maxima : Named α) :
    p.evaluate (.ofTables values minima maxima) draws =
      p.evaluate (.ofTables others minima maxima) draws := by
  refine evaluate_congr fun other used => Scope.agree_ofTables (apart other ?_) rfl rfl
  rintro rfl
  rw [references_iff.2 used] at unreferenced
  cases unreferenced

/-! ## What is drawn -/

theorem step_of_calm {t : Token α} (calm : t.isRandom = false) (draw other : α)
    (stack : List (Operand α)) : step scope draw stack t = step scope other stack t := by
  cases t with
  | func f =>
      cases f with
      | random => cases calm
      | _ => rfl
  | _ => rfl

variable {others : Draws α}

theorem run_of_calm (calm : ∀ t ∈ p, t.isRandom = false) (place : Nat) (stack : List (Operand α)) :
    run scope draws place stack p = run scope others place stack p := by
  induction p generalizing place stack with
  | nil => rfl
  | cons t rest ih =>
      obtain ⟨first, later⟩ := List.forall_mem_cons.1 calm
      rw [run, run, step_of_calm first (draws place) (others place)]
      exact Outcome.bind_congr fun next _ => ih later (place + 1) next

/-- An expression that draws nothing does not depend on what would be drawn, be it made of any
tokens. -/
theorem evaluate_of_calm (calm : p.isRandom = false) :
    p.evaluate scope draws = p.evaluate scope others := by
  have each : ∀ t ∈ p, t.isRandom = false := by simpa [isRandom] using calm
  rw [evaluate, evaluate, run_of_calm each]

end Postfix
end SynthPatch
