import SynthPatch.Expr.Compile
import SynthPatch.Proofs.Expr.Sentence
import Mathlib.Algebra.Ring.Int.Defs
/-!
# What the compiler accepts

The compiler looks at two things.  While it brings the lexemes into postfix order it sees whether
the parentheses match, and when it checks the shape of the tokens it sees whether the operators and
functions leave exactly one value.  It does not look at the order in which operands and operators
stand, so it accepts texts that are no expressions.  Whenever the lexemes of an accepted text stand
in their places, though, they do make an expression: functions that lacked arguments would leave too
few values.

Main results:

- Theorem {lit}`Postfix.gain_of_reorder`: lexemes that have a postfix order have matching
  parentheses, and as many values in it.
- Theorem {lit}`Sentence.takesAll_of_gains`: where functions lack arguments there are too few
  values.
- Theorem {lit}`Postfix.isSentence_iff_of_compile`: which of the accepted texts are expressions.
-/

namespace SynthPatch

/-! ## Counts of values -/

/-- By how many values a function changes a stack. -/
def Func.gain (f : Func) : Int :=
  1 - f.arity

/-- By how many values a token changes a stack. -/
def Token.gain {α : Type} : Token α → Int
  | .number _ | .param _ => 1
  | .op _ => -1
  | .func f => f.gain

/-- By how many values a row of tokens changes a stack. -/
def Postfix.gain {α : Type} (p : Postfix α) : Int :=
  (List.map Token.gain p).sum

namespace Lexeme

/-- By how many values the token of a lexeme changes a stack. -/
def gain : Lexeme → Int
  | .number _ | .param _ => 1
  | .op _ => -1
  | .func f => f.gain
  | .opening | .closing | .comma => 0

/-- By how many values the tokens of a row of lexemes change a stack. -/
def gains (lexemes : List Lexeme) : Int :=
  (lexemes.map gain).sum

@[simp]
theorem gains_nil : gains [] = 0 :=
  rfl

@[simp]
theorem gains_cons (l : Lexeme) (rest : List Lexeme) : gains (l :: rest) = l.gain + gains rest :=
  rfl

@[simp]
theorem gains_append (u v : List Lexeme) : gains (u ++ v) = gains u + gains v := by
  rw [gains, List.map_append, List.sum_append]
  rfl

end Lexeme

namespace Pending

/-- By how many values the token of something pending changes a stack. -/
def gain : Pending → Int
  | .op _ => -1
  | .func f => f.gain
  | .opening => 0

/-- By how many values the tokens of all that is pending change a stack. -/
def gains (stack : List Pending) : Int :=
  (stack.map gain).sum

/-- How many parentheses are open. -/
def depth (stack : List Pending) : Nat :=
  stack.count .opening

@[simp]
theorem gains_cons (top : Pending) (below : List Pending) :
    gains (top :: below) = top.gain + gains below :=
  rfl

@[simp]
theorem depth_opening (below : List Pending) : depth (.opening :: below) = depth below + 1 := by
  simp [depth]

@[simp]
theorem depth_op (o : Op) (below : List Pending) : depth (.op o :: below) = depth below := by
  simp [depth]

@[simp]
theorem depth_func (f : Func) (below : List Pending) : depth (.func f :: below) = depth below := by
  simp [depth]

theorem gains_ops (ops : List Op) (below : List Pending) :
    gains (ops.map .op ++ below) = (Postfix.ofOps ops).gain + gains below := by
  rw [gains, List.map_append, List.sum_append, Postfix.gain, Postfix.ofOps, List.map_map,
    List.map_map]
  rfl

theorem depth_ops (ops : List Op) (below : List Pending) :
    depth (ops.map .op ++ below) = depth below := by
  have none : (ops.map Pending.op).count .opening = 0 :=
    List.count_eq_zero.2 (by simp)
  rw [depth, List.count_append, none, Nat.zero_add]
  rfl

end Pending

namespace Postfix

open Lexeme Pending

theorem gain_append {α : Type} (p q : Postfix α) : gain (p ++ q) = p.gain + q.gain := by
  rw [gain, List.map_append, List.sum_append]
  rfl

theorem gain_cons {α : Type} (t : Token α) (p : Postfix α) : gain (t :: p) = t.gain + p.gain :=
  rfl

/-! ## Reordering -/

section Taken

variable {stack below : List Pending} {ops : List Op} {o : Op}

theorem gains_of_takeTight (h : takeTight o stack = (ops, below)) :
    gains stack = (ofOps ops).gain + gains below ∧ depth stack = depth below := by
  have whole := takeTight_append o stack
  rw [h] at whole
  rw [← whole]
  exact ⟨gains_ops ops below, depth_ops ops below⟩

theorem gains_of_takeOps (h : takeOps stack = (ops, below)) :
    gains stack = (ofOps ops).gain + gains below ∧ depth stack = depth below := by
  have whole := takeOps_append stack
  rw [h] at whole
  rw [← whole]
  exact ⟨gains_ops ops below, depth_ops ops below⟩

end Taken

/-- At the end only operators are pending. -/
theorem gain_of_drain {stack : List Pending} {p : Postfix Float} (h : drain stack = .ok p) :
    p.gain = gains stack ∧ depth stack = 0 := by
  induction stack generalizing p with
  | nil =>
      cases h
      exact ⟨rfl, rfl⟩
  | cons top rest ih =>
      cases top with
      | op o =>
          obtain ⟨q, drained, rfl⟩ := Outcome.map_eq_ok_iff.1 h
          obtain ⟨gained, closed⟩ := ih drained
          refine ⟨?_, closed⟩
          rw [gain_cons, gained]
          rfl
      | func f => cases h
      | opening => cases h

/-- Lexemes that have a postfix order have matching parentheses, and bringing them into it changes
no count of values: what the tokens gain, the lexemes and what was pending before them gain. -/
theorem gain_of_reorder {stack : List Pending} {lexemes : List Lexeme} {p : Postfix Float}
    (h : reorder stack lexemes = .ok p) :
    p.gain = Lexeme.gains lexemes + Pending.gains stack ∧ Balanced (depth stack) lexemes := by
  induction lexemes generalizing stack p with
  | nil =>
      obtain ⟨gained, closed⟩ := gain_of_drain h
      exact ⟨by simp [gained], closed⟩
  | cons l rest ih =>
      cases l with
      | number x =>
          obtain ⟨q, ordered, rfl⟩ := Outcome.map_eq_ok_iff.1 h
          obtain ⟨gained, balanced⟩ := ih ordered
          refine ⟨?_, balanced⟩
          simp only [gain_cons, gained, Lexeme.gains_cons, Token.gain, Lexeme.gain]
          omega
      | param name =>
          obtain ⟨q, ordered, rfl⟩ := Outcome.map_eq_ok_iff.1 h
          obtain ⟨gained, balanced⟩ := ih ordered
          refine ⟨?_, balanced⟩
          simp only [gain_cons, gained, Lexeme.gains_cons, Token.gain, Lexeme.gain]
          omega
      | func f =>
          obtain ⟨gained, balanced⟩ := ih h
          rw [depth_func] at balanced
          refine ⟨?_, balanced⟩
          simp only [gained, Lexeme.gains_cons, Lexeme.gain, Pending.gains_cons, Pending.gain]
          omega
      | opening =>
          obtain ⟨gained, balanced⟩ := ih h
          rw [depth_opening] at balanced
          refine ⟨?_, balanced⟩
          simp only [gained, Lexeme.gains_cons, Lexeme.gain, Pending.gains_cons, Pending.gain]
          omega
      | op o =>
          obtain ⟨q, ordered, rfl⟩ := Outcome.map_eq_ok_iff.1 h
          obtain ⟨gained, balanced⟩ := ih ordered
          obtain ⟨total, same⟩ := @gains_of_takeTight stack _ _ o rfl
          rw [depth_op, ← same] at balanced
          refine ⟨?_, balanced⟩
          simp only [gain_append, gained, total, Lexeme.gains_cons, Lexeme.gain, Pending.gains_cons,
            Pending.gain]
          omega
      | comma =>
          rw [reorder] at h
          split at h
          · next ops below taken =>
              obtain ⟨q, ordered, rfl⟩ := Outcome.map_eq_ok_iff.1 h
              obtain ⟨gained, balanced⟩ := ih ordered
              obtain ⟨total, same⟩ := gains_of_takeOps taken
              rw [← same] at balanced
              refine ⟨?_, balanced⟩
              simp only [gain_append, gained, total, Lexeme.gains_cons, Lexeme.gain,
                Pending.gains_cons, Pending.gain]
              omega
          · cases h
      | closing =>
          rw [reorder] at h
          split at h
          · next ops f below taken =>
              obtain ⟨q, ordered, rfl⟩ := Outcome.map_eq_ok_iff.1 h
              obtain ⟨gained, balanced⟩ := ih ordered
              obtain ⟨total, same⟩ := gains_of_takeOps taken
              rw [depth_opening, depth_func] at same
              refine ⟨?_, by omega, by rwa [same]⟩
              simp only [gain_append, gain_cons, gained, total, Lexeme.gains_cons, Lexeme.gain,
                Pending.gains_cons, Pending.gain, Token.gain]
              omega
          · next ops below _ taken =>
              obtain ⟨q, ordered, rfl⟩ := Outcome.map_eq_ok_iff.1 h
              obtain ⟨gained, balanced⟩ := ih ordered
              obtain ⟨total, same⟩ := gains_of_takeOps taken
              rw [depth_opening] at same
              refine ⟨?_, by omega, by rwa [same]⟩
              simp only [gain_append, gained, total, Lexeme.gains_cons, Lexeme.gain,
                Pending.gains_cons, Pending.gain]
              omega
          · cases h

end Postfix

/-! ## Too few values -/

/-- The tokens of a formula leave one value. -/
theorem Formula.gain_tokens {α : Type} (t : Formula α) : Postfix.gain t.tokens = 1 := by
  induction t with
  | number x => rfl
  | param name => rfl
  | op o l r left right =>
      rw [tokens, Postfix.gain_append, Postfix.gain_append, left, right]
      rfl
  | curve f a argument =>
      rw [tokens, Postfix.gain_append, argument]
      cases f <;> rfl
  | random lo hi => rfl
  | map name lo hi low high =>
      rw [tokens, Postfix.gain_cons, Postfix.gain_append, Postfix.gain_append, low, high]
      rfl

namespace Sentence

open Lexeme

section Signs

variable {takes : Func → Nat → Prop}

theorem foldSigns_arguments {args : List (List Lexeme)}
    (each : ∀ a ∈ args, ∀ rest,
      foldSigns true (a ++ rest) = foldSigns true a ++ foldSigns false rest) (rest : List Lexeme) :
    foldSigns true (args.flatMap (· ++ [.comma]) ++ rest) =
      args.flatMap (foldSigns true · ++ [.comma]) ++ foldSigns true rest := by
  induction args with
  | nil => rfl
  | cons a args ih =>
      have first := each a List.mem_cons_self
      have others := ih fun b mem => each b (List.mem_cons_of_mem a mem)
      simp [first, others]

/-- Signs are drawn into numbers in an expression without regard to what follows it. -/
theorem foldSigns_append {level : Nat} {u : List Lexeme} (h : Sentence takes level u)
    (rest : List Lexeme) :
    foldSigns true (u ++ rest) = foldSigns true u ++ foldSigns false rest := by
  induction h generalizing rest with
  | number => rfl
  | negative => rfl
  | param => rfl
  | op loose left right hl hr => simp [hl, hr]
  | call fits others last each hu => simp [foldSigns_arguments each, hu]
  | parens inner hi => simp [hi]

/-- What a call gains: its arguments and the function, which takes their place. -/
theorem gains_call {f : Func} {args : List (List Lexeme)} {u : List Lexeme}
    (others : ∀ a ∈ args, Sentence takes 1 a) (last : Sentence takes 1 u) :
    gains (foldSigns true
        (.func f :: .opening :: (args.flatMap (· ++ [.comma]) ++ (u ++ [.closing])))) =
      f.gain + gains (args.flatMap (foldSigns true · ++ [.comma])) + gains (foldSigns true u) := by
  have each := fun a mem => (others a mem).foldSigns_append
  simp only [foldSigns_func, foldSigns_opening, foldSigns_arguments each, last.foldSigns_append,
    foldSigns_closing, foldSigns_nil, gains_cons, gains_append, gains_nil, Lexeme.gain]
  omega

end Signs

/-- Arguments leave at most one value each. -/
theorem takesAll_of_gains_arguments {args : List (List Lexeme)}
    (each : ∀ a ∈ args, gains (foldSigns true a) ≤ 1 ∧
      (gains (foldSigns true a) = 1 → Sentence Func.TakesAll 1 a)) :
    gains (args.flatMap (foldSigns true · ++ [.comma])) ≤ args.length ∧
      (gains (args.flatMap (foldSigns true · ++ [.comma])) = args.length →
        ∀ a ∈ args, Sentence Func.TakesAll 1 a) := by
  induction args with
  | nil => exact ⟨Int.le_refl 0, fun _ a mem => nomatch mem⟩
  | cons a args ih =>
      obtain ⟨first, whole⟩ := each a List.mem_cons_self
      obtain ⟨others, wholes⟩ := ih fun b mem => each b (List.mem_cons_of_mem a mem)
      have total : gains ((a :: args).flatMap (foldSigns true · ++ [.comma])) =
          gains (foldSigns true a) + gains (args.flatMap (foldSigns true · ++ [.comma])) := by
        simp [Lexeme.gain]
      rw [total, List.length_cons]
      refine ⟨by omega, fun full b mem => ?_⟩
      rcases List.mem_cons.1 mem with rfl | mem
      · exact whole (by omega)
      · exact wholes (by omega) b mem

/-- An expression leaves at most one value, and one value only if no function in it lacks
arguments. -/
theorem takesAll_of_gains {level : Nat} {u : List Lexeme} (h : Sentence Func.TakesSome level u) :
    gains (foldSigns true u) ≤ 1 ∧
      (gains (foldSigns true u) = 1 → Sentence Func.TakesAll level u) := by
  induction h with
  | number => exact ⟨Int.le_refl 1, fun _ => .number⟩
  | negative => exact ⟨Int.le_refl 1, fun _ => .negative⟩
  | param => exact ⟨Int.le_refl 1, fun _ => .param⟩
  | @op level o u v loose left right hl hr =>
      obtain ⟨few, whole⟩ := hl
      obtain ⟨few', whole'⟩ := hr
      have total : gains (foldSigns true (u ++ .op o :: v)) =
          gains (foldSigns true u) + gains (foldSigns true v) - 1 := by
        simp only [left.foldSigns_append, foldSigns_false_op, gains_append, gains_cons, Lexeme.gain]
        omega
      rw [total]
      refine ⟨by omega, fun full => ?_⟩
      exact .op loose (whole (by omega)) (whole' (by omega))
  | @call level f args u fits others last each hu =>
      obtain ⟨few, wholes⟩ := takesAll_of_gains_arguments each
      obtain ⟨few', whole⟩ := hu
      have fits : args.length + 1 ≤ f.arity := fits
      rw [gains_call others last, Func.gain]
      refine ⟨by omega, fun full => ?_⟩
      have count : f.TakesAll (args.length + 1) := by
        unfold Func.TakesAll
        omega
      exact .call count (wholes (by omega)) (whole (by omega))
  | @parens level u inner hi =>
      obtain ⟨few, whole⟩ := hi
      have total : gains (foldSigns true (.opening :: (u ++ [.closing]))) =
          gains (foldSigns true u) := by
        simp [inner.foldSigns_append, Lexeme.gain]
      rw [total]
      exact ⟨few, fun full => .parens (whole full)⟩

end Sentence

/-! ## Accepted texts -/

/-- Drawing signs into numbers leaves the parentheses. -/
theorem Lexeme.balanced_of_foldSigns {due : Bool} {lexemes : List Lexeme} {depth : Nat}
    (h : Balanced depth (foldSigns due lexemes)) : Balanced depth lexemes := by
  fun_induction foldSigns due lexemes generalizing depth with
  | case1 => exact h
  | case2 x rest ih => exact ih h
  | case3 due x rest _ ih => exact ih h
  | case4 due l rest _ ih =>
      cases l with
      | opening => exact ih h
      | closing => exact ⟨h.1, ih h.2⟩
      | _ => exact ih h

/-- The parentheses of an accepted text match, and its lexemes are an expression exactly if each of
them stands in its place. -/
theorem Postfix.isSentence_iff_of_compile {text : List Char} {p : Postfix Float}
    (h : compile text = .ok p) :
    ∃ lexemes, Lexeme.ofText text = .ok lexemes ∧ Lexeme.Balanced 0 lexemes ∧
      (Lexeme.IsSentence lexemes ↔ Lexeme.wellPlaced lexemes = true) := by
  obtain ⟨lexemes, read, h⟩ := Outcome.bind_eq_ok_iff.1 h
  dsimp only at h
  split at h
  · cases h
  · obtain ⟨q, ordered, h⟩ := Outcome.bind_eq_ok_iff.1 h
    split at h
    · next shape =>
        cases h
        obtain ⟨gained, balanced⟩ := gain_of_reorder ordered
        have balanced := Lexeme.balanced_of_foldSigns balanced
        refine ⟨lexemes, read, balanced, Sentence.wellPlaced, fun placed => ?_⟩
        -- The tokens are those of a formula, so they leave one value.
        obtain ⟨t, rfl⟩ := Formula.exists_of_checkShape shape
        rw [Formula.gain_tokens] at gained
        have full : Lexeme.gains (Lexeme.foldSigns true lexemes) = 1 := by
          rw [gained]
          exact (Int.add_zero _).symm
        exact (Sentence.of_wellPlaced placed balanced).takesAll_of_gains.2 full
    · cases h

/-- A mapping with a product among its bounds is accepted, and is an expression. -/
theorem Postfix.isSentence_iff_of_compile_mapping :
    (∃ p, Postfix.compile "map(param.x, -1, 2 * (3 - 1))".toList = .ok p) ∧
      ∃ lexemes, Lexeme.ofText "map(param.x, -1, 2 * (3 - 1))".toList = .ok lexemes ∧
        Lexeme.IsSentence lexemes := by
  have accepted :
      (Postfix.compile "map(param.x, -1, 2 * (3 - 1))".toList).toOption.isSome = true := by
    decide +kernel
  obtain ⟨p, compiled⟩ := Option.isSome_iff_exists.1 accepted
  have compiled := Outcome.toOption_eq_some_iff.1 compiled
  obtain ⟨lexemes, read, -, isSentence⟩ := isSentence_iff_of_compile compiled
  have placed : (Lexeme.ofText "map(param.x, -1, 2 * (3 - 1))".toList).toOption.any
      Lexeme.wellPlaced = true := by
    decide +kernel
  rw [read] at placed
  exact ⟨⟨p, compiled⟩, lexemes, read, isSentence.2 placed⟩

/-- Two operands side by side with their operator behind them are accepted, and are no
expression. -/
theorem Postfix.compile_misplaced :
    Postfix.compile "1 (2) +".toList = .ok [.number 1, .number 2, .op .add] ∧
      ∃ lexemes, Lexeme.ofText "1 (2) +".toList = .ok lexemes ∧ ¬ Lexeme.IsSentence lexemes := by
  have compiled : Postfix.compile "1 (2) +".toList = .ok [.number 1, .number 2, .op .add] := by
    decide +kernel
  have read : Lexeme.ofText "1 (2) +".toList =
      .ok [.number 1, .opening, .number 2, .closing, .op .add] := by
    decide +kernel
  refine ⟨compiled, _, read, fun isSentence => ?_⟩
  cases Sentence.wellPlaced isSentence

end SynthPatch
