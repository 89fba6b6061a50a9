import SynthPatch.Expr.Lexeme
import SynthPatch.Proofs.Expr.Infix
/-!
# Sentences of the infix grammar

The grammar of infix expressions says which rows of lexemes are expressions, terms and factors.
Whether every lexeme stands in its place can be seen in one walk over the row, which remembers of
every open parenthesis how many commas may still stand in it.  The walk does not see whether the
parentheses match, and whether a function has too few arguments.

Main results:

- Inductive {lit}`Sentence`: the infix grammar.
- Definition {lit}`Lexeme.wellPlaced`: every lexeme stands in its place.
- Theorem {lit}`Sentence.wellPlaced`: the lexemes of a sentence stand in their places.
- Theorem {lit}`Sentence.of_wellPlaced`: well placed lexemes whose parentheses match make a
  sentence, save that functions may lack arguments.
-/

namespace SynthPatch

/-- The rows of lexemes that may stand where operators bind at least as tightly as the given level:
expressions at level one, terms at level two and factors at level three.  A function is called with
any number of arguments that it takes. -/
inductive Sentence (takes : Func → Nat → Prop) : Nat → List Lexeme → Prop
  | number {level : Nat} {x : Float} : Sentence takes level [.number x]
  | negative {level : Nat} {x : Float} : Sentence takes level [.op .sub, .number x]
  | param {level : Nat} {name : String} : Sentence takes level [.param name]
  | op {level : Nat} {o : Op} {u v : List Lexeme} (loose : level ≤ o.precedence)
      (left : Sentence takes o.precedence u) (right : Sentence takes (o.precedence + 1) v) :
      Sentence takes level (u ++ .op o :: v)
  | call {level : Nat} {f : Func} {args : List (List Lexeme)} {u : List Lexeme}
      (fits : takes f (args.length + 1)) (others : ∀ a ∈ args, Sentence takes 1 a)
      (last : Sentence takes 1 u) :
      Sentence takes level
        (.func f :: .opening :: (args.flatMap (· ++ [.comma]) ++ (u ++ [.closing])))
  | parens {level : Nat} {u : List Lexeme} (inner : Sentence takes 1 u) :
      Sentence takes level (.opening :: (u ++ [.closing]))

/-- A function is called with as many arguments as it has. -/
def Func.TakesAll (f : Func) (count : Nat) : Prop :=
  count = f.arity

/-- A function is not called with more arguments than it has. -/
def Func.TakesSome (f : Func) (count : Nat) : Prop :=
  count ≤ f.arity

namespace Lexeme

/-- The lexemes make an expression. -/
def IsSentence (lexemes : List Lexeme) : Prop :=
  Sentence Func.TakesAll 1 lexemes

/-! ## Places -/

/-- What has to come next. -/
inductive Due where
  | operand
  /-- A number, after its sign. -/
  | magnitude
  /-- The opening parenthesis of a call. -/
  | arguments (f : Func)
  /-- An operator, or whatever else ends an operand. -/
  | operator
deriving DecidableEq

/-- A place in a row of lexemes. -/
structure Place where
  due : Due := .operand
  /-- How many commas may still stand in the parentheses that are open, the innermost first. -/
  rooms : List Nat := []

namespace Place

/-- The place behind a lexeme, if the lexeme may stand here. -/
def step : Place → Lexeme → Option Place
  | ⟨.operand, rooms⟩, .number _ => some ⟨.operator, rooms⟩
  | ⟨.operand, rooms⟩, .param _ => some ⟨.operator, rooms⟩
  | ⟨.operand, rooms⟩, .op .sub => some ⟨.magnitude, rooms⟩
  | ⟨.operand, rooms⟩, .func f => some ⟨.arguments f, rooms⟩
  | ⟨.operand, rooms⟩, .opening => some ⟨.operand, 0 :: rooms⟩
  | ⟨.magnitude, rooms⟩, .number _ => some ⟨.operator, rooms⟩
  | ⟨.arguments f, rooms⟩, .opening => some ⟨.operand, (f.arity - 1) :: rooms⟩
  | ⟨.operator, rooms⟩, .op _ => some ⟨.operand, rooms⟩
  | ⟨.operator, (room + 1) :: rooms⟩, .comma => some ⟨.operand, room :: rooms⟩
  | ⟨.operator, rooms⟩, .closing => some ⟨.operator, rooms.tail⟩
  | _, _ => none

/-- Every lexeme from the place on may stand where it does, and an operand may end behind them. -/
def leads (p : Place) : List Lexeme → Bool
  | [] => p.due = .operator
  | l :: rest => (p.step l).any fun next => next.leads rest

end Place

/-- Every lexeme stands in its place. -/
def wellPlaced (lexemes : List Lexeme) : Bool :=
  Place.leads {} lexemes

/-- With so many parentheses open, the parentheses match. -/
def Balanced (depth : Nat) : List Lexeme → Prop
  | [] => depth = 0
  | .opening :: rest => Balanced (depth + 1) rest
  | .closing :: rest => 0 < depth ∧ Balanced (depth - 1) rest
  | _ :: rest => Balanced depth rest

end Lexeme

namespace Sentence

open Lexeme

variable {takes : Func → Nat → Prop}

/-- What may stand among tight operators may stand among loose ones. -/
theorem weaken {tight level : Nat} {u : List Lexeme} (h : Sentence takes tight u)
    (le : level ≤ tight) : Sentence takes level u := by
  cases h with
  | number => exact .number
  | negative => exact .negative
  | param => exact .param
  | op loose left right => exact .op (le.trans loose) left right
  | call fits others last => exact .call fits others last
  | parens inner => exact .parens inner

/-! ## Sentences are well placed -/

section Walk

/-- Arguments with a comma behind each use up the room for commas. -/
theorem leads_arguments {args : List (List Lexeme)}
    (each : ∀ a ∈ args, ∀ rooms rest,
      Place.leads ⟨.operand, rooms⟩ (a ++ rest) = Place.leads ⟨.operator, rooms⟩ rest)
    (room : Nat) (rooms : List Nat) (rest : List Lexeme) :
    Place.leads ⟨.operand, (room + args.length) :: rooms⟩
        (args.flatMap (· ++ [.comma]) ++ rest) =
      Place.leads ⟨.operand, room :: rooms⟩ rest := by
  induction args with
  | nil => rfl
  | cons a args ih =>
      have first := each a List.mem_cons_self
      have others := ih fun b mem => each b (List.mem_cons_of_mem a mem)
      rw [List.flatMap_cons, List.append_assoc, List.append_assoc, first]
      exact others

/-- Behind an expression is where an operator may stand, whatever it stands in. -/
theorem leads_append (most : ∀ f count, takes f count → count ≤ f.arity) {level : Nat}
    {u : List Lexeme} (h : Sentence takes level u) (rooms : List Nat) (rest : List Lexeme) :
    Place.leads ⟨.operand, rooms⟩ (u ++ rest) = Place.leads ⟨.operator, rooms⟩ rest := by
  induction h generalizing rooms rest with
  | number => rfl
  | negative => rfl
  | param => rfl
  | op loose left right hl hr =>
      rw [List.append_assoc, hl, List.cons_append]
      exact hr rooms rest
  | @call level f args u fits others last each hu =>
      have enough : f.arity - 1 = f.arity - 1 - args.length + args.length := by
        have := most f _ fits
        omega
      have opened : Place.leads ⟨.operand, (f.arity - 1) :: rooms⟩
          (args.flatMap (· ++ [.comma]) ++ (u ++ ([.closing] ++ rest))) =
            Place.leads ⟨.operator, rooms⟩ rest := by
        rw [enough, leads_arguments each, hu]
        rfl
      rw [List.cons_append, List.cons_append, List.append_assoc, List.append_assoc]
      exact opened
  | parens inner hi =>
      rw [List.cons_append, List.append_assoc]
      exact (hi (0 :: rooms) ([.closing] ++ rest)).trans rfl

/-- The lexemes of an expression stand in their places. -/
theorem wellPlaced {lexemes : List Lexeme} (h : IsSentence lexemes) :
    Lexeme.wellPlaced lexemes = true := by
  have read := leads_append (fun _ _ => Nat.le_of_eq) h [] []
  rw [List.append_nil] at read
  exact read

end Walk

/-! ## Operators between factors -/

/-- What makes an expression of any factor behind it. -/
def Leads (takes : Func → Nat → Prop) (v : List Lexeme) : Prop :=
  ∀ w, Sentence takes 3 w → Sentence takes 1 (v ++ w)

theorem leads_nil : Leads takes [] :=
  fun _ factor => factor.weaken (by omega)

/-- An expression is a term, or ends in a term behind a loose operator. -/
theorem term_or_loose {u : List Lexeme} (h : Sentence takes 1 u) :
    Sentence takes 2 u ∨ ∃ a o b, u = a ++ .op o :: b ∧ o.precedence = 1 ∧
      Sentence takes 1 a ∧ Sentence takes 2 b := by
  cases h with
  | number => exact .inl .number
  | negative => exact .inl .negative
  | param => exact .inl .param
  | @op _ o a b loose left right =>
      cases o with
      | add => exact .inr ⟨a, .add, b, rfl, rfl, left, right⟩
      | sub => exact .inr ⟨a, .sub, b, rfl, rfl, left, right⟩
      | mul => exact .inl (.op (Nat.le_refl 2) left right)
      | div => exact .inl (.op (Nat.le_refl 2) left right)
  | call fits others last => exact .inl (.call fits others last)
  | parens inner => exact .inl (.parens inner)

/-- An operator may stand behind any expression; a tight one belongs to its last term. -/
theorem leads_op {u : List Lexeme} (h : Sentence takes 1 u) (o : Op) :
    Leads takes (u ++ [.op o]) := by
  intro w factor
  have loose (o : Op) (level : o.precedence = 1) : Sentence takes 1 (u ++ .op o :: w) :=
    .op (Nat.le_of_eq level.symm) (level ▸ h) (factor.weaken (by omega))
  have tight (o : Op) (level : o.precedence = 2) : Sentence takes 1 (u ++ .op o :: w) := by
    rcases term_or_loose h with term | ⟨a, p, b, rfl, first, left, right⟩
    · exact .op (by omega) (level ▸ term) (factor.weaken (by omega))
    · have last : Sentence takes 2 (b ++ .op o :: w) :=
        .op (by omega) (level ▸ right) (factor.weaken (by omega))
      have whole : Sentence takes 1 (a ++ .op p :: (b ++ .op o :: w)) :=
        .op (by omega) (left.weaken (by omega)) (last.weaken (by omega))
      simpa using whole
  rw [List.append_assoc]
  cases o with
  | add => exact loose .add rfl
  | sub => exact loose .sub rfl
  | mul => exact tight .mul rfl
  | div => exact tight .div rfl

/-! ## What has been read -/

/-- What has been read up to where the innermost argument or parenthesised expression begins. -/
inductive Opened : List Nat → List Lexeme → Prop
  | start : Opened [] []
  | group {rooms : List Nat} {u v : List Lexeme} (outer : Opened rooms u)
      (leads : Leads Func.TakesSome v) : Opened (0 :: rooms) (u ++ v ++ [.opening])
  | call {rooms : List Nat} {room : Nat} {f : Func} {args : List (List Lexeme)} {u v : List Lexeme}
      (outer : Opened rooms u) (leads : Leads Func.TakesSome v)
      (done : ∀ a ∈ args, Sentence Func.TakesSome 1 a) (fits : args.length + 1 + room = f.arity) :
      Opened (room :: rooms) (u ++ v ++ .func f :: .opening :: args.flatMap (· ++ [.comma]))

/-- What has been read up to a place. -/
inductive Reached : Place → List Lexeme → Prop
  | operand {rooms : List Nat} {u v : List Lexeme} (opened : Opened rooms u)
      (leads : Leads Func.TakesSome v) : Reached ⟨.operand, rooms⟩ (u ++ v)
  | magnitude {rooms : List Nat} {u v : List Lexeme} (opened : Opened rooms u)
      (leads : Leads Func.TakesSome v) : Reached ⟨.magnitude, rooms⟩ (u ++ v ++ [.op .sub])
  | arguments {rooms : List Nat} {f : Func} {u v : List Lexeme} (opened : Opened rooms u)
      (leads : Leads Func.TakesSome v) : Reached ⟨.arguments f, rooms⟩ (u ++ v ++ [.func f])
  | operator {rooms : List Nat} {u v : List Lexeme} (opened : Opened rooms u)
      (read : Sentence Func.TakesSome 1 v) : Reached ⟨.operator, rooms⟩ (u ++ v)

/-- A factor that is read where an operand is due completes an expression. -/
theorem Reached.factor {rooms : List Nat} {u v w : List Lexeme} (opened : Opened rooms u)
    (leads : Leads Func.TakesSome v) (factor : Sentence Func.TakesSome 3 w) :
    Reached ⟨.operator, rooms⟩ (u ++ v ++ w) := by
  rw [List.append_assoc]
  exact .operator opened (leads w factor)

/-- A closing parenthesis turns what it encloses into a factor. -/
theorem Reached.closing {room : Nat} {rooms : List Nat} {u c : List Lexeme}
    (opened : Opened (room :: rooms) u) (read : Sentence Func.TakesSome 1 c) :
    Reached ⟨.operator, rooms⟩ (u ++ c ++ [.closing]) := by
  cases opened with
  | group outer leads =>
      have whole := Reached.factor outer leads (.parens read)
      simpa using whole
  | @call _ _ f args u v outer leads done fits =>
      have few : f.TakesSome (args.length + 1) := by
        unfold Func.TakesSome
        omega
      have whole := Reached.factor outer leads (.call few done read)
      simpa using whole

/-- A comma turns what stands before it into an argument. -/
theorem Reached.comma {room : Nat} {rooms : List Nat} {u c : List Lexeme}
    (opened : Opened ((room + 1) :: rooms) u) (read : Sentence Func.TakesSome 1 c) :
    Reached ⟨.operand, room :: rooms⟩ (u ++ c ++ [.comma]) := by
  cases opened with
  | @call _ _ f args u v outer leads done fits =>
      have more : ∀ a ∈ args ++ [c], Sentence Func.TakesSome 1 a := by
        intro a mem
        rcases List.mem_append.1 mem with mem | mem
        · exact done a mem
        · rw [List.mem_singleton.1 mem]
          exact read
      have fits : (args ++ [c]).length + 1 + room = f.arity := by
        rw [List.length_append, List.length_singleton]
        omega
      have next := Reached.operand (.call outer leads more fits) leads_nil
      simpa using next

/-- What has been read up to a place is so up to the next, as long as no parenthesis is closed that
was not opened. -/
theorem Reached.step {p q : Place} {l : Lexeme} {read : List Lexeme} (h : Reached p read)
    (next : p.step l = some q) (closes : l = .closing → 0 < p.rooms.length) :
    Reached q (read ++ [l]) := by
  cases h with
  | operand opened leads =>
      cases l with
      | number x => cases next; exact .factor opened leads .number
      | param name => cases next; exact .factor opened leads .param
      | op o =>
          cases o with
          | sub => cases next; exact .magnitude opened leads
          | _ => cases next
      | func f => cases next; exact .arguments opened leads
      | opening =>
          cases next
          have inner := Reached.operand (.group opened leads) leads_nil
          simpa using inner
      | _ => cases next
  | magnitude opened leads =>
      cases l with
      | number x =>
          cases next
          have whole := Reached.factor opened leads (@Sentence.negative _ 3 x)
          simpa using whole
      | _ => cases next
  | @arguments rooms f u v opened leads =>
      cases l with
      | opening =>
          cases next
          have fits : ([] : List (List Lexeme)).length + 1 + (f.arity - 1) = f.arity := by
            cases f <;> rfl
          have inner := Reached.operand (.call opened leads (by simp) fits) leads_nil
          simpa using inner
      | _ => cases next
  | @operator rooms u v opened read =>
      cases l with
      | op o =>
          cases next
          rw [List.append_assoc]
          exact .operand opened (leads_op read o)
      | comma =>
          cases rooms with
          | nil => cases next
          | cons room rooms =>
              cases room with
              | zero => cases next
              | succ room => cases next; exact .comma opened read
      | closing =>
          cases next
          cases rooms with
          | nil => exact absurd (closes rfl) (Nat.lt_irrefl 0)
          | cons room rooms => exact .closing opened read
      | _ => cases next

/-- The walk and the parentheses agree on how many parentheses are open. -/
theorem balanced_step {p q : Place} {l : Lexeme} {rest : List Lexeme} (next : p.step l = some q)
    (h : Balanced p.rooms.length (l :: rest)) :
    (l = .closing → 0 < p.rooms.length) ∧ Balanced q.rooms.length rest := by
  obtain ⟨due, rooms⟩ := p
  cases due with
  | operand =>
      cases l with
      | op o => cases o <;> cases next; exact ⟨nofun, h⟩
      | closing => cases next
      | comma => cases next
      | _ => cases next; exact ⟨nofun, h⟩
  | magnitude => cases l <;> cases next; exact ⟨nofun, h⟩
  | arguments f => cases l <;> cases next; exact ⟨nofun, h⟩
  | operator =>
      cases l with
      | op o => cases next; exact ⟨nofun, h⟩
      | comma =>
          match rooms, next with
          | (room + 1) :: rooms, next => cases next; exact ⟨nofun, h⟩
      | closing =>
          cases next
          rw [List.length_tail]
          exact ⟨fun _ => h.1, h.2⟩
      | _ => cases next

/-- Lexemes that stand in their places behind what has been read complete an expression, if the
parentheses match. -/
theorem Reached.sentence {p : Place} {read rest : List Lexeme} (h : Reached p read)
    (placed : p.leads rest = true) (balanced : Balanced p.rooms.length rest) :
    Sentence Func.TakesSome 1 (read ++ rest) := by
  induction rest generalizing p read with
  | nil =>
      rw [List.append_nil]
      have due : p.due = .operator := of_decide_eq_true placed
      cases h with
      | operator opened read =>
          have none := List.length_eq_zero_iff.1 balanced
          cases none
          cases opened
          exact read
      | _ => cases due
  | cons l rest ih =>
      obtain ⟨q, next, placed⟩ := (Option.any_eq_true _ _).1 placed
      obtain ⟨closes, balanced⟩ := balanced_step next balanced
      have whole := ih (h.step next closes) placed balanced
      rwa [List.append_assoc] at whole

/-- Lexemes in their places whose parentheses match make an expression, save that functions may lack
arguments. -/
theorem of_wellPlaced {lexemes : List Lexeme} (placed : Lexeme.wellPlaced lexemes = true)
    (balanced : Balanced 0 lexemes) : Sentence Func.TakesSome 1 lexemes :=
  (Reached.operand .start leads_nil).sentence placed balanced

end Sentence
end SynthPatch
