/-!
# Grammar rules

A rule tries to read something at the front of a text.  Alternatives are tried in order and the
first that succeeds is taken for good.  Every place where a named rule was tried in vain is
remembered, whether or not another alternative succeeded there; when a whole text cannot be read,
the furthest of these places is where it went wrong.

Main results:

- Theorem {lit}`Rule.run_bind_of_eq_some`: a rule after another reads on where that one stopped.
- Theorem {lit}`Rule.Shortens.bind`, {lit}`Rule.Shortens.many`: reading only takes text away.
-/

namespace SynthPatch

/-- What trying a rule at the front of a text comes to. -/
structure Attempt (β : Type) where
  /-- What was read and the text behind it, if the rule succeeded. -/
  result : Option (β × List Char)
  /-- The text at each place where a named rule was tried in vain. -/
  failures : List (List Char)

/-- A rule of a grammar. -/
structure Rule (β : Type) where
  /-- Try the rule at the front of a text. -/
  run : List Char → Attempt β

namespace Rule

variable {β γ : Type}

/-! ## Sequence -/

/-- Read nothing. -/
def succeed (x : β) : Rule β :=
  ⟨fun s => ⟨some (x, s), []⟩⟩

/-- Read one thing after another. -/
def andThen (p : Rule β) (f : β → Rule γ) : Rule γ :=
  ⟨fun s =>
    match p.run s with
    | ⟨none, fs⟩ => ⟨none, fs⟩
    | ⟨some (x, r), fs⟩ =>
      let q := (f x).run r
      ⟨q.result, fs ++ q.failures⟩⟩

instance : Monad Rule where
  pure := succeed
  bind := andThen

@[simp]
theorem run_pure (x : β) (s : List Char) : (pure x : Rule β).run s = ⟨some (x, s), []⟩ :=
  rfl

/-- A rule after another reads on where that one stopped. -/
theorem run_bind_of_eq_some {p : Rule β} {f : β → Rule γ} {s r : List Char} {x : β}
    {fs : List (List Char)} (h : p.run s = ⟨some (x, r), fs⟩) :
    (p >>= f).run s = ⟨((f x).run r).result, fs ++ ((f x).run r).failures⟩ := by
  change (p.andThen f).run s = _
  simp only [andThen, h]

/-- A rule is not tried after one that failed. -/
theorem run_bind_of_eq_none {p : Rule β} {f : β → Rule γ} {s : List Char}
    {fs : List (List Char)} (h : p.run s = ⟨none, fs⟩) : (p >>= f).run s = ⟨none, fs⟩ := by
  change (p.andThen f).run s = _
  simp only [andThen, h]

/-! ## Choice and repetition -/

/-- Try a second rule where the first fails. -/
def orElse (p q : Rule β) : Rule β :=
  ⟨fun s =>
    match p.run s with
    | ⟨none, fs⟩ =>
      let a := q.run s
      ⟨a.result, fs ++ a.failures⟩
    | a => a⟩

/-- Read something that may be missing. -/
def optional (p : Rule β) : Rule (Option β) :=
  ⟨fun s =>
    match p.run s with
    | ⟨none, fs⟩ => ⟨some (none, s), fs⟩
    | ⟨some (x, r), fs⟩ => ⟨some (some x, r), fs⟩⟩

/-- Read a thing as often as it comes; a reading that takes no text away ends the row. -/
def manyFrom (p : Rule β) (s : List Char) : Attempt (List β) :=
  match p.run s with
  | ⟨none, fs⟩ => ⟨some ([], s), fs⟩
  | ⟨some (x, r), fs⟩ =>
    if r.length < s.length then
      match manyFrom p r with
      | ⟨more, gs⟩ => ⟨more.map fun (xs, r) => (x :: xs, r), fs ++ gs⟩
    else ⟨some ([x], r), fs⟩
termination_by s.length

/-- Read a thing as often as it comes. -/
def many (p : Rule β) : Rule (List β) :=
  ⟨manyFrom p⟩

/-- Remember the place if the rule fails there. -/
def named (p : Rule β) : Rule β :=
  ⟨fun s =>
    match p.run s with
    | ⟨none, fs⟩ => ⟨none, s :: fs⟩
    | a => a⟩

/-! ## Characters -/

/-- A fixed text. -/
def literal : List Char → Rule Unit
  | [] => succeed ()
  | c :: rest =>
    ⟨fun s =>
      match s with
      | d :: r => if c == d then (literal rest).run r else ⟨none, []⟩
      | [] => ⟨none, []⟩⟩

/-- A row of characters, as long as it comes, perhaps empty. -/
def row (p : Char → Bool) : Rule (List Char) :=
  ⟨fun s => ⟨some (s.takeWhile p, s.dropWhile p), []⟩⟩

/-- A row of characters, as long as it comes, behind a first one of its own class. -/
def word (first rest : Char → Bool) : Rule (List Char) :=
  ⟨fun s =>
    match s with
    | c :: r => if first c then ⟨some (c :: r.takeWhile rest, r.dropWhile rest), []⟩ else ⟨none, []⟩
    | [] => ⟨none, []⟩⟩

/-- The end of the text. -/
def ending : Rule Unit :=
  ⟨fun s =>
    match s with
    | [] => ⟨some ((), []), []⟩
    | _ => ⟨none, []⟩⟩

/-! ## Reading only takes text away -/

/-- What a rule leaves is the end of what it was given. -/
def Shortens (p : Rule β) : Prop :=
  ∀ {s x r fs}, p.run s = ⟨some (x, r), fs⟩ → r <:+ s

theorem Shortens.pure (x : β) : Shortens (pure x : Rule β) := by
  intro s y r fs h
  cases h
  exact List.suffix_refl s

theorem Shortens.bind {p : Rule β} {f : β → Rule γ} (hp : p.Shortens)
    (hf : ∀ x, (f x).Shortens) : (p >>= f).Shortens := by
  intro s y r fs h
  match hs : p.run s with
  | ⟨none, gs⟩ => rw [run_bind_of_eq_none hs] at h; cases h
  | ⟨some (x, t), gs⟩ =>
    rw [run_bind_of_eq_some hs] at h
    match ht : (f x).run t with
    | ⟨none, _⟩ => rw [ht] at h; cases h
    | ⟨some (z, u), _⟩ =>
      rw [ht] at h
      cases h
      exact (hf x ht).trans (hp hs)

theorem Shortens.orElse {p q : Rule β} (hp : p.Shortens) (hq : q.Shortens) :
    (p.orElse q).Shortens := by
  intro s y r fs h
  simp only [Rule.orElse] at h
  split at h
  · next gs hs =>
    match ht : q.run s with
    | ⟨none, _⟩ => rw [ht] at h; cases h
    | ⟨some (z, u), _⟩ => rw [ht] at h; cases h; exact hq ht
  · exact hp h

theorem Shortens.optional {p : Rule β} (hp : p.Shortens) : p.optional.Shortens := by
  intro s y r fs h
  simp only [Rule.optional] at h
  split at h
  · cases h; exact List.suffix_refl s
  · next hs => cases h; exact hp hs

theorem Shortens.named {p : Rule β} (hp : p.Shortens) : p.named.Shortens := by
  intro s y r fs h
  simp only [Rule.named] at h
  split at h
  · cases h
  · exact hp h

theorem Shortens.many {p : Rule β} (hp : p.Shortens) : p.many.Shortens := by
  intro s
  change ∀ {x r fs}, manyFrom p s = _ → _
  fun_induction manyFrom p s with
  | case1 s fs hs =>
    intro x r gs h
    cases h
    exact List.suffix_refl s
  | case2 s x t fs hs short more gs hm ih =>
    intro y r gs h
    match more, hm, h with
    | some (z, u), hm, rfl => exact (ih hm).trans (hp hs)
  | case3 s x t fs hs long =>
    intro y r gs h
    cases h
    exact hp hs

theorem Shortens.row (p : Char → Bool) : (row p).Shortens := by
  intro s x r fs h
  cases h
  exact List.dropWhile_suffix p

theorem Shortens.word (first rest : Char → Bool) : (word first rest).Shortens := by
  intro s x r fs h
  simp only [Rule.word] at h
  split at h
  · split at h
    · cases h
      exact (List.dropWhile_suffix rest).trans (List.suffix_cons _ _)
    · cases h
  · cases h

theorem Shortens.literal (text : List Char) : (literal text).Shortens := by
  induction text with
  | nil => exact Shortens.pure ()
  | cons c rest ih =>
    intro s x r fs h
    simp only [Rule.literal] at h
    split at h
    · split at h
      · exact (ih h).trans (List.suffix_cons _ _)
      · cases h
    · cases h

end Rule
end SynthPatch
