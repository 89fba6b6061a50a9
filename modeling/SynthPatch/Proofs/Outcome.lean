import Mathlib.Data.List.Forall2
/-!
# Steps that may fail

What a row of steps comes to is read off what each of them comes to.  The lemmas here open such
rows from the outside, so that no later proof takes a definition apart by hand.

Main results:

- Theorems {lit}`Outcome.bind_eq_ok_iff`, {lit}`Outcome.bind_eq_error_iff`: one step after another
  succeeds if both do, and fails where the first of them fails.
- Theorems {lit}`Outcome.exists_foldlM`, {lit}`Outcome.exists_mapM`: a row of steps succeeds if each
  of them does.
- Theorem {lit}`Outcome.of_foldlM`: what each step of a row keeps the row keeps.
- Theorem {lit}`Outcome.mapM_eq_error_iff`: it fails with what the first of them fails with that
  does.
-/

namespace SynthPatch
namespace Outcome

variable {ε ε' β γ : Type}

theorem pure_eq_ok_iff {b c : β} : (pure b : Except ε β) = .ok c ↔ b = c := by
  simp [pure, Except.pure]

/-- One step after another succeeds exactly if both do. -/
theorem bind_eq_ok_iff {x : Except ε β} {f : β → Except ε γ} {c : γ} :
    x >>= f = .ok c ↔ ∃ b, x = .ok b ∧ f b = .ok c := by
  cases x with
  | error e => simp [bind, Except.bind]
  | ok b => simp [bind, Except.bind]

/-- One step after another fails with what the first fails with, or the second after it. -/
theorem bind_eq_error_iff {x : Except ε β} {f : β → Except ε γ} {e : ε} :
    x >>= f = .error e ↔ x = .error e ∨ ∃ b, x = .ok b ∧ f b = .error e := by
  cases x with
  | error d => simp [bind, Except.bind]
  | ok b => simp [bind, Except.bind]

/-- What follows on a step matters only for what the step can give. -/
theorem bind_congr {x : Except ε β} {f g : β → Except ε γ}
    (same : ∀ b, x = .ok b → f b = g b) : x >>= f = x >>= g := by
  cases x with
  | error e => rfl
  | ok b => exact same b rfl

theorem map_eq_ok_iff {x : Except ε β} {f : β → γ} {c : γ} :
    x.map f = .ok c ↔ ∃ b, x = .ok b ∧ f b = c := by
  cases x with
  | error e => simp [Except.map]
  | ok b => simp [Except.map]

theorem toOption_eq_some_iff {x : Except ε β} {b : β} : x.toOption = some b ↔ x = .ok b := by
  cases x with
  | error e => simp [Except.toOption]
  | ok c => simp [Except.toOption]

theorem isNone_toOption_iff {x : Except ε β} : x.toOption.isNone = true ↔ ∃ e, x = .error e := by
  cases x with
  | error e => simp [Except.toOption]
  | ok c => simp [Except.toOption]

theorem mapError_eq_ok_iff {x : Except ε β} {f : ε → ε'} {b : β} :
    x.mapError f = .ok b ↔ x = .ok b := by
  cases x with
  | error e => simp [Except.mapError]
  | ok c => simp [Except.mapError]

theorem mapError_bind (g : ε → ε') (x : Except ε β) (f : β → Except ε γ) :
    (x >>= f).mapError g = x.mapError g >>= fun b => (f b).mapError g := by
  cases x <;> rfl

theorem mapError_map {δ : Type} (g : ε → ε') (x : Except ε β) (f : β → δ) :
    (x.map f).mapError g = (x.mapError g).map f := by
  cases x <;> rfl

theorem mapError_foldlM {σ : Type} (g : ε → ε') (f : σ → β → Except ε σ) (l : List β) (s : σ) :
    (l.foldlM f s).mapError g = l.foldlM (fun s b => (f s b).mapError g) s := by
  induction l generalizing s with
  | nil => rfl
  | cons b rest ih =>
      rw [List.foldlM_cons, List.foldlM_cons, mapError_bind]
      exact congrArg _ (funext ih)

/-! ## Rows of steps -/

/-- A row of steps succeeds and keeps an invariant if each step does. -/
theorem exists_foldlM {σ : Type} {P : σ → Prop} {f : σ → β → Except ε σ} {l : List β} {s : σ}
    (h : P s) (step : ∀ b ∈ l, ∀ s, P s → ∃ next, f s b = .ok next ∧ P next) :
    ∃ last, l.foldlM f s = .ok last ∧ P last := by
  induction l generalizing s with
  | nil => exact ⟨s, rfl, h⟩
  | cons b rest ih =>
      obtain ⟨next, one, kept⟩ := step b List.mem_cons_self s h
      obtain ⟨last, others, kept⟩ := ih kept fun c mem => step c (List.mem_cons_of_mem b mem)
      refine ⟨last, ?_, kept⟩
      rw [List.foldlM_cons, one]
      exact others

/-- A row of steps that succeeds keeps an invariant if each step does. -/
theorem of_foldlM {σ : Type} {P : σ → Prop} {f : σ → β → Except ε σ} {l : List β} {s last : σ}
    (h : P s) (step : ∀ s b next, P s → f s b = .ok next → P next)
    (done : l.foldlM f s = .ok last) : P last := by
  induction l generalizing s with
  | nil =>
      cases done
      exact h
  | cons b rest ih =>
      rw [List.foldlM_cons] at done
      obtain ⟨next, one, others⟩ := bind_eq_ok_iff.1 done
      exact ih (step s b next h one) others

section MapM

variable {f : β → Except ε γ} {l : List β} {results : List γ}

/-- A row of steps that succeeds gives the result of each. -/
theorem forall₂_of_mapM (h : l.mapM f = .ok results) :
    List.Forall₂ (fun b c => f b = .ok c) l results := by
  induction l generalizing results with
  | nil =>
      cases h
      exact .nil
  | cons b rest ih =>
      rw [List.mapM_cons] at h
      obtain ⟨c, one, h⟩ := bind_eq_ok_iff.1 h
      obtain ⟨cs, others, h⟩ := bind_eq_ok_iff.1 h
      cases h
      exact .cons one (ih others)

/-- What each result shares with its step all of them do. -/
theorem map_eq_map_of_mapM {δ : Type} {g : β → δ} {k : γ → δ} (h : l.mapM f = .ok results)
    (same : ∀ b c, f b = .ok c → k c = g b) : results.map k = l.map g := by
  have rows := forall₂_of_mapM h
  clear h
  induction rows with
  | nil => rfl
  | cons one _ ih => rw [List.map_cons, List.map_cons, same _ _ one, ih]

/-- Each step gives one of the results. -/
theorem exists_result_of_mem (h : l.mapM f = .ok results) {b : β} (mem : b ∈ l) :
    ∃ c ∈ results, f b = .ok c := by
  have rows := forall₂_of_mapM h
  clear h
  induction rows with
  | nil => cases mem
  | @cons b' c rest cs one _ ih =>
      rcases List.mem_cons.1 mem with rfl | mem
      · exact ⟨c, List.mem_cons_self, one⟩
      · obtain ⟨d, there, step⟩ := ih mem
        exact ⟨d, List.mem_cons_of_mem c there, step⟩

/-- Each result comes from one of the steps. -/
theorem exists_step_of_mem (h : l.mapM f = .ok results) {c : γ} (mem : c ∈ results) :
    ∃ b ∈ l, f b = .ok c := by
  have rows := forall₂_of_mapM h
  clear h
  induction rows with
  | nil => cases mem
  | @cons b c' rest cs one _ ih =>
      rcases List.mem_cons.1 mem with rfl | mem
      · exact ⟨b, List.mem_cons_self, one⟩
      · obtain ⟨d, there, step⟩ := ih mem
        exact ⟨d, List.mem_cons_of_mem b there, step⟩

end MapM

/-- A row of steps comes to what another one comes to if each of them does. -/
theorem mapM_congr {f g : β → Except ε γ} {l : List β} (same : ∀ b ∈ l, f b = g b) :
    l.mapM f = l.mapM g := by
  induction l with
  | nil => rfl
  | cons b rest ih =>
      rw [List.mapM_cons, List.mapM_cons, same b List.mem_cons_self,
        ih fun c mem => same c (List.mem_cons_of_mem b mem)]

/-- A row of steps succeeds if each of them does. -/
theorem exists_mapM {f : β → Except ε γ} {l : List β} (h : ∀ b ∈ l, ∃ c, f b = .ok c) :
    ∃ results, l.mapM f = .ok results := by
  induction l with
  | nil => exact ⟨[], rfl⟩
  | cons b rest ih =>
      obtain ⟨c, one⟩ := h b List.mem_cons_self
      obtain ⟨cs, others⟩ := ih fun d mem => h d (List.mem_cons_of_mem b mem)
      refine ⟨c :: cs, ?_⟩
      rw [List.mapM_cons, one, others]
      rfl

/-- A row of steps fails with what the first of them fails with that does. -/
theorem mapM_eq_error_iff {f : β → Except ε γ} {l : List β} {e : ε} :
    l.mapM f = .error e ↔ ∃ front b back, l = front ++ b :: back ∧
      (∀ c ∈ front, ∃ result, f c = .ok result) ∧ f b = .error e := by
  induction l with
  | nil => simp [pure, Except.pure]
  | cons b rest ih =>
      rw [List.mapM_cons, bind_eq_error_iff]
      constructor
      · rintro (here | ⟨c, one, later⟩)
        · exact ⟨[], b, rest, rfl, by simp, here⟩
        · obtain later | ⟨cs, -, h⟩ := bind_eq_error_iff.1 later
          · obtain ⟨front, d, back, rfl, before, failed⟩ := ih.1 later
            exact ⟨b :: front, d, back, rfl, List.forall_mem_cons.2 ⟨⟨c, one⟩, before⟩, failed⟩
          · cases h
      · rintro ⟨front, d, back, split, before, failed⟩
        cases front with
        | nil =>
            cases split
            exact .inl failed
        | cons first front =>
            cases split
            obtain ⟨⟨c, one⟩, before⟩ := List.forall_mem_cons.1 before
            refine .inr ⟨c, one, bind_eq_error_iff.2 (.inl ?_)⟩
            exact ih.2 ⟨front, d, back, rfl, before, failed⟩

end Outcome
end SynthPatch
