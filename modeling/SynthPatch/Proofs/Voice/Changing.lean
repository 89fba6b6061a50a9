import SynthPatch.Proofs.Voice.Reach
/-!
# Changing a parameter

A parameter of a voice is changed together with all properties whose tweaks refer to it.  Either
each of these tweaks has a value that a property can take, and then the voice takes all of them; or
the first that has none says why, and nothing changes.

Main results:

- Theorem {lit}`Voice.tweak_eq_error_iff`: the change fails with what the first tweak fails with
  that does.
- Theorem {lit}`Voice.takes_of_tweak`: what a voice is like on which the change succeeds.
-/

namespace SynthPatch

variable {α : Type}

/-- An instance without its properties. -/
def Instance.bare {ρ : Type} (m : Instance ρ α) : Instance ρ α :=
  { m with properties := ∅ }

namespace Voice

variable [Scalar α]

/-! ## Values of tweaks -/

/-- A tweak has a value that a property can take. -/
def Gives (v : Voice α) (values : Named α) (draws : Draws α) (t : Tweak α) (x : α) : Prop :=
  t.value.evaluate (v.scope values) draws = .ok x ∧ Scalar.isFinite x = true

/-- Why a tweak has no such value. -/
inductive Fails (v : Voice α) (values : Named α) (draws : Draws α) (t : Tweak α) :
    VoiceError α → Prop
  /-- Its expression has no value. -/
  | undefined {fault : EvalError α}
      (failed : t.value.evaluate (v.scope values) draws = .error fault) :
      Fails v values draws t (.tweak t.target fault)
  /-- Its expression has a value that is not finite. -/
  | infinite {x : α} (has : t.value.evaluate (v.scope values) draws = .ok x)
      (large : Scalar.isFinite x = false) : Fails v values draws t (.notFinite t.target x)

section Values

variable {v : Voice α} {values : Named α} {draws : Draws α} {t : Tweak α}

theorem evaluate_eq_ok_iff_gives (there : (v.own? t.target).isSome = true) {x : α} :
    v.evaluate values draws t = .ok x ↔ v.Gives values draws t x := by
  rw [evaluate_eq_ok_iff, Gives]
  simp only [there, and_true]

theorem evaluate_of_fails {e : VoiceError α} (fails : v.Fails values draws t e) :
    v.evaluate values draws t = .error e := by
  cases fails with
  | undefined failed =>
      rw [evaluate, failed]
      rfl
  | infinite has large =>
      rw [evaluate, has]
      simp [Except.mapError, bind, Except.bind, large]

theorem gives_or_fails (v : Voice α) (values : Named α) (draws : Draws α) (t : Tweak α) :
    (∃ x, v.Gives values draws t x) ∨ ∃ e, v.Fails values draws t e := by
  cases outcome : t.value.evaluate (v.scope values) draws with
  | error fault => exact .inr ⟨_, .undefined outcome⟩
  | ok x =>
      cases finite : Scalar.isFinite x with
      | true => exact .inl ⟨x, outcome, finite⟩
      | false => exact .inr ⟨_, .infinite outcome finite⟩

/-- Where its property is there, a tweak fails only if its expression has no finite value. -/
theorem evaluate_eq_error_iff (there : (v.own? t.target).isSome = true) {e : VoiceError α} :
    v.evaluate values draws t = .error e ↔ v.Fails values draws t e := by
  refine ⟨fun failed => ?_, evaluate_of_fails⟩
  obtain ⟨x, gives⟩ | ⟨d, fails⟩ := v.gives_or_fails values draws t
  · rw [(evaluate_eq_ok_iff_gives there).2 gives] at failed
    cases failed
  · rw [evaluate_of_fails fails, Except.error.injEq] at failed
    rwa [← failed]

end Values

/-! ## All or nothing -/

/-- Of the tweaks that refer to a parameter, the first that fails once the parameter is changed
fails for the given reason. -/
def Refuses (v : Voice α) (name : String) (value : α) (draws : Nat → Draws α)
    (e : VoiceError α) : Prop :=
  ∃ front t place back,
    (v.patch.tweaks.zipIdx.filter fun t => t.1.value.references name) =
      front ++ (t, place) :: back ∧
    (∀ s ∈ front, ∃ x, v.Gives (v.values.insert name value) (draws s.2) s.1 x) ∧
    v.Fails (v.values.insert name value) (draws place) t e

/-- The voice {lit}`w` is the voice {lit}`v` with a parameter changed, and with it the values of all
properties whose tweaks refer to the parameter. -/
structure Takes (v : Voice α) (name : String) (value : α) (draws : Nat → Draws α)
    (w : Voice α) : Prop where
  patch : w.patch = v.patch
  bendFraction : w.bendFraction = v.bendFraction
  values : w.values = v.values.insert name value
  /-- A property whose tweak refers to the parameter takes the value that the tweak has now; what is
  scheduled for it stays. -/
  tweaked : ∀ t place, v.patch.tweaks[place]? = some t → t.value.references name = true →
    ∃ x line, v.Gives (v.values.insert name value) (draws place) t x ∧
      v.property? t.target = some line ∧ w.property? t.target = some (line.setValue x)
  /-- Every other property stays as it is, -/
  others : ∀ target, (∀ t ∈ v.patch.tweaks, t.value.references name = true → t.target ≠ target) →
    w.property? target = v.property? target
  /-- and so does what instances have besides properties. -/
  bare : ∀ id : String, w.modules[id]?.map Instance.bare = v.modules[id]?.map Instance.bare

section Tweak

variable {v w : Voice α} {name : String} {value : α} {draws : Nat → Draws α}
  (able : v.patch.isMutable name = true)
  (there : ∀ t ∈ v.patch.tweaks, (v.own? t.target).isSome = true)

include able there

/-- The change fails with what the first of the tweaks fails with that does. -/
theorem tweak_eq_error_iff {e : VoiceError α} :
    v.tweak name value draws = .error e ↔ v.Refuses name value draws e := by
  have setting (t : Tweak α × Nat) (e : VoiceError α) :
      v.setting (v.values.insert name value) draws t = .error e ↔
        v.evaluate (v.values.insert name value) (draws t.2) t.1 = .error e := by
    rw [Voice.setting, Outcome.bind_eq_error_iff]
    exact or_iff_left (by rintro ⟨x, -, ⟨⟩⟩)
  have target {t : Tweak α × Nat} {l : List (Tweak α × Nat)}
      (part : l ⊆ v.patch.tweaks.zipIdx.filter fun t => t.1.value.references name)
      (mem : t ∈ l) : (v.own? t.1.target).isSome = true := by
    have here := (List.mem_filter.1 (part mem)).1
    exact there t.1 (List.mem_of_getElem? (List.mk_mem_zipIdx_iff_getElem?.1 here))
  have settings : v.tweak name value draws = .error e ↔
      v.settings (v.values.insert name value) draws (·.value.references name) = .error e := by
    rw [tweak, if_pos able]
    refine Outcome.bind_eq_error_iff.trans (or_iff_left ?_)
    rintro ⟨s, -, ⟨⟩⟩
  rw [settings, Voice.settings, Outcome.mapM_eq_error_iff, Refuses]
  constructor
  · rintro ⟨front, ⟨t, place⟩, back, split, before, failed⟩
    refine ⟨front, t, place, back, split, fun s mem => ?_, ?_⟩
    · obtain ⟨result, one⟩ := before s mem
      refine ⟨result.2, (evaluate_eq_ok_iff_gives ?_).1 (setting_eq_ok one).2⟩
      exact target (by simp [split]) mem
    · refine (evaluate_eq_error_iff ?_).1 ((setting _ e).1 failed)
      exact target (t := (t, place)) (l := (t, place) :: back) (by simp [split])
        List.mem_cons_self
  · rintro ⟨front, t, place, back, split, before, failed⟩
    refine ⟨front, (t, place), back, split, fun s mem => ?_, ?_⟩
    · obtain ⟨x, gives⟩ := before s mem
      have value := (evaluate_eq_ok_iff_gives (target (by simp [split]) mem)).2 gives
      exact ⟨(s.1.target, x), setting_of_evaluate value⟩
    · refine (setting _ e).2 ((evaluate_eq_error_iff ?_).2 failed)
      exact target (t := (t, place)) (l := (t, place) :: back) (by simp [split])
        List.mem_cons_self

/-- Where the change succeeds the voice takes it in every respect, and in no other. -/
theorem takes_of_tweak (once : (v.patch.tweaks.map (·.target)).Nodup)
    (done : v.tweak name value draws = .ok w) : v.Takes name value draws w := by
  rw [tweak, if_pos able] at done
  obtain ⟨settings, set, done⟩ := Outcome.bind_eq_ok_iff.1 done
  cases done
  let changed : Voice α := { v with values := v.values.insert name value }
  refine ⟨patch_assign changed settings, bendFraction_assign changed settings,
    values_assign changed settings, ?_, ?_, ?_⟩
  · intro t place found references
    obtain ⟨x, mem, value⟩ := exists_mem_settings_of_getElem? set found references
    have here := there t (List.mem_of_getElem? found)
    have own := here
    rw [own?, Option.isSome_map] at own
    obtain ⟨line, present⟩ := Option.isSome_iff_exists.1 own
    refine ⟨x, line, (evaluate_eq_ok_iff_gives here).1 value, present, ?_⟩
    rw [property?_assign_of_mem changed settings (nodup_settings set once) mem]
    exact congrArg (Option.map (·.setValue x)) present
  · intro target free
    refine property?_assign_of_ne changed settings fun s mem same => ?_
    obtain ⟨t, there, isChosen, here⟩ := exists_chosen_of_mem_settings set mem
    exact free t there isChosen (here.trans same)
  · intro id
    refine lasting_foldl changed id (fun u s => ?_) settings
    exact map_modules_modify (g := Instance.bare) (fun _ _ _ => rfl) u id s.1 (·.setValue s.2)

end Tweak

end Voice
end SynthPatch
