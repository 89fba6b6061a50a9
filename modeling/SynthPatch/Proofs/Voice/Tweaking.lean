import SynthPatch.Proofs.Expr.Sight
import SynthPatch.Proofs.Patch.Assembly
import SynthPatch.Proofs.Tables
import SynthPatch.Proofs.Voice.Playing
/-!
# The settings of tweaks

A tweak that is evaluated becomes a setting of its property.  Settings are made up of the tweaks
that were chosen, each once, and change the properties of those and no others.

Main results:

- Theorem {lit}`Voice.evaluate_eq_ok_iff`: when a tweak has a value.
- Theorem {lit}`Voice.evaluate_insert`: a tweak does not depend on a parameter it does not refer to.
- Theorem {lit}`Voice.evaluate_congr`: a tweak keeps its value as long as its parameters do.
- Theorems {lit}`Voice.property?_assign_of_mem`, {lit}`Voice.property?_assign_of_ne`: what settings
  change.
-/

namespace SynthPatch

variable {α : Type}

namespace Voice

/-! ## Assigning -/

section Assign

variable (v : Voice α) (settings : List (Endpoint × α))

theorem own?_setValue (target other : Endpoint) (x : α) :
    (v.modify target (·.setValue x)).own? other =
      if target = other then (v.own? other).map fun _ => x else v.own? other := by
  rw [own?_modify, own?, Option.map_map]
  rfl

@[simp]
theorem patch_assign : (v.assign settings).patch = v.patch := by
  induction settings generalizing v with
  | nil => rfl
  | cons s rest ih => exact ih (v.modify s.1 (·.setValue s.2))

@[simp]
theorem values_assign : (v.assign settings).values = v.values := by
  induction settings generalizing v with
  | nil => rfl
  | cons s rest ih => exact ih (v.modify s.1 (·.setValue s.2))

@[simp]
theorem bendFraction_assign : (v.assign settings).bendFraction = v.bendFraction := by
  induction settings generalizing v with
  | nil => rfl
  | cons s rest ih => exact ih (v.modify s.1 (·.setValue s.2))

omit v settings in
/-- A property that is given the value it has stays as it is, and so does the voice. -/
theorem modify_setValue_of_own? {v : Voice α} {target : Endpoint} {x : α}
    (own : v.own? target = some x) : v.modify target (·.setValue x) = v := by
  obtain ⟨line, found, rfl⟩ := Option.map_eq_some_iff.1 own
  obtain ⟨m, there, here⟩ := Option.bind_eq_some_iff.1 found
  have idle : m.modify target.port (·.setValue line.value) = m := by
    rw [Instance.modify, Table.modify_eq_self]
    intro other same
    rw [Option.some.inj (same.symm.trans here)]
    rfl
  rw [modify, Table.modify_eq_self]
  intro n same
  rw [Option.some.inj (same.symm.trans there), idle]

/-- Assigning makes and removes no property. -/
theorem isSome_own?_assign (target : Endpoint) :
    ((v.assign settings).own? target).isSome = (v.own? target).isSome := by
  induction settings generalizing v with
  | nil => rfl
  | cons s rest ih =>
      refine (ih (v.modify s.1 (·.setValue s.2))).trans ?_
      rw [own?_setValue]
      split
      · rw [Option.isSome_map]
      · rfl

/-- A property that is not among the settings stays as it is. -/
theorem property?_assign_of_ne {target : Endpoint} (free : ∀ s ∈ settings, s.1 ≠ target) :
    (v.assign settings).property? target = v.property? target := by
  induction settings generalizing v with
  | nil => rfl
  | cons s rest ih =>
      obtain ⟨notHere, others⟩ := List.forall_mem_cons.1 free
      refine (ih (v.modify s.1 (·.setValue s.2)) others).trans ?_
      rw [property?_modify, if_neg notHere]

/-- A property that is set once gets that value, and nothing else happens to it. -/
theorem property?_assign_of_mem {target : Endpoint} {x : α} (once : (settings.map (·.1)).Nodup)
    (mem : (target, x) ∈ settings) :
    (v.assign settings).property? target = (v.property? target).map (·.setValue x) := by
  induction settings generalizing v with
  | nil => cases mem
  | cons s rest ih =>
      obtain ⟨new, others⟩ := List.nodup_cons.1 once
      rcases List.mem_cons.1 mem with rfl | mem
      · refine (property?_assign_of_ne _ rest ?_).trans ?_
        · intro other mem same
          exact new (List.mem_map.2 ⟨other, mem, same⟩)
        · rw [property?_modify, if_pos rfl]
      · have apart : s.1 ≠ target := fun same => new (List.mem_map.2 ⟨_, mem, same.symm⟩)
        refine (ih (v.modify s.1 (·.setValue s.2)) others mem).trans ?_
        rw [property?_modify, if_neg apart]

/-- A property that is not among the settings keeps its value. -/
theorem own?_assign_of_ne {target : Endpoint} (free : ∀ s ∈ settings, s.1 ≠ target) :
    (v.assign settings).own? target = v.own? target := by
  rw [own?, property?_assign_of_ne v settings free, own?]

/-- A property that is set once gets that value. -/
theorem own?_assign_of_mem {target : Endpoint} {x : α} (once : (settings.map (·.1)).Nodup)
    (mem : (target, x) ∈ settings) (here : (v.own? target).isSome = true) :
    (v.assign settings).own? target = some x := by
  rw [own?, Option.isSome_map] at here
  obtain ⟨line, found⟩ := Option.isSome_iff_exists.1 here
  rw [own?, property?_assign_of_mem v settings once mem, found]
  rfl

end Assign

/-! ## Evaluating -/

/-- Expressions of a voice see the bounds of its controls. -/
theorem scope_eq_ofTables (v : Voice α) (values : Named α) :
    v.scope values = .ofTables values (v.patch.controls.map fun _ c => c.min)
      (v.patch.controls.map fun _ c => c.max) := by
  simp only [scope, Scope.ofTables, Scope.mk.injEq, true_and]
  funext name
  rw [Patch.range?, Std.ExtTreeMap.getElem?_map, Std.ExtTreeMap.getElem?_map]
  cases v.patch.controls[name]? <;> rfl

variable [Scalar α]

/-- A tweak has a value if its expression has, that value is finite, and the property is there. -/
theorem evaluate_eq_ok_iff {v : Voice α} {values : Named α} {draws : Draws α} {t : Tweak α}
    {x : α} :
    v.evaluate values draws t = .ok x ↔
      t.value.evaluate (v.scope values) draws = .ok x ∧ Scalar.isFinite x = true ∧
        (v.own? t.target).isSome = true := by
  have there : (v.own? t.target).isSome =
      v.modules[t.target.module]?.any fun m => m.properties.contains t.target.port := by
    rw [own?, Option.isSome_map, property?]
    cases v.modules[t.target.module]? with
    | none => rfl
    | some m => exact Std.ExtTreeMap.isSome_getElem?_eq_contains
  rw [evaluate, Outcome.bind_eq_ok_iff]
  simp only [Outcome.mapError_eq_ok_iff, there]
  constructor
  · rintro ⟨y, has, h⟩
    split at h
    · cases h
    · next finite =>
        have finite : Scalar.isFinite y = true := by simpa using finite
        cases found : v.modules[t.target.module]? with
        | none =>
            rw [found] at h
            cases h
        | some m =>
            rw [found] at h
            dsimp only at h
            split at h
            · next holds =>
                cases h
                exact ⟨has, finite, holds⟩
            · cases h
  · rintro ⟨has, finite, holds⟩
    refine ⟨x, has, ?_⟩
    obtain ⟨m, found, holds⟩ := (Option.any_eq_true _ _).1 holds
    simp [finite, found, holds]

/-- A tweak keeps what it comes to when a parameter changes that it does not refer to. -/
theorem evaluate_insert (v : Voice α) {t : Tweak α} {name : String}
    (unreferenced : t.value.references name = false) (values : Named α) (value : α)
    (draws : Draws α) :
    v.evaluate (values.insert name value) draws t = v.evaluate values draws t := by
  have apart : ∀ other, other ≠ name → (values.insert name value)[other]? = values[other]? := by
    intro other apart
    rw [Std.ExtTreeMap.getElem?_insert, if_neg (by simpa using apart.symm)]
  rw [evaluate, evaluate, scope_eq_ofTables, scope_eq_ofTables,
    Postfix.evaluate_of_unreferenced unreferenced apart]

/-- A patch whose expressions draw nothing at random. -/
structure Steady (p : Patch α) : Prop where
  /-- The tokens of a tweak make one expression. -/
  shapes : ∀ t ∈ p.tweaks, t.value.checkShape = .ok ()
  /-- No tweak draws at random. -/
  calm : ∀ t ∈ p.tweaks, t.value.isRandom = false
  /-- No property is tweaked twice. -/
  once : (p.tweaks.map (·.target)).Nodup

/-- A tweak that draws nothing keeps its value, in whichever voice, as long as the parameters it
refers to keep their values and their bounds. -/
theorem evaluate_congr_of_agree {t : Tweak α} (calm : t.value.isRandom = false) {v w : Voice α}
    (there : (w.own? t.target).isSome = (v.own? t.target).isSome)
    (bounds : ∀ name, w.patch.range? name = v.patch.range? name) {values others : Named α}
    (agree : ∀ name, .param name ∈ t.value → others[name]? = values[name]?)
    {draws otherDraws : Draws α} {x : α} (h : v.evaluate values draws t = .ok x) :
    w.evaluate others otherDraws t = .ok x := by
  rw [evaluate_eq_ok_iff] at h ⊢
  obtain ⟨has, finite, holds⟩ := h
  refine ⟨?_, finite, by rw [there, holds]⟩
  calc
    t.value.evaluate (w.scope others) otherDraws
      = t.value.evaluate (v.scope values) otherDraws :=
        Postfix.evaluate_congr fun name used => ⟨agree name used, bounds name⟩
    _ = t.value.evaluate (v.scope values) draws := Postfix.evaluate_of_calm calm
    _ = .ok x := has

/-- A tweak of a steady patch keeps its value, in whichever voice of the patch, as long as the
parameters it refers to keep theirs. -/
theorem evaluate_congr {patch : Patch α} (steady : Steady patch) {t : Tweak α}
    (mem : t ∈ patch.tweaks) {v w : Voice α} (hv : v.patch = patch) (hw : w.patch = patch)
    (there : (w.own? t.target).isSome = (v.own? t.target).isSome) {values others : Named α}
    (agree : ∀ name, .param name ∈ t.value → others[name]? = values[name]?)
    {draws otherDraws : Draws α} {x : α} (h : v.evaluate values draws t = .ok x) :
    w.evaluate others otherDraws t = .ok x :=
  evaluate_congr_of_agree (steady.calm t mem) there
    (fun _ => by rw [hv, hw]) agree h

/-- A setting is for the property of its tweak, and gives it the value of the tweak. -/
theorem setting_eq_ok {v : Voice α} {values : Named α} {draws : Nat → Draws α}
    {t : Tweak α × Nat} {s : Endpoint × α} (h : v.setting values draws t = .ok s) :
    s.1 = t.1.target ∧ v.evaluate values (draws t.2) t.1 = .ok s.2 := by
  obtain ⟨x, value, h⟩ := Outcome.bind_eq_ok_iff.1 h
  cases h
  exact ⟨rfl, value⟩

theorem setting_of_evaluate {v : Voice α} {values : Named α} {draws : Nat → Draws α}
    {t : Tweak α × Nat} {x : α} (h : v.evaluate values (draws t.2) t.1 = .ok x) :
    v.setting values draws t = .ok (t.1.target, x) := by
  rw [setting, h]
  rfl

omit [Scalar α] in
/-- Tweaks have the same targets with their places as without. -/
theorem map_target_zipIdx (tweaks : List (Tweak α)) :
    tweaks.zipIdx.map (fun t => t.1.target) = tweaks.map (·.target) := by
  rw [← List.zipIdx_map_fst 0 tweaks, List.map_map, List.zipIdx_map_fst]
  rfl

section Settings

variable {v : Voice α} {values : Named α} {draws : Nat → Draws α} {chosen : Tweak α → Bool}
  {settings : List (Endpoint × α)} (h : v.settings values draws chosen = .ok settings)

include h

/-- No property is set twice if none is tweaked twice. -/
theorem nodup_settings (once : (v.patch.tweaks.map (·.target)).Nodup) :
    (settings.map (·.1)).Nodup := by
  have targets : settings.map (·.1) =
      (v.patch.tweaks.zipIdx.filter fun t => chosen t.1).map fun t => t.1.target :=
    Outcome.map_eq_map_of_mapM h fun t s one => (setting_eq_ok one).1
  rw [targets]
  refine List.Nodup.sublist (List.Sublist.map _ List.filter_sublist) ?_
  rw [map_target_zipIdx]
  exact once

/-- Only the properties of chosen tweaks are set, to the values that these have. -/
theorem exists_value_of_mem_settings {s : Endpoint × α} (mem : s ∈ settings) :
    ∃ t place, t ∈ v.patch.tweaks ∧ chosen t = true ∧ t.target = s.1 ∧
      v.evaluate values (draws place) t = .ok s.2 := by
  obtain ⟨⟨t, place⟩, there, one⟩ := Outcome.exists_step_of_mem h mem
  obtain ⟨there, isChosen⟩ := List.mem_filter.1 there
  obtain ⟨target, value⟩ := setting_eq_ok one
  exact ⟨t, place, List.mem_of_getElem? (List.mk_mem_zipIdx_iff_getElem?.1 there), isChosen,
    target.symm, value⟩

theorem exists_chosen_of_mem_settings {s : Endpoint × α} (mem : s ∈ settings) :
    ∃ t ∈ v.patch.tweaks, chosen t = true ∧ t.target = s.1 := by
  obtain ⟨t, -, there, isChosen, target, -⟩ := exists_value_of_mem_settings h mem
  exact ⟨t, there, isChosen, target⟩

/-- The property of a chosen tweak is set to the value that the tweak has at its place. -/
theorem exists_mem_settings_of_getElem? {t : Tweak α} {place : Nat}
    (found : v.patch.tweaks[place]? = some t) (isChosen : chosen t = true) :
    ∃ x, (t.target, x) ∈ settings ∧ v.evaluate values (draws place) t = .ok x := by
  have there : (t, place) ∈ v.patch.tweaks.zipIdx.filter fun t => chosen t.1 :=
    List.mem_filter.2 ⟨List.mk_mem_zipIdx_iff_getElem?.2 found, isChosen⟩
  obtain ⟨⟨target, x⟩, here, one⟩ := Outcome.exists_result_of_mem h there
  obtain ⟨same, value⟩ := setting_eq_ok one
  have same : target = t.target := same
  exact ⟨x, same ▸ here, value⟩

/-- The property of every chosen tweak is set to the value of the tweak. -/
theorem exists_mem_settings {t : Tweak α} (mem : t ∈ v.patch.tweaks) (isChosen : chosen t = true) :
    ∃ x place, (t.target, x) ∈ settings ∧ v.evaluate values (draws place) t = .ok x := by
  obtain ⟨place, found⟩ := List.getElem?_of_mem mem
  obtain ⟨x, here, value⟩ := exists_mem_settings_of_getElem? h found isChosen
  exact ⟨x, place, here, value⟩

end Settings

/-- There are settings if every tweak has a value. -/
theorem exists_settings {v : Voice α} {values : Named α} {draws : Nat → Draws α}
    (chosen : Tweak α → Bool)
    (all : ∀ t ∈ v.patch.tweaks, ∀ draws, ∃ x, v.evaluate values draws t = .ok x) :
    ∃ settings, v.settings values draws chosen = .ok settings := by
  refine Outcome.exists_mapM ?_
  rintro ⟨t, place⟩ mem
  have found := List.mk_mem_zipIdx_iff_getElem?.1 (List.mem_filter.1 mem).1
  obtain ⟨x, value⟩ := all t (List.mem_of_getElem? found) (draws place)
  exact ⟨(t.target, x), setting_of_evaluate value⟩

end Voice
end SynthPatch
