import SynthPatch.Voice.Performance
/-!
# What playing leaves as it is

Starting, bending, releasing and stopping a voice schedule changes of its properties and remember
times.  The values that properties have of their own, and the values of the parameters, are left as
they are.

Main results:

- Structure {lit}`Voice.Alike`: two voices differ at most in what is scheduled.
- Theorems {lit}`Voice.alike_start`, {lit}`Voice.alike_release`, {lit}`Voice.alike_stop`: playing
  changes no more than that.
-/

namespace SynthPatch

variable {α : Type}

/-- A change of a property that leaves its own value leaves those of all properties. -/
theorem Instance.value_modify {ρ : Type} {f : Timeline α → Timeline α}
    (keeps : ∀ line, (f line).value = line.value) (m : Instance ρ α) (name other : String) :
    (m.modify name f).properties[other]?.map Timeline.value =
      m.properties[other]?.map Timeline.value := by
  simp only [Instance.modify, Std.ExtTreeMap.getElem?_modify, Std.LawfulEqCmp.compare_eq_iff_eq]
  by_cases same : name = other
  · subst same
    have all : Timeline.value ∘ f = Timeline.value := funext keeps
    rw [if_pos rfl, Option.map_map, all]
  · rw [if_neg same]

namespace Voice

/-! ## Own values -/

/-- The value that a property of a module has of its own, whatever is scheduled for it. -/
def own? (v : Voice α) (target : Endpoint) : Option α :=
  (v.property? target).map (·.value)

theorem own?_modify (v : Voice α) (target other : Endpoint) (f : Timeline α → Timeline α) :
    (v.modify target f).own? other =
      if target = other then (v.property? other).map fun line => (f line).value
      else v.own? other := by
  rw [own?, property?_modify]
  by_cases same : target = other
  · rw [if_pos same, if_pos same, Option.map_map]
    rfl
  · rw [if_neg same, if_neg same]
    rfl

/-- Two voices of a patch that differ at most in what is scheduled. -/
structure Alike (v w : Voice α) : Prop where
  patch : v.patch = w.patch
  values : v.values = w.values
  own : ∀ target, v.own? target = w.own? target

namespace Alike

variable {u v w : Voice α}

theorem refl (v : Voice α) : Alike v v :=
  ⟨rfl, rfl, fun _ => rfl⟩

theorem trans (h : Alike u v) (k : Alike v w) : Alike u w :=
  ⟨h.patch.trans k.patch, h.values.trans k.values,
    fun target => (h.own target).trans (k.own target)⟩

/-- A row of changes each of which only schedules something only schedules something. -/
theorem foldl {β : Type} {f : Voice α → β → Voice α} (step : ∀ v b, Alike (f v b) v) (l : List β)
    (v : Voice α) : Alike (l.foldl f v) v := by
  induction l generalizing v with
  | nil => exact refl v
  | cons b rest ih => exact (ih (f v b)).trans (step v b)

/-- A change of one property that leaves its own value. -/
theorem modify (v : Voice α) (target : Endpoint) {f : Timeline α → Timeline α}
    (keeps : ∀ line, (f line).value = line.value) : Alike (v.modify target f) v := by
  refine ⟨rfl, rfl, fun other => ?_⟩
  rw [own?_modify]
  by_cases same : target = other
  · simp only [if_pos same, keeps]
    rfl
  · rw [if_neg same]

/-- A change of every instance that leaves the own values of its properties. -/
theorem mapModules (v : Voice α) {f : Instance Endpoint α → Instance Endpoint α}
    (keeps : ∀ (m : Instance Endpoint α) (name : String),
      (f m).properties[name]?.map Timeline.value = m.properties[name]?.map Timeline.value) :
    Alike { v with modules := v.modules.map fun _ m => f m } v := by
  refine ⟨rfl, rfl, fun target => ?_⟩
  simp only [own?, property?, Std.ExtTreeMap.getElem?_map]
  cases v.modules[target.module]? with
  | none => rfl
  | some m => exact keeps m target.port

/-- A change of one instance that leaves its properties. -/
theorem insert {id : String} {m n : Instance Endpoint α} (found : v.modules[id]? = some m)
    (keeps : n.properties = m.properties) :
    Alike { v with modules := v.modules.insert id n } v := by
  refine ⟨rfl, rfl, fun ⟨module, port⟩ => ?_⟩
  simp only [own?, property?, Std.ExtTreeMap.getElem?_insert, Std.LawfulEqCmp.compare_eq_iff_eq]
  by_cases same : id = module
  · subst same
    simp [found, keeps]
  · simp [same]

end Alike

/-! ## Playing -/

theorem alike_stop (v : Voice α) (when : α) : Alike (v.stop when) v :=
  Alike.mapModules v fun _ _ => rfl

variable [Scalar α]

theorem alike_strike (when : α) (duration : Option α) (v : Voice α) (c : Cable) :
    Alike (v.strike when duration c) v := by
  unfold strike
  split
  · next m line found _ =>
      have driven := Alike.insert found (m.properties_drive c.target when duration)
      exact (Alike.modify _ _ (m.value_drive c.target when duration)).trans driven
  · exact .refl v

theorem alike_bend (v : Voice α) (when : α) (duration : Option α) (b : Bend α) :
    Alike (v.bend when duration b) v := by
  obtain same | ⟨time, pitch, bent⟩ := v.bend_cases when duration b
  · rw [same]
    exact .refl v
  · rw [bent]
    refine Alike.mapModules v fun m name => ?_
    split
    · exact m.value_modify (value_glide when time pitch b.goal) "pitch" name
    · rfl

/-- Starting a voice leaves every own value. -/
theorem alike_start (v : Voice α) (when : α) (duration : Option α) (b : Option (Bend α)) :
    Alike (v.start when duration b) v := by
  have driven := Alike.foldl (alike_strike when duration) v.patch.envelopes v
  have started := (Alike.mapModules (v.patch.envelopes.foldl (strike when duration) v)
    fun m name => by rw [m.properties_start when]).trans driven
  cases b with
  | none => exact started
  | some b => exact (alike_bend _ when duration b).trans started

theorem alike_letGo (when : α) (v : Voice α) (id : String) : Alike (v.letGo when id) v := by
  unfold letGo
  split
  · exact .refl v
  · next m found =>
      have released := Alike.insert found (m.properties_release when)
      exact (Alike.foldl (fun u target => Alike.modify u target (m.value_release when)) _ _).trans
        released

/-- Releasing a voice leaves every own value. -/
theorem alike_release (v : Voice α) (when : α) : Alike (v.release when).1 v :=
  (alike_stop _ _).trans (Alike.foldl (alike_letGo when) _ _)

end Voice
end SynthPatch
