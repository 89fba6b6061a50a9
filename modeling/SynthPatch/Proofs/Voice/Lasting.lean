import SynthPatch.Voice.Performance
/-!
# What lasts while a voice is played

Starting and releasing a voice remembers times, moves envelopes on and schedules changes of
properties.  Whatever none of this changes in an instance is the same in the voice afterwards.

Main results:

- Structure {lit}`Instance.Lasting`: something about instances that nothing that is played changes.
- Theorems {lit}`Voice.lasting_start`, {lit}`Voice.lasting_release`: it is the same in a voice that
  was started or released.
-/

namespace SynthPatch

variable {ρ α : Type} [Scalar α]

namespace Instance

/-- Something about instances that nothing that is played changes. -/
structure Lasting {β : Type} (g : Instance ρ α → β) : Prop where
  modify : ∀ m name f, g (m.modify name f) = g m
  drive : ∀ m target when duration, g (m.drive target when duration).1 = g m
  release : ∀ m when, g (m.release when).1 = g m
  start : ∀ m when, g (m.start when) = g m
  stop : ∀ m when, g (m.stop when) = g m

theorem lasting_kind : Lasting fun m : Instance ρ α => m.kind where
  modify _ _ _ := rfl
  drive m _ _ _ := by
    unfold Instance.drive
    split <;> rfl
  release m _ := by
    unfold Instance.release
    split <;> rfl
  start m _ := by
    unfold Instance.start
    split <;> rfl
  stop _ _ := rfl

theorem lasting_const {β : Type} (b : β) : Lasting fun _ : Instance ρ α => b :=
  ⟨fun _ _ _ => rfl, fun _ _ _ _ => rfl, fun _ _ => rfl, fun _ _ => rfl, fun _ _ => rfl⟩

end Instance

namespace Voice

omit [Scalar α] in
/-- A change of a property leaves what no such change bears on. -/
theorem map_modules_modify {β : Type} {g : Instance Endpoint α → β}
    (keeps : ∀ m name f, g (m.modify name f) = g m) (v : Voice α) (id : String)
    (target : Endpoint) (f : Timeline α → Timeline α) :
    (v.modify target f).modules[id]?.map g = v.modules[id]?.map g := by
  simp only [modify, Std.ExtTreeMap.getElem?_modify]
  split
  · next same =>
      rw [Std.LawfulEqCmp.compare_eq_iff_eq.1 same, Option.map_map]
      have all : g ∘ (fun m => m.modify target.port f) = g :=
        funext fun m => keeps m target.port f
      rw [all]
  · rfl

section Lasting

variable {β : Type} {g : Instance Endpoint α → β} (lasting : Instance.Lasting g) (v : Voice α)
  (id : String)

include lasting

theorem lasting_modify (target : Endpoint) (f : Timeline α → Timeline α) :
    (v.modify target f).modules[id]?.map g = v.modules[id]?.map g :=
  map_modules_modify lasting.modify v id target f

omit [Scalar α] lasting in
theorem lasting_insert {source : String} {m n : Instance Endpoint α}
    (found : v.modules[source]? = some m) (same : g n = g m) :
    (v.modules.insert source n)[id]?.map g = v.modules[id]?.map g := by
  rw [Std.ExtTreeMap.getElem?_insert]
  split
  · next here =>
      rw [← Std.LawfulEqCmp.compare_eq_iff_eq.1 here, found, Option.map_some, Option.map_some, same]
  · rfl

omit [Scalar α] lasting in
theorem lasting_foldl {γ : Type} {f : Voice α → γ → Voice α}
    (step : ∀ v b, (f v b).modules[id]?.map g = v.modules[id]?.map g) (l : List γ) :
    (l.foldl f v).modules[id]?.map g = v.modules[id]?.map g := by
  induction l generalizing v with
  | nil => rfl
  | cons b rest ih => exact (ih (f v b)).trans (step v b)

theorem lasting_strike (when : α) (duration : Option α) (c : Cable) :
    (v.strike when duration c).modules[id]?.map g = v.modules[id]?.map g := by
  unfold strike
  split
  · next m line found _ =>
      exact (lasting_modify lasting _ id c.target _).trans
        (lasting_insert v id found (lasting.drive m c.target when duration))
  · rfl

theorem lasting_bend (when : α) (duration : Option α) (b : Bend α) :
    (v.bend when duration b).modules[id]?.map g = v.modules[id]?.map g := by
  obtain same | ⟨time, pitch, bent⟩ := v.bend_cases when duration b
  · rw [same]
  · rw [bent, Std.ExtTreeMap.getElem?_map, Option.map_map]
    congr 1
    funext m
    simp only [Function.comp_apply]
    split
    · exact lasting.modify m "pitch" _
    · rfl

/-- It is the same after a voice was started. -/
theorem lasting_start (when : α) (duration : Option α) (b : Option (Bend α)) :
    (v.start when duration b).modules[id]?.map g = v.modules[id]?.map g := by
  have all : (g ∘ fun m => m.start when) = g := funext fun m => lasting.start m when
  have started : (v.start when duration none).modules[id]?.map g =
      (v.patch.envelopes.foldl (strike when duration) v).modules[id]?.map g := by
    simp only [start, Std.ExtTreeMap.getElem?_map, Option.map_map, all]
  have struck := started.trans
    (lasting_foldl v id (fun u c => lasting_strike lasting u id when duration c) _)
  cases b with
  | none => exact struck
  | some b => exact (lasting_bend lasting _ id when duration b).trans struck

theorem lasting_letGo (when : α) (source : String) :
    (v.letGo when source).modules[id]?.map g = v.modules[id]?.map g := by
  unfold letGo
  split
  · rfl
  · next m found =>
      refine (lasting_foldl _ id (fun u t => lasting_modify lasting u id t _) m.driven).trans ?_
      exact lasting_insert v id found (lasting.release m when)

theorem lasting_stop (when : α) :
    (v.stop when).modules[id]?.map g = v.modules[id]?.map g := by
  have all : (g ∘ fun m => m.stop when) = g := funext fun m => lasting.stop m when
  rw [stopped_stop, Option.map_map, all]

/-- It is the same after a voice was released. -/
theorem lasting_release (when : α) :
    (v.release when).1.modules[id]?.map g = v.modules[id]?.map g :=
  (lasting_stop lasting _ id _).trans
    (lasting_foldl v id (fun u source => lasting_letGo lasting u id when source) _)

end Lasting

end Voice

end SynthPatch
