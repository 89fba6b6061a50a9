import SynthPatch.Proofs.Tables
import SynthPatch.Proofs.Voice.Reach
/-!
# Voices that differ in orders only

A voice keeps some things in an order that nobody hears: what is connected to an input, and what an
envelope has been applied to.  Two voices that differ in nothing else stay so when both are started
and released in the same way.  Their envelopes need not be applied in the same order either, as long
as no two of them are applied to the same property.

Main results:

- Structures {lit}`Instance.Twin`, {lit}`Voice.Twin`: instances and voices that differ in orders
  only.
- Theorem {lit}`Voice.strike_comm`: envelopes can be applied to different properties in either
  order.
- Theorems {lit}`Voice.Twin.start`, {lit}`Voice.Twin.release`: twins stay twins, and are torn down
  at the same time.
-/

namespace SynthPatch

variable {ρ α : Type}

/-! ## Instances -/

/-- A role without what it has been applied to. -/
def Role.idle : Role ρ α → Role ρ α
  | .stages _ => .stages []
  | .fall floor _ course tail => .fall floor [] course tail
  | role => role

namespace Instance

/-- An instance without what it keeps in an order. -/
def core (m : Instance ρ α) : Instance ρ α :=
  { m with role := m.role.idle, wires := [] }

/-- Two instances that are the same up to the order of what is connected to them, and of what they
have been applied to. -/
structure Twin (m n : Instance ρ α) : Prop where
  kind : m.kind = n.kind
  ports : m.ports = n.ports
  /-- The properties have the same values, and the same schedules. -/
  properties : m.properties = n.properties
  started : m.started = n.started
  stopped : m.stopped = n.stopped
  /-- The roles are the same but for what they have been applied to, -/
  role : m.role.idle = n.role.idle
  /-- and that is the same but for the order. -/
  driven : m.driven.Perm n.driven
  /-- What is connected is the same but for the order. -/
  wires : m.wires.Perm n.wires

section Core

variable (m : Instance ρ α)

theorem isEnvelope_core : m.core.isEnvelope = m.isEnvelope := by
  cases roleIs : m.role <;> simp only [core, isEnvelope, Role.idle, roleIs]

theorem isSource_core : m.core.isSource = m.isSource := by
  cases roleIs : m.role <;> simp only [core, isSource, Role.idle, roleIs]

theorem core_start (when : α) : (m.start when).core = m.core.start when := by
  rw [start, start, isSource_core]
  split <;> rfl

theorem driven_start (when : α) : (m.start when).driven = m.driven := by
  unfold start
  split <;> rfl

theorem wires_start (when : α) : (m.start when).wires = m.wires := by
  unfold start
  split <;> rfl

variable [Scalar α] (target : ρ) (when : α) (duration : Option α)

theorem core_drive :
    (m.drive target when duration).1.core = (m.core.drive target when duration).1.core := by
  cases roleIs : m.role <;> simp only [drive, core, Role.idle, roleIs]
  rfl

theorem change_drive_core :
    (m.core.drive target when duration).2 = (m.drive target when duration).2 := by
  cases roleIs : m.role <;> simp only [drive, core, Role.idle, roleIs] <;> rfl

theorem driven_drive : (m.drive target when duration).1.driven =
    m.driven ++ if m.isEnvelope then [target] else [] := by
  cases roleIs : m.role <;> simp [drive, driven, isEnvelope, roleIs]

theorem wires_drive : (m.drive target when duration).1.wires = m.wires := by
  unfold drive
  split <;> rfl

theorem isEnvelope_drive : (m.drive target when duration).1.isEnvelope = m.isEnvelope := by
  cases roleIs : m.role <;> simp [drive, isEnvelope, roleIs]

theorem core_release : (m.release when).1.core = (m.core.release when).1.core := by
  cases roleIs : m.role <;> simp only [release, core, Role.idle, roleIs]
  rfl

theorem change_release_core : (m.core.release when).2 = (m.release when).2 := by
  cases roleIs : m.role <;> simp only [release, core, Role.idle, roleIs]
  rfl

theorem driven_release : (m.release when).1.driven = m.driven := by
  cases roleIs : m.role <;> simp [release, driven, roleIs]

theorem wires_release : (m.release when).1.wires = m.wires := by
  unfold release
  split <;> rfl

theorem releaseTime?_core : m.core.releaseTime? = m.releaseTime? := by
  cases roleIs : m.role <;> simp only [releaseTime?, core, Role.idle, roleIs]
  rfl

/-- What an envelope changes does not depend on what it has been applied to. -/
theorem change_drive_drive (other : ρ) :
    ((m.drive other when duration).1.drive target when duration).2 =
      (m.drive target when duration).2 := by
  cases roleIs : m.role <;> simp only [drive, roleIs] <;> rfl

/-- An envelope does not hear changes that leave its settings. -/
theorem drive_modify {f : Timeline α → Timeline α} (keeps : ∀ line, (f line).value = line.value)
    (name : String) : (m.modify name f).drive target when duration =
      ((m.drive target when duration).1.modify name f, (m.drive target when duration).2) := by
  have same := value_modify keeps m name
  have role : (m.modify name f).role = m.role := rfl
  cases roleIs : m.role <;> simp only [drive, role, roleIs, stages_congr same, fall_congr same] <;>
    rfl

end Core

/-- Changes of different properties can be made in either order. -/
theorem modify_comm (m : Instance ρ α) {name other : String} (apart : name ≠ other)
    (f g : Timeline α → Timeline α) :
    (m.modify name f).modify other g = (m.modify other g).modify name f := by
  have same : (m.properties.modify name f).modify other g =
      (m.properties.modify other g).modify name f := by
    refine Std.ExtTreeMap.ext_getElem? fun {id} => ?_
    simp only [Std.ExtTreeMap.getElem?_modify, Std.LawfulEqCmp.compare_eq_iff_eq]
    by_cases here : name = id
    · subst here
      simp [apart.symm]
    · by_cases there : other = id
      · subst there
        simp [apart]
      · simp [here, there]
  simp only [modify, same]

namespace Twin

variable {l m n : Instance ρ α}

theorem core_eq (h : m.Twin n) : m.core = n.core := by
  simp only [core, h.kind, h.ports, h.properties, h.started, h.stopped, h.role]

theorem of_core (core : m.core = n.core) (driven : m.driven.Perm n.driven)
    (wires : m.wires.Perm n.wires) : m.Twin n := by
  simp only [Instance.core, Instance.mk.injEq, true_and] at core
  obtain ⟨kind, ports, properties, role, started, stopped⟩ := core
  exact ⟨kind, ports, properties, started, stopped, role, driven, wires⟩

theorem refl (m : Instance ρ α) : m.Twin m :=
  of_core rfl .rfl .rfl

theorem symm (h : m.Twin n) : n.Twin m :=
  of_core h.core_eq.symm h.driven.symm h.wires.symm

theorem trans (h : l.Twin m) (k : m.Twin n) : l.Twin n :=
  of_core (h.core_eq.trans k.core_eq) (h.driven.trans k.driven) (h.wires.trans k.wires)

theorem modify (h : m.Twin n) (name : String) (f : Timeline α → Timeline α) :
    (m.modify name f).Twin (n.modify name f) :=
  of_core (congrArg (·.modify name f) h.core_eq) h.driven h.wires

theorem start (h : m.Twin n) (when : α) : (m.start when).Twin (n.start when) := by
  refine of_core ?_ ?_ ?_
  · rw [core_start, core_start, h.core_eq]
  · rw [driven_start, driven_start]
    exact h.driven
  · rw [wires_start, wires_start]
    exact h.wires

theorem stop (h : m.Twin n) (when : α) : (m.stop when).Twin (n.stop when) :=
  of_core (congrArg (·.stop when) h.core_eq) h.driven h.wires

variable [Scalar α] (h : m.Twin n) (when : α) (duration : Option α)

include h

/-- Twins are applied to a property as twins, and change it in the same way. -/
theorem drive (target : ρ) :
    (m.drive target when duration).1.Twin (n.drive target when duration).1 ∧
      (m.drive target when duration).2 = (n.drive target when duration).2 := by
  have envelope : m.isEnvelope = n.isEnvelope := by
    rw [← isEnvelope_core m, ← isEnvelope_core n, h.core_eq]
  refine ⟨of_core ?_ ?_ ?_, ?_⟩
  · rw [core_drive, h.core_eq, ← core_drive]
  · rw [driven_drive, driven_drive, envelope]
    exact h.driven.append_right _
  · rw [wires_drive, wires_drive]
    exact h.wires
  · rw [← change_drive_core, h.core_eq, change_drive_core]

theorem release :
    (m.release when).1.Twin (n.release when).1 ∧ (m.release when).2 = (n.release when).2 := by
  refine ⟨of_core ?_ ?_ ?_, ?_⟩
  · rw [core_release, h.core_eq, ← core_release]
  · rw [driven_release, driven_release]
    exact h.driven
  · rw [wires_release, wires_release]
    exact h.wires
  · rw [← change_release_core, h.core_eq, change_release_core]

theorem releaseTime?_eq : m.releaseTime? = n.releaseTime? := by
  rw [← releaseTime?_core, h.core_eq, releaseTime?_core]

end Twin

/-- An envelope can be applied to two properties in either order. -/
theorem drive_comm [Scalar α] (m : Instance ρ α) (target other : ρ) (when : α)
    (duration : Option α) :
    ((m.drive target when duration).1.drive other when duration).1.Twin
      ((m.drive other when duration).1.drive target when duration).1 := by
  refine Twin.of_core ?_ ?_ ?_
  · cases roleIs : m.role <;> simp only [drive, core, Role.idle, roleIs]
    rfl
  · simp only [driven_drive, isEnvelope_drive, List.append_assoc]
    exact List.perm_append_comm.append_left m.driven
  · simp only [wires_drive, List.Perm.refl]

end Instance

/-! ## Voices -/

theorem rel_trans {β : Type} {R : β → β → Prop} (trans : ∀ a b c, R a b → R b c → R a c)
    {x y z : Option β} (h : Option.Rel R x y) (k : Option.Rel R y z) : Option.Rel R x z := by
  cases h with
  | none => exact k
  | some first =>
      cases k with
      | some second => exact .some (trans _ _ _ first second)

theorem rel_map {β : Type} {R : β → β → Prop} {f g : β → β} {x y : Option β}
    (h : Option.Rel R x y) (step : ∀ b c, R b c → R (f b) (g c)) :
    Option.Rel R (x.map f) (y.map g) := by
  cases h with
  | none => exact .none
  | some related => exact .some (step _ _ related)

namespace Voice

/-- Two voices that differ in orders only. -/
structure Twin (v w : Voice α) : Prop where
  values : v.values = w.values
  bendFraction : v.bendFraction = w.bendFraction
  modules : ∀ id : String, Option.Rel Instance.Twin v.modules[id]? w.modules[id]?

namespace Twin

variable {u v w : Voice α}

theorem refl (v : Voice α) : v.Twin v where
  values := rfl
  bendFraction := rfl
  modules id := by
    cases v.modules[id]? with
    | none => exact .none
    | some m => exact .some (.refl m)

theorem symm (h : v.Twin w) : w.Twin v where
  values := h.values.symm
  bendFraction := h.bendFraction.symm
  modules id := by
    have related := h.modules id
    revert related
    cases v.modules[id]? <;> cases w.modules[id]? <;> rintro ⟨⟩
    · exact .none
    · next twin => exact .some twin.symm

theorem trans (h : u.Twin v) (k : v.Twin w) : u.Twin w where
  values := h.values.trans k.values
  bendFraction := h.bendFraction.trans k.bendFraction
  modules id :=
    rel_trans (fun _ _ _ before after => before.trans after) (h.modules id) (k.modules id)

section Access

variable (h : v.Twin w)

include h

theorem exists_twin {id : String} {m : Instance Endpoint α} (found : v.modules[id]? = some m) :
    ∃ n, w.modules[id]? = some n ∧ m.Twin n := by
  have related := h.modules id
  rw [found] at related
  revert related
  cases w.modules[id]? with
  | none => rintro ⟨⟩
  | some n =>
      rintro (⟨twin⟩)
      exact ⟨n, rfl, twin⟩

theorem modules_eq_none {id : String} (missing : v.modules[id]? = none) :
    w.modules[id]? = none := by
  have related := h.modules id
  rw [missing] at related
  revert related
  cases w.modules[id]? with
  | none => exact fun _ => rfl
  | some n => rintro ⟨⟩

/-- Twins have the same properties, with the same values and the same schedule. -/
theorem property?_eq (target : Endpoint) : v.property? target = w.property? target := by
  cases found : v.modules[target.module]? with
  | none => rw [property?, property?, found, h.modules_eq_none found]
  | some m =>
      obtain ⟨n, there, twin⟩ := h.exists_twin found
      rw [property?, property?, found, there, Option.bind_some, Option.bind_some,
        twin.properties]

theorem mapModules {f g : Instance Endpoint α → Instance Endpoint α}
    (step : ∀ m n, m.Twin n → (f m).Twin (g n)) :
    Twin { v with modules := v.modules.map fun _ m => f m }
      { w with modules := w.modules.map fun _ m => g m } where
  values := h.values
  bendFraction := h.bendFraction
  modules id := by
    simp only [Std.ExtTreeMap.getElem?_map]
    exact rel_map (h.modules id) step

theorem insert {m n : Instance Endpoint α} (twin : m.Twin n) (id : String) :
    Twin { v with modules := v.modules.insert id m }
      { w with modules := w.modules.insert id n } where
  values := h.values
  bendFraction := h.bendFraction
  modules other := by
    simp only [Std.ExtTreeMap.getElem?_insert]
    split
    · exact .some twin
    · exact h.modules other

theorem modify (target : Endpoint) (f : Timeline α → Timeline α) :
    (v.modify target f).Twin (w.modify target f) where
  values := h.values
  bendFraction := h.bendFraction
  modules id := by
    simp only [Voice.modify, Std.ExtTreeMap.getElem?_modify]
    split
    · exact rel_map (h.modules target.module) fun m n twin => twin.modify target.port f
    · exact h.modules id

omit h in
/-- What keeps twins keeps them however often it happens. -/
theorem foldl {β : Type} {f : Voice α → β → Voice α}
    (step : ∀ v w b, v.Twin w → (f v b).Twin (f w b)) (l : List β) (h : v.Twin w) :
    (l.foldl f v).Twin (l.foldl f w) := by
  induction l generalizing v w with
  | nil => exact h
  | cons b rest ih => exact ih (step v w b h)

/-- Twins have the same modules, and what twin instances share is in both tables. -/
theorem map_modules_eq {β : Type} {g : Instance Endpoint α → β}
    (same : ∀ m n, m.Twin n → g m = g n) :
    (v.modules.map fun _ m => g m) = w.modules.map fun _ m => g m := by
  refine Std.ExtTreeMap.ext_getElem? fun id => ?_
  rw [Std.ExtTreeMap.getElem?_map, Std.ExtTreeMap.getElem?_map]
  cases found : v.modules[id]? with
  | none => rw [h.modules_eq_none found]
  | some m =>
      obtain ⟨n, there, twin⟩ := h.exists_twin found
      rw [there, Option.map_some, Option.map_some, same m n twin]

theorem keys_eq : v.modules.keys = w.modules.keys := by
  have same := h.map_modules_eq (g := fun _ => ()) fun _ _ _ => rfl
  rw [← Std.ExtTreeMap.keys_map (f := fun _ _ => ()), same, Std.ExtTreeMap.keys_map]

end Access

end Twin

/-- Changes of different properties can be made in either order. -/
theorem modify_comm (v : Voice α) {s t : Endpoint} (apart : s ≠ t) (f g : Timeline α → Timeline α) :
    (v.modify s f).modify t g = (v.modify t g).modify s f := by
  have modules : ((v.modify s f).modify t g).modules = ((v.modify t g).modify s f).modules := by
    refine Std.ExtTreeMap.ext_getElem? fun id => ?_
    simp only [modify, Std.ExtTreeMap.getElem?_modify, Std.LawfulEqCmp.compare_eq_iff_eq]
    by_cases first : s.module = id
    · subst first
      by_cases second : t.module = s.module
      · have ports : s.port ≠ t.port := fun port => apart (by cases s; cases t; simp_all)
        simp [second, Function.comp_def, Instance.modify_comm _ ports f g]
      · simp [second]
    · by_cases second : t.module = id
      · subst second
        simp [first]
      · simp [first, second]
  exact congrArg (fun modules => ({ v with modules } : Voice α)) modules

variable [Scalar α] {v w : Voice α} {when : α} {duration : Option α}

/-! ## Applying envelopes -/

/-- The change that a cable from an envelope makes of the property it goes to, if it comes from a
module and goes to a property that are there. -/
def change? (v : Voice α) (when : α) (duration : Option α) (c : Cable) :
    Option (Timeline α → Timeline α) :=
  if (v.property? c.target).isSome then
    v.modules[c.source.module]?.map fun m => (m.drive c.target when duration).2
  else none

/-- What becomes of an instance of the given name if it is where the cable comes from. -/
def atSource (when : α) (duration : Option α) (c : Cable) (id : String)
    (m : Instance Endpoint α) : Instance Endpoint α :=
  if c.source.module = id then (m.drive c.target when duration).1 else m

omit [Scalar α] in
/-- What becomes of an instance of the given name if it is where the cable goes to. -/
def atTarget (c : Cable) (f : Timeline α → Timeline α) (id : String) (m : Instance Endpoint α) :
    Instance Endpoint α :=
  if c.target.module = id then m.modify c.target.port f else m

section Instances

variable {c d : Cable} {f g : Timeline α → Timeline α} (id : String) (m : Instance Endpoint α)

theorem atSource_atTarget (keeps : ∀ line, (f line).value = line.value) :
    atSource when duration d id (atTarget c f id m) =
      atTarget c f id (atSource when duration d id m) := by
  unfold atSource atTarget
  split <;> split <;> simp only [Instance.drive_modify _ _ _ _ keeps]

omit [Scalar α] in
theorem atTarget_comm (apart : c.target ≠ d.target) :
    atTarget d g id (atTarget c f id m) = atTarget c f id (atTarget d g id m) := by
  unfold atTarget
  split_ifs with first second
  · refine m.modify_comm (fun same => apart ?_) f g
    calc c.target = ⟨d.target.module, d.target.port⟩ := by rw [first, ← second, ← same]
      _ = d.target := rfl
  all_goals rfl

theorem atSource_comm : (atSource when duration d id (atSource when duration c id m)).Twin
    (atSource when duration c id (atSource when duration d id m)) := by
  unfold atSource
  split_ifs
  · exact m.drive_comm c.target d.target when duration
  all_goals exact .refl _

variable {m} {n : Instance Endpoint α} (twin : m.Twin n)

include twin

theorem atSource_twin : (atSource when duration c id m).Twin (atSource when duration c id n) := by
  unfold atSource
  split
  · exact (twin.drive when duration c.target).1
  · exact twin

omit [Scalar α] in
theorem atTarget_twin : (atTarget c f id m).Twin (atTarget c f id n) := by
  unfold atTarget
  split
  · exact twin.modify c.target.port f
  · exact twin

end Instances

theorem value_of_change? {c : Cable} {f : Timeline α → Timeline α}
    (change : v.change? when duration c = some f) (line : Timeline α) :
    (f line).value = line.value := by
  unfold change? at change
  split at change
  · obtain ⟨m, -, rfl⟩ := Option.map_eq_some_iff.1 change
    exact m.value_drive c.target when duration line
  · cases change

/-- Where a cable makes no change nothing happens. -/
theorem strike_of_change?_eq_none {c : Cable} (idle : v.change? when duration c = none) :
    v.strike when duration c = v := by
  unfold strike
  split
  · next m line found there =>
      rw [change?, there, found] at idle
      cases idle
  · rfl

theorem getElem?_strike {c : Cable} {f : Timeline α → Timeline α}
    (change : v.change? when duration c = some f) (id : String) :
    (v.strike when duration c).modules[id]? =
      v.modules[id]?.map fun m => atTarget c f id (atSource when duration c id m) := by
  unfold change? at change
  split at change
  · next there =>
      obtain ⟨line, there⟩ := Option.isSome_iff_exists.1 there
      obtain ⟨m, found, rfl⟩ := Option.map_eq_some_iff.1 change
      simp only [strike, found, there, Voice.modify, Std.ExtTreeMap.getElem?_modify,
        Std.ExtTreeMap.getElem?_insert, Std.LawfulEqCmp.compare_eq_iff_eq]
      by_cases source : c.source.module = id
      · subst source
        by_cases target : c.target.module = c.source.module <;>
          simp [atSource, atTarget, target, found]
      · by_cases target : c.target.module = id
        · subst target
          simp [atSource, atTarget, source]
        · simp [atSource, atTarget, source, target]
  · cases change

/-- A cable makes the same change whichever others have been struck. -/
theorem change?_strike (v : Voice α) (c d : Cable) :
    (v.strike when duration d).change? when duration c = v.change? when duration c := by
  cases change : v.change? when duration d with
  | none => rw [strike_of_change?_eq_none change]
  | some f =>
      rw [change?, change?, (akin_strike v when duration d).properties, getElem?_strike change,
        Option.map_map]
      congr 2
      funext m
      simp only [Function.comp_apply, atTarget, atSource]
      have keeps := value_of_change? change
      split <;> split <;> simp only [Instance.drive_modify _ _ _ _ keeps,
        Instance.change_drive_drive]

theorem bendFraction_strike (v : Voice α) (c : Cable) :
    (v.strike when duration c).bendFraction = v.bendFraction := by
  unfold strike
  split <;> rfl

/-- Cables to different properties can be struck in either order. -/
theorem strike_comm (v : Voice α) {c d : Cable} (apart : c.target ≠ d.target) :
    ((v.strike when duration c).strike when duration d).Twin
      ((v.strike when duration d).strike when duration c) := by
  cases first : v.change? when duration c with
  | none =>
      have later := (change?_strike v c d).trans first
      rw [strike_of_change?_eq_none first, strike_of_change?_eq_none later]
      exact .refl _
  | some f =>
      cases second : v.change? when duration d with
      | none =>
          have later := (change?_strike v d c).trans second
          rw [strike_of_change?_eq_none second, strike_of_change?_eq_none later]
          exact .refl _
      | some g =>
          have keepsF := value_of_change? first
          have keepsG := value_of_change? second
          -- An envelope may also be a target of the other: its schedule changes then, but not the
          -- settings from which it makes its change.
          refine ⟨?_, ?_, fun id => ?_⟩
          · rw [(alike_strike when duration _ d).values, (alike_strike when duration _ c).values,
              (alike_strike when duration _ c).values, (alike_strike when duration _ d).values]
          · simp only [bendFraction_strike]
          · rw [getElem?_strike ((change?_strike v d c).trans second), getElem?_strike first,
              getElem?_strike ((change?_strike v c d).trans first), getElem?_strike second,
              Option.map_map, Option.map_map]
            cases v.modules[id]? with
            | none => exact .none
            | some m =>
                refine .some ?_
                simp only [Function.comp_apply, atSource_atTarget id _ keepsF,
                  atSource_atTarget id _ keepsG, atTarget_comm id _ apart]
                exact atTarget_twin id (atTarget_twin id (atSource_comm id m))

namespace Twin

/-- Twins make the same changes. -/
theorem change?_eq (h : v.Twin w) (c : Cable) :
    v.change? when duration c = w.change? when duration c := by
  rw [change?, change?, h.property?_eq]
  cases found : v.modules[c.source.module]? with
  | none => rw [h.modules_eq_none found]
  | some m =>
      obtain ⟨n, there, twin⟩ := h.exists_twin found
      rw [there, Option.map_some, Option.map_some, (twin.drive when duration c.target).2]

theorem strike (h : v.Twin w) (c : Cable) :
    (v.strike when duration c).Twin (w.strike when duration c) := by
  have same := @change?_eq _ _ _ _ when duration h c
  cases change : v.change? when duration c with
  | none =>
      rw [strike_of_change?_eq_none change, strike_of_change?_eq_none (same.symm.trans change)]
      exact h
  | some f =>
      refine ⟨?_, ?_, fun id => ?_⟩
      · rw [(alike_strike when duration v c).values, (alike_strike when duration w c).values,
          h.values]
      · rw [bendFraction_strike, bendFraction_strike, h.bendFraction]
      · rw [getElem?_strike change, getElem?_strike (same.symm.trans change)]
        exact rel_map (h.modules id) fun m n twin => atTarget_twin id (atSource_twin id twin)

/-- Twins stay twins whichever order their cables are struck in, if no two go to one property. -/
theorem foldl_strike {cables others : List Cable} (perm : cables.Perm others)
    (once : (cables.map (·.target)).Nodup) (h : v.Twin w) :
    (cables.foldl (Voice.strike when duration) v).Twin
      (others.foldl (Voice.strike when duration) w) := by
  -- A permutation is a row of swaps, so that it is enough to swap the first two cables.
  induction perm generalizing v w with
  | nil => exact h
  | cons c _ ih => exact ih (List.nodup_cons.1 once).2 (h.strike c)
  | swap c d rest =>
      obtain ⟨new, -⟩ := List.nodup_cons.1 once
      have apart : d.target ≠ c.target := fun same => new (by simp [same])
      have swapped : ((v.strike when duration d).strike when duration c).Twin
          ((w.strike when duration c).strike when duration d) :=
        (strike_comm v apart).trans ((h.strike c).strike d)
      exact swapped.foldl (fun _ _ e twin => twin.strike e) rest
  | trans first second ihFirst ihSecond =>
      have onceToo := ((first.map _).nodup_iff).1 once
      exact (ihFirst once h).trans (ihSecond onceToo (.refl w))

/-- Twins bend alike. -/
theorem bend (h : v.Twin w) (when : α) (duration : Option α) (b : Bend α) :
    (v.bend when duration b).Twin (w.bend when duration b) := by
  have time : v.bendTime? duration b = w.bendTime? duration b := by
    rw [bendTime?, bendTime?, h.bendFraction]
  have pitch : v.values["pitch"]? = w.values["pitch"]? := by rw [h.values]
  unfold Voice.bend
  rw [time, pitch]
  cases w.bendTime? duration b with
  | none => exact h
  | some time =>
      dsimp only
      split
      · exact h
      · refine h.mapModules fun m n twin => ?_
        rw [twin.kind]
        split
        · exact twin.modify "pitch" _
        · exact twin

/-- Twins that are started in the same way are twins, if no two of their envelopes are applied to
one property. -/
theorem start (h : v.Twin w) (perm : v.patch.envelopes.Perm w.patch.envelopes)
    (once : (v.patch.envelopes.map (·.target)).Nodup) (when : α) (duration : Option α)
    (b : Option (Bend α)) : (v.start when duration b).Twin (w.start when duration b) := by
  have struck := @foldl_strike _ _ _ _ when duration _ _ perm once h
  have started := struck.mapModules fun m n twin => twin.start when
  cases b with
  | none => exact started
  | some b => exact started.bend when duration b

/-! ## Releasing -/

/-- Twins let go of their properties as twins. -/
theorem letGo (h : v.Twin w) (when : α) (id : String) :
    (v.letGo when id).Twin (w.letGo when id) := by
  cases found : v.modules[id]? with
  | none =>
      simp only [Voice.letGo, found, h.modules_eq_none found]
      exact h
  | some m =>
      obtain ⟨n, there, twin⟩ := h.exists_twin found
      obtain ⟨released, change⟩ := twin.release when
      rw [letGo_eq v found, letGo_eq w there, change]
      have order : ∀ s ∈ m.driven, ∀ t ∈ m.driven, ∀ u : Voice α,
          (u.modify s (n.release when).2).modify t (n.release when).2 =
            (u.modify t (n.release when).2).modify s (n.release when).2 := by
        intro s _ t _ u
        by_cases same : s = t
        · rw [same]
        · exact u.modify_comm same _ _
      rw [twin.driven.foldl_eq' order]
      exact (h.insert released id).foldl (fun _ _ t twin => twin.modify t _) n.driven

theorem tail_eq (h : v.Twin w) : v.tail = w.tail := by
  have told (u : Voice α) : u.tail = (u.modules.map fun _ m => m.releaseTime?).values.foldl
      (fun longest time => time.elim longest (Scalar.larger longest)) 0 := by
    rw [Named.values_map, List.foldl_map, tail]
    congr 1
    funext longest m
    unfold longer
    cases m.releaseTime? <;> rfl
  rw [told, told, h.map_modules_eq fun m n twin => twin.releaseTime?_eq]

/-- Twins that are released in the same way are twins, and are torn down at the same time. -/
theorem release (h : v.Twin w) (when : α) :
    (v.release when).1.Twin (w.release when).1 ∧ (v.release when).2 = (w.release when).2 := by
  have released : (v.modules.keys.foldl (Voice.letGo when) v).Twin
      (w.modules.keys.foldl (Voice.letGo when) w) := by
    rw [← h.keys_eq]
    exact h.foldl (fun _ _ id twin => twin.letGo when id) v.modules.keys
  simp only [Voice.release, released.tail_eq, and_true]
  exact released.mapModules fun m n twin => twin.stop _

end Twin

end Voice
end SynthPatch
