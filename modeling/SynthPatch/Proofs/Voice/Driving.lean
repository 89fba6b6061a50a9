import SynthPatch.Proofs.Voice.Fresh
import SynthPatch.Proofs.Voice.Lasting
import SynthPatch.Proofs.Voice.Playing
import Mathlib.Data.List.Nodup
import Mathlib.Logic.Function.Iterate
/-!
# What an envelope does to the property it drives

When a voice is started each envelope is applied to the properties it is patched into, and when it
is released each envelope lets go of the properties it was applied to.  A property that only one
envelope is patched into is therefore changed twice, by that envelope, whatever the others do in
between.

Main results:

- Definition {lit}`Instance.profile`: what decides how an instance bears on the properties of
  others.
- Theorem {lit}`Voice.Drives.foldl_letGo`: a release lets go of a property as often as it is driven.
- Theorem {lit}`Voice.property?_release_start`: the course of a property that one envelope drives.
-/

namespace SynthPatch

variable {ρ α : Type} [Scalar α]

/-! ## Profiles -/

namespace Instance

/-- The settings of a four-stage envelope, if the instance is one. -/
def stages? (m : Instance ρ α) : Option (Stages α) :=
  match m.role with
  | .stages _ => some m.stages
  | _ => none

/-- What decides how an instance bears on the properties of others: its kind, its settings and what
it drives. -/
def profile (m : Instance ρ α) : Kind × Option (Stages α) × List ρ :=
  (m.kind, m.stages?, m.driven)

/-- Settings are own values. -/
theorem setting_congr {m n : Instance ρ α}
    (same : ∀ name : String, n.properties[name]?.map Timeline.value =
      m.properties[name]?.map Timeline.value) (name : String) :
    n.setting name = m.setting name := by
  have value (k : Instance ρ α) :
      k.setting name = (k.properties[name]?.map Timeline.value).getD 0 := by
    unfold setting
    cases k.properties[name]? <;> rfl
  rw [value, value, same]

theorem stages_congr {m n : Instance ρ α}
    (same : ∀ name : String, n.properties[name]?.map Timeline.value =
      m.properties[name]?.map Timeline.value) : n.stages = m.stages := by
  simp only [stages, setting_congr same]

theorem fall_congr {m n : Instance ρ α}
    (same : ∀ name : String, n.properties[name]?.map Timeline.value =
      m.properties[name]?.map Timeline.value) (floor : α) : n.fall floor = m.fall floor := by
  simp only [fall, setting_congr same]

/-- A change of a property that leaves its own value leaves the profile. -/
theorem profile_modify {f : Timeline α → Timeline α} (keeps : ∀ line, (f line).value = line.value)
    (m : Instance ρ α) (name : String) : (m.modify name f).profile = m.profile := by
  have same : (m.modify name f).stages = m.stages := stages_congr (value_modify keeps m name)
  have settings : (m.modify name f).stages? = m.stages? := by
    unfold stages?
    rw [same]
    rfl
  rw [profile, settings]
  rfl

theorem profile_start (m : Instance ρ α) (when : α) : (m.start when).profile = m.profile := by
  unfold start
  split <;> rfl

theorem profile_stop (m : Instance ρ α) (when : α) : (m.stop when).profile = m.profile :=
  rfl

/-- Letting go leaves the profile. -/
theorem profile_release (m : Instance ρ α) (when : α) : (m.release when).1.profile = m.profile := by
  cases roleIs : m.role with
  | fall floor driven course tail => simp only [release, profile, stages?, Instance.driven, roleIs]
  | _ => simp only [release, roleIs]

/-- An envelope that is applied to a property drives nothing else more often than before. -/
theorem profile_drive (m : Instance ρ α) (target : ρ) (when : α) (duration : Option α) :
    (m.drive target when duration).1.profile = m.profile ∨
      (m.drive target when duration).1.profile = (m.kind, m.stages?, m.driven ++ [target]) := by
  cases roleIs : m.role with
  | stages driven =>
      refine .inr ?_
      simp only [drive, profile, stages?, Instance.driven, roleIs]
      rfl
  | fall floor driven course tail =>
      refine .inr ?_
      simp only [drive, profile, stages?, Instance.driven, roleIs]
  | _ =>
      refine .inl ?_
      simp only [drive, roleIs]

/-- A four-stage envelope that is applied drives the property once more. -/
theorem drive_of_stages {m : Instance ρ α} {s : Stages α} (settings : m.stages? = some s)
    (target : ρ) (when : α) (duration : Option α) :
    (m.drive target when duration).1.profile = (m.kind, some s, m.driven ++ [target]) ∧
      (m.drive target when duration).2 = s.apply when duration := by
  unfold stages? at settings
  split at settings
  · next driven roleIs =>
      cases settings
      simp only [drive, roleIs, profile, stages?, Instance.driven]
      exact ⟨rfl, trivial⟩
  · cases settings

/-- A four-stage envelope that lets go silences what it drives. -/
theorem release_of_stages {m : Instance ρ α} {s : Stages α} (settings : m.stages? = some s)
    (when : α) : (m.release when).2 = s.silence when := by
  unfold stages? at settings
  split at settings
  · next driven roleIs =>
      cases settings
      simp only [release, roleIs]
  · cases settings

end Instance

namespace Voice

/-- The profile of a module. -/
def profile? (v : Voice α) (id : String) : Option (Kind × Option (Stages α) × List Endpoint) :=
  v.modules[id]?.map Instance.profile

section Profile

variable (v : Voice α)

theorem profile?_modify (target : Endpoint) {f : Timeline α → Timeline α}
    (keeps : ∀ line, (f line).value = line.value) (id : String) :
    (v.modify target f).profile? id = v.profile? id := by
  simp only [profile?, modify, Std.ExtTreeMap.getElem?_modify, Std.LawfulEqCmp.compare_eq_iff_eq]
  split
  · next same =>
      subst same
      rw [Option.map_map]
      have all : Instance.profile ∘ (fun m => m.modify target.port f) =
          (Instance.profile : Instance Endpoint α → _) :=
        funext fun m => Instance.profile_modify keeps m target.port
      rw [all]
  · rfl

theorem profile?_mapModules {f : Instance Endpoint α → Instance Endpoint α}
    (keeps : ∀ m, (f m).profile = m.profile) (id : String) :
    profile? { v with modules := v.modules.map fun _ m => f m } id = v.profile? id := by
  simp only [profile?, Std.ExtTreeMap.getElem?_map, Option.map_map]
  have all : Instance.profile ∘ f = Instance.profile := funext keeps
  rw [all]

theorem profile?_insert (source id : String) (m : Instance Endpoint α) :
    profile? { v with modules := v.modules.insert source m } id =
      if source = id then some m.profile else v.profile? id := by
  simp only [profile?, Std.ExtTreeMap.getElem?_insert, Std.LawfulEqCmp.compare_eq_iff_eq]
  split <;> rfl

omit [Scalar α] in
/-- Instances that are replaced by ones with the same properties leave every property. -/
theorem property?_insert {source : String} {m n : Instance Endpoint α}
    (found : v.modules[source]? = some m) (same : n.properties = m.properties)
    (target : Endpoint) :
    property? { v with modules := v.modules.insert source n } target = v.property? target := by
  simp only [property?, Std.ExtTreeMap.getElem?_insert, Std.LawfulEqCmp.compare_eq_iff_eq]
  split
  · next here =>
      rw [← here, found]
      simp [same]
  · rfl

omit [Scalar α] in
theorem property?_mapModules {f : Instance Endpoint α → Instance Endpoint α}
    (keeps : ∀ m, (f m).properties = m.properties) (target : Endpoint) :
    property? { v with modules := v.modules.map fun _ m => f m } target = v.property? target := by
  simp only [property?, Std.ExtTreeMap.getElem?_map]
  cases v.modules[target.module]? with
  | none => rfl
  | some m => simp [keeps]

omit [Scalar α] in
/-- A property that is changed by a row of changes is changed as often as it is named. -/
theorem property?_foldl_modify (targets : List Endpoint) (f : Timeline α → Timeline α)
    (target : Endpoint) :
    (targets.foldl (fun v t => v.modify t f) v).property? target =
      (v.property? target).map (f^[targets.count target]) := by
  induction targets generalizing v with
  | nil => simp
  | cons t rest ih =>
      rw [List.foldl_cons, ih, property?_modify]
      by_cases same : t = target
      · subst same
        rw [if_pos rfl, Option.map_map, List.count_cons_self]
        rfl
      · rw [if_neg same, List.count_cons_of_ne same]

theorem profile?_foldl_modify (targets : List Endpoint) {f : Timeline α → Timeline α}
    (keeps : ∀ line, (f line).value = line.value) (id : String) :
    (targets.foldl (fun v t => v.modify t f) v).profile? id = v.profile? id := by
  induction targets generalizing v with
  | nil => rfl
  | cons t rest ih => rw [List.foldl_cons, ih, profile?_modify v t keeps]

end Profile

/-! ## Letting go -/

section LetGo

variable (v : Voice α)

theorem letGo_eq {id : String} {m : Instance Endpoint α} (found : v.modules[id]? = some m)
    (when : α) : v.letGo when id =
      m.driven.foldl (fun v t => v.modify t (m.release when).2)
        ({ v with modules := v.modules.insert id (m.release when).1 } : Voice α) := by
  simp only [letGo, found]

/-- A module that lets go leaves every profile. -/
theorem profile?_letGo (when : α) (id other : String) :
    (v.letGo when id).profile? other = v.profile? other := by
  cases found : v.modules[id]? with
  | none => simp only [letGo, found]
  | some m =>
      rw [letGo_eq v found, profile?_foldl_modify _ m.driven (m.value_release when),
        profile?_insert, m.profile_release]
      split
      · next same => rw [← same, profile?, found, Option.map_some]
      · rfl

/-- A module that lets go changes a property as often as it drives it. -/
theorem property?_letGo {id : String} {m : Instance Endpoint α}
    (found : v.modules[id]? = some m) (when : α) (target : Endpoint) :
    (v.letGo when id).property? target =
      (v.property? target).map ((m.release when).2^[m.driven.count target]) := by
  rw [letGo_eq v found, property?_foldl_modify,
    property?_insert v found (m.properties_release when)]

end LetGo

/-! ## One envelope -/

/-- Of all envelopes only a four-stage one with the given settings drives the property, so often. -/
structure Drives (v : Voice α) (source : String) (target : Endpoint) (s : Stages α)
    (count : Nat) : Prop where
  envelope : ∃ driven, v.profile? source = some (.adsr, some s, driven) ∧
    driven.count target = count
  others : ∀ id kind settings driven, v.profile? id = some (kind, settings, driven) →
    id ≠ source → target ∉ driven

namespace Drives

variable {v w : Voice α} {source : String} {target : Endpoint} {s : Stages α} {count : Nat}

theorem congr (h : v.Drives source target s count) (same : ∀ id, w.profile? id = v.profile? id) :
    w.Drives source target s count where
  envelope := by
    rw [same]
    exact h.envelope
  others id kind settings driven found := h.others id kind settings driven (by rw [← same, found])

/-- A module that is replaced by one of which the property does not notice anything. -/
theorem insert (h : v.Drives source target s count) {id : String} {m n : Instance Endpoint α}
    (found : v.modules[id]? = some m)
    (same : n.profile = m.profile ∨
      ∃ other, other ≠ target ∧ n.profile = (m.kind, m.stages?, m.driven ++ [other])) :
    Drives { v with modules := v.modules.insert id n } source target s count := by
  have before : v.profile? id = some (m.kind, m.stages?, m.driven) := by
    rw [profile?, found]
    rfl
  obtain ⟨driven, same, counted, member⟩ : ∃ driven, n.profile = (m.kind, m.stages?, driven) ∧
      driven.count target = m.driven.count target ∧ (target ∈ driven ↔ target ∈ m.driven) := by
    rcases same with same | ⟨other, ne, same⟩
    · exact ⟨m.driven, same, rfl, Iff.rfl⟩
    · exact ⟨m.driven ++ [other], same, by simp [ne], by simp [ne.symm]⟩
  refine ⟨?_, ?_⟩
  · obtain ⟨old, here, oldCount⟩ := h.envelope
    by_cases this : id = source
    · subst this
      rw [before] at here
      simp only [Option.some.injEq, Prod.mk.injEq] at here
      obtain ⟨kind, settings, rfl⟩ := here
      refine ⟨driven, ?_, counted.trans oldCount⟩
      rw [profile?_insert, if_pos rfl, same, kind, settings]
    · refine ⟨old, ?_, oldCount⟩
      rw [profile?_insert, if_neg this, here]
  · intro other kind settings others here ne
    rw [profile?_insert] at here
    split at here
    · next this =>
        subst this
        rw [same] at here
        cases here
        rw [member]
        exact h.others id _ _ _ before ne
    · exact h.others other kind settings others here ne

/-- An envelope that is applied to another property. -/
theorem strike_of_ne (h : v.Drives source target s count) {c : Cable} (ne : c.target ≠ target)
    (when : α) (duration : Option α) :
    (v.strike when duration c).Drives source target s count ∧
      (v.strike when duration c).property? target = v.property? target := by
  unfold Voice.strike
  split
  · next m line found there =>
      have keeps := m.value_drive c.target when duration
      refine ⟨?_, ?_⟩
      · have applied := h.insert found (n := (m.drive c.target when duration).1) <|
          (m.profile_drive c.target when duration).imp_right fun same => ⟨c.target, ne, same⟩
        exact applied.congr fun id => profile?_modify _ c.target keeps id
      · rw [property?_modify, if_neg ne]
        exact property?_insert v found (m.properties_drive c.target when duration) target
  · exact ⟨h, rfl⟩

/-- The envelope is applied to the property. -/
theorem strike (h : v.Drives source target s count) {line : Timeline α}
    (there : v.property? target = some line) {c : Cable} (comes : c.source.module = source)
    (goes : c.target = target) (when : α) (duration : Option α) :
    (v.strike when duration c).Drives source target s (count + 1) ∧
      (v.strike when duration c).property? target = some (s.apply when duration line) := by
  subst comes goes
  obtain ⟨driven, here, counted⟩ := h.envelope
  obtain ⟨m, found, same⟩ := Option.map_eq_some_iff.1 here
  simp only [Instance.profile, Prod.mk.injEq] at same
  obtain ⟨kind, settings, rfl⟩ := same
  obtain ⟨profile, change⟩ := Instance.drive_of_stages settings c.target when duration
  have keeps := m.value_drive c.target when duration
  have struck : v.strike when duration c =
      ({ v with modules := v.modules.insert c.source.module (m.drive c.target when duration).1 } :
        Voice α).modify c.target (m.drive c.target when duration).2 := by
    simp only [Voice.strike, found, there]
  rw [struck]
  refine ⟨⟨?_, ?_⟩, ?_⟩
  · refine ⟨m.driven ++ [c.target], ?_, by simp [counted]⟩
    rw [profile?_modify _ c.target keeps, profile?_insert, if_pos rfl, profile, kind]
  · intro id kind settings others found' ne
    rw [profile?_modify _ c.target keeps, profile?_insert, if_neg (Ne.symm ne)] at found'
    exact h.others id kind settings others found' ne
  · rw [property?_modify, if_pos rfl,
      property?_insert v found (m.properties_drive c.target when duration), there, change]
    rfl

/-- Envelopes that are applied to other properties, one after the other. -/
theorem foldl_strike (h : v.Drives source target s count) {cables : List Cable}
    (ne : ∀ c ∈ cables, c.target ≠ target) (when : α) (duration : Option α) :
    (cables.foldl (Voice.strike when duration) v).Drives source target s count ∧
      (cables.foldl (Voice.strike when duration) v).property? target = v.property? target := by
  induction cables generalizing v with
  | nil => exact ⟨h, rfl⟩
  | cons c rest ih =>
      obtain ⟨applied, same⟩ := h.strike_of_ne (ne c List.mem_cons_self) when duration
      obtain ⟨all, sameToo⟩ := ih applied fun c' mem => ne c' (List.mem_cons_of_mem c mem)
      exact ⟨all, sameToo.trans same⟩

/-- A module that lets go leaves every profile, and changes the property as often as it drives
it. -/
theorem letGo (h : v.Drives source target s count) {id : String} {m : Instance Endpoint α}
    (found : v.modules[id]? = some m) (when : α) :
    (v.letGo when id).Drives source target s count ∧
      (v.letGo when id).property? target =
        (v.property? target).map ((m.release when).2^[m.driven.count target]) :=
  ⟨h.congr (v.profile?_letGo when id), v.property?_letGo found when target⟩

/-- A release silences the property as often as the envelope that drives it is asked to let go. -/
theorem foldl_letGo (h : v.Drives source target s 1) (when : α) (ids : List String) :
    (ids.foldl (Voice.letGo when) v).Drives source target s 1 ∧
      (ids.foldl (Voice.letGo when) v).property? target =
        (v.property? target).map ((s.silence when)^[ids.count source]) := by
  induction ids generalizing v with
  | nil =>
      refine ⟨h, ?_⟩
      rw [List.count_nil, Function.iterate_zero, Option.map_id]
      rfl
  | cons id rest ih =>
      by_cases this : id = source
      · subst this
        obtain ⟨driven, here, counted⟩ := h.envelope
        obtain ⟨m, found, same⟩ := Option.map_eq_some_iff.1 here
        simp only [Instance.profile, Prod.mk.injEq] at same
        obtain ⟨-, settings, rfl⟩ := same
        obtain ⟨left, once⟩ := h.letGo found when
        obtain ⟨all, others⟩ := ih left
        refine ⟨all, ?_⟩
        rw [List.foldl_cons, others, once, counted, Instance.release_of_stages settings,
          Option.map_map, List.count_cons_self]
        rfl
      · rw [List.count_cons_of_ne this]
        cases found : v.modules[id]? with
        | none =>
            have same : v.letGo when id = v := by simp only [Voice.letGo, found]
            rw [List.foldl_cons, same]
            exact ih h
        | some m =>
            have profile : v.profile? id = some m.profile := by
              rw [profile?, found, Option.map_some]
            have free : m.driven.count target = 0 :=
              List.count_eq_zero.2 (h.others id _ _ _ profile this)
            obtain ⟨left, same⟩ := h.letGo found when
            rw [free, Function.iterate_zero, Option.map_id] at same
            obtain ⟨all, others⟩ := ih left
            refine ⟨all, ?_⟩
            rw [List.foldl_cons, others, same]
            rfl

end Drives

/-! ## A note -/

section Note

variable {v : Voice α} {c : Cable} {line : Timeline α} {s : Stages α}

/-- A voice that is started applies the one envelope to the property. -/
theorem Drives.start (h : v.Drives c.source.module c.target s 0)
    (only : v.patch.envelopes.filter (·.target = c.target) = [c])
    (there : v.property? c.target = some line) (when : α) (duration : Option α) :
    (v.start when duration none).Drives c.source.module c.target s 1 ∧
      (v.start when duration none).property? c.target = some (s.apply when duration line) := by
  obtain ⟨front, back, split, before, -, after⟩ := List.filter_eq_cons_iff.1 only
  have frontNe : ∀ c' ∈ front, c'.target ≠ c.target := by
    intro c' mem
    simpa using before c' mem
  have backNe : ∀ c' ∈ back, c'.target ≠ c.target := by
    intro c' mem
    simpa using List.filter_eq_nil_iff.1 after c' mem
  obtain ⟨first, same⟩ := h.foldl_strike frontNe when duration
  obtain ⟨struck, applied⟩ := first.strike (same.trans there) rfl rfl when duration
  obtain ⟨all, sameToo⟩ := struck.foldl_strike backNe when duration
  have started : v.start when duration none =
      { back.foldl (Voice.strike when duration)
          ((front.foldl (Voice.strike when duration) v).strike when duration c) with
        modules := (back.foldl (Voice.strike when duration)
          ((front.foldl (Voice.strike when duration) v).strike when duration c)).modules.map
            fun _ m => m.start when } := by
    simp only [Voice.start, split, List.foldl_append, List.foldl_cons]
  rw [started]
  refine ⟨all.congr (profile?_mapModules _ fun m => m.profile_start when), ?_⟩
  rw [property?_mapModules _ fun m => m.properties_start when, sameToo, applied]

/-- A voice that is released silences the property. -/
theorem Drives.release (h : v.Drives c.source.module c.target s 1) (when : α) :
    (v.release when).1.Drives c.source.module c.target s 1 ∧
      (v.release when).1.property? c.target = (v.property? c.target).map (s.silence when) := by
  have once : v.modules.keys.count c.source.module = 1 := by
    obtain ⟨driven, here, -⟩ := h.envelope
    obtain ⟨m, found, -⟩ := Option.map_eq_some_iff.1 here
    have mem : c.source.module ∈ v.modules.keys :=
      Std.ExtTreeMap.mem_keys.2 (Std.ExtTreeMap.getElem?_eq_some_iff.1 found).1
    exact List.count_eq_one_of_mem Std.ExtTreeMap.nodup_keys mem
  obtain ⟨released, silenced⟩ := h.foldl_letGo when v.modules.keys
  rw [once, Function.iterate_one] at silenced
  refine ⟨released.congr (profile?_mapModules _ fun m => m.profile_stop _), ?_⟩
  exact (property?_mapModules _ (fun _ => Instance.properties_stop _ _) _).trans silenced

/-- In a fresh voice every four-stage envelope is yet to drive a property. -/
theorem Fresh.drives (fresh : v.Fresh) {m : Instance Endpoint α} {source : String}
    (found : v.modules[source]? = some m) (kind : m.kind = .adsr) (target : Endpoint) :
    v.Drives source target m.stages 0 := by
  have idle := fresh source m found
  have settings : m.stages? = some m.stages := by
    rw [Instance.stages?, idle.stages kind]
  refine ⟨⟨[], ?_, List.count_nil⟩, ?_⟩
  · rw [profile?, found, Option.map_some, Instance.profile, kind, settings, idle.driven]
  · intro id kind settings driven here _
    obtain ⟨n, there, same⟩ := Option.map_eq_some_iff.1 here
    cases same
    rw [(fresh id n there).driven]
    exact List.not_mem_nil

/-- In a fresh voice that is started and released, a property that one envelope is patched into has
been through a note of that envelope and nothing else. -/
theorem property?_release_start (fresh : v.Fresh)
    (only : v.patch.envelopes.filter (·.target = c.target) = [c]) {when stop : α}
    {duration : Option α} {m : Instance Endpoint α}
    (found : ((v.start when duration none).release stop).1.modules[c.source.module]? = some m)
    (kind : m.kind = .adsr)
    (there : ((v.start when duration none).release stop).1.property? c.target = some line) :
    ∃ value, line = m.stages.silence stop (m.stages.apply when duration (.constant value)) := by
  -- The envelope and the property were there before, and nothing was scheduled for the property.
  have started := lasting_start Instance.lasting_kind v c.source.module when duration none
  have kinds := (lasting_release Instance.lasting_kind (v.start when duration none)
    c.source.module stop).trans started
  rw [found, Option.map_some, eq_comm] at kinds
  obtain ⟨built, foundFirst, sameKind⟩ := Option.map_eq_some_iff.1 kinds
  have owns := ((alike_release (v.start when duration none) stop).trans
    (alike_start v when duration none)).own c.target
  rw [own?, there, Option.map_some, eq_comm] at owns
  obtain ⟨bare, thereFirst, -⟩ := Option.map_eq_some_iff.1 owns
  obtain ⟨host, hosts, holds⟩ := Option.bind_eq_some_iff.1 thereFirst
  have nothing : bare = .constant bare.value := by
    have none := (fresh _ host hosts).unscheduled _ bare holds
    cases bare
    cases none
    rfl
  -- It is applied to the property once, and lets go of it once.
  have idle := fresh.drives foundFirst (sameKind.trans kind) c.target
  obtain ⟨driving, applied⟩ := idle.start only thereFirst when duration
  obtain ⟨driven, silenced⟩ := driving.release stop
  rw [there, applied, Option.map_some, Option.some.injEq] at silenced
  have settings : m.stages = built.stages := by
    obtain ⟨_, profile, -⟩ := driven.envelope
    rw [profile?, found, Option.map_some, Option.some.injEq, Instance.profile, Prod.mk.injEq,
      Prod.mk.injEq] at profile
    have same := profile.2.1
    unfold Instance.stages? at same
    split at same
    · exact Option.some.inj same
    · cases same
  refine ⟨bare.value, ?_⟩
  rw [silenced, settings, ← nothing]

end Note

end Voice
end SynthPatch
