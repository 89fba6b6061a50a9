import SynthPatch.Proofs.Voice.Driving
import SynthPatch.Proofs.Voice.Rebuilding
/-!
# What envelopes have been applied to

Whatever happens to a voice, it keeps its modules, the parts they play, and their properties.  So
what a four-stage envelope has been applied to can be told without looking into it: if the voice was
started at all, these are the properties that the envelope is patched into.

Main results:

- Structure {lit}`Voice.Akin`: two voices have the same modules and properties.
- Theorem {lit}`Voice.akin_play`: a voice stays akin to itself whatever happens to it.
- Theorem {lit}`Voice.moves_play`: what an envelope has been applied to.
-/

namespace SynthPatch

variable {ρ α : Type}

namespace Instance

/-- It plays the part of a four-stage envelope. -/
def hasStages (m : Instance ρ α) : Bool :=
  match m.role with
  | .stages _ => true
  | _ => false

/-- Its kind, and whether it plays the part of a four-stage envelope. -/
def part (m : Instance ρ α) : Kind × Bool :=
  (m.kind, m.hasStages)

/-- The part it plays, and what it has been applied to. -/
def reach (m : Instance ρ α) : (Kind × Bool) × List ρ :=
  (m.part, m.driven)

variable [Scalar α]

theorem lasting_part : Lasting (part (ρ := ρ) (α := α)) where
  modify _ _ _ := rfl
  drive m _ _ _ := by
    cases roleIs : m.role <;> simp only [drive, part, hasStages, roleIs]
  release m _ := by
    cases roleIs : m.role <;> simp only [release, part, hasStages, roleIs]
  start m _ := by
    unfold start
    split <;> rfl
  stop _ _ := rfl

/-- Only a four-stage envelope has settings of that sort. -/
theorem isSome_stages? (m : Instance ρ α) : m.stages?.isSome = m.hasStages := by
  cases roleIs : m.role <;> simp [stages?, hasStages, roleIs]

theorem reach_eq (m : Instance ρ α) :
    m.reach = ((m.profile.1, m.profile.2.1.isSome), m.profile.2.2) := by
  rw [reach, part, ← m.isSome_stages?]
  rfl

/-- An envelope is applied once more; anything else stays as it is. -/
theorem reach_drive (m : Instance ρ α) (target : ρ) (when : α) (duration : Option α) :
    (m.drive target when duration).1.reach.1 = m.reach.1 ∧
      (m.hasStages = true →
        (m.drive target when duration).1.reach.2 = m.reach.2 ++ [target]) := by
  refine ⟨lasting_part.drive m target when duration, fun stages => ?_⟩
  cases roleIs : m.role <;> simp_all [drive, hasStages, reach, driven]

/-- The four-stage envelopes among the instances that are made are those of that kind. -/
theorem hasStages_create {rack : Rack α} {kind : Kind} {table : Option (Wavetable α)}
    {m : Instance ρ α} (h : rack.create kind table = .ok m) :
    m.hasStages = true ↔ m.kind = .adsr := by
  obtain ⟨ports, role, -, plays, rfl⟩ := Rack.create_eq_ok_iff.1 h
  cases kind with
  | custom =>
      obtain ⟨t, -, rfl⟩ := Option.map_eq_some_iff.1 plays
      simp [hasStages]
  | _ =>
      cases plays
      simp [hasStages]

end Instance

namespace Voice

/-! ## Voices with the same modules -/

/-- Two voices of a patch have the same modules, which play the same parts and have the same
properties. -/
structure Akin (v w : Voice α) : Prop where
  patch : v.patch = w.patch
  parts : ∀ id : String, v.modules[id]?.map Instance.part = w.modules[id]?.map Instance.part
  properties : ∀ target, (v.property? target).isSome = (w.property? target).isSome

theorem Akin.trans {u v w : Voice α} (h : Akin u v) (k : Akin v w) : Akin u w :=
  ⟨h.patch.trans k.patch, fun id => (h.parts id).trans (k.parts id),
    fun target => (h.properties target).trans (k.properties target)⟩

/-- Voices that differ at most in what is scheduled have the same properties. -/
theorem Alike.akin {v w : Voice α} (h : Alike v w)
    (parts : ∀ id : String, v.modules[id]?.map Instance.part = w.modules[id]?.map Instance.part) :
    Akin v w := by
  refine ⟨h.patch, parts, fun target => ?_⟩
  have same := congrArg Option.isSome (h.own target)
  rwa [own?, own?, Option.isSome_map, Option.isSome_map] at same

variable [Scalar α]

theorem akin_strike (v : Voice α) (when : α) (duration : Option α) (c : Cable) :
    Akin (v.strike when duration c) v :=
  (alike_strike when duration v c).akin
    fun id => lasting_strike Instance.lasting_part v id when duration c

omit [Scalar α] in
theorem reach_assign (v : Voice α) (settings : List (Endpoint × α)) (id : String) :
    (v.assign settings).modules[id]?.map Instance.reach = v.modules[id]?.map Instance.reach :=
  lasting_foldl v id
    (fun u s => map_modules_modify (fun _ _ _ => rfl) u id s.1 (·.setValue s.2)) settings

theorem akin_assign (v : Voice α) (settings : List (Endpoint × α)) :
    Akin (v.assign settings) v := by
  refine ⟨patch_assign v settings, fun id => ?_, fun target => ?_⟩
  · exact lasting_foldl v id
      (fun u s => lasting_modify Instance.lasting_part u id s.1 (·.setValue s.2)) settings
  · have same := isSome_own?_assign v settings target
    rwa [own?, own?, Option.isSome_map, Option.isSome_map] at same

/-- Where a parameter is changed, values are assigned to properties, or nothing happens. -/
theorem act_tweak_cases (v : Voice α) (name : String) (value : α) (draws : Nat → Draws α) :
    v.act (.tweak name value draws) = v ∨
      ∃ values settings, v.act (.tweak name value draws) = { v with values }.assign settings := by
  cases tweaked : v.tweak name value draws with
  | error e => exact .inl (by simp only [act, tweaked])
  | ok w =>
      have same : v.act (.tweak name value draws) = w := by simp only [act, tweaked]
      rw [same]
      unfold tweak at tweaked
      split at tweaked
      · obtain ⟨settings, -, done⟩ := Outcome.bind_eq_ok_iff.1 tweaked
        cases done
        exact .inr ⟨_, settings, rfl⟩
      · cases tweaked
        exact .inl rfl

omit [Scalar α] in
theorem Akin.refl (v : Voice α) : Akin v v :=
  ⟨rfl, fun _ => rfl, fun _ => rfl⟩

/-- A voice keeps its modules and properties, whatever happens to it. -/
theorem akin_act (v : Voice α) (a : Action α) : Akin (v.act a) v := by
  have lasting := @Instance.lasting_part Endpoint α _
  cases a with
  | start when duration b =>
      exact (alike_start v when duration b).akin
        fun id => lasting_start lasting v id when duration b
  | tweak name value draws =>
      obtain same | ⟨values, settings, same⟩ := v.act_tweak_cases name value draws
      · rw [same]
        exact .refl v
      · rw [same]
        exact (akin_assign { v with values } settings).trans ⟨rfl, fun _ => rfl, fun _ => rfl⟩
  | release when => exact (alike_release v when).akin fun id => lasting_release lasting v id when
  | stop when => exact (alike_stop v when).akin fun id => lasting_stop lasting v id when

theorem akin_play (v : Voice α) (actions : List (Action α)) : Akin (v.play actions) v := by
  induction actions generalizing v with
  | nil => exact .refl v
  | cons a rest ih => exact (ih (v.act a)).trans (akin_act v a)

/-! ## What an envelope has been applied to -/

/-- The module is a four-stage envelope, and has been applied to the property. -/
def Moves (v : Voice α) (id : String) (target : Endpoint) : Prop :=
  ∃ r, v.modules[id]?.map Instance.reach = some r ∧ r.1 = (.adsr, true) ∧ target ∈ r.2

/-- The module is a four-stage envelope, and the property is there. -/
def CanMove (v : Voice α) (id : String) (target : Endpoint) : Prop :=
  v.modules[id]?.map Instance.part = some (.adsr, true) ∧ (v.property? target).isSome = true

variable {v w : Voice α} {id : String} {target : Endpoint}

omit [Scalar α] in
theorem Akin.canMove_iff (h : Akin v w) : v.CanMove id target ↔ w.CanMove id target := by
  rw [CanMove, CanMove, h.parts, h.properties]

omit [Scalar α] in
theorem moves_congr
    (same : v.modules[id]?.map Instance.reach = w.modules[id]?.map Instance.reach) :
    v.Moves id target ↔ w.Moves id target := by
  rw [Moves, Moves, same]

/-- If what bears on the properties of others is the same, so is what an envelope has been applied
to. -/
theorem moves_congr_profile (same : v.profile? id = w.profile? id) :
    v.Moves id target ↔ w.Moves id target := by
  refine moves_congr ?_
  have told (u : Voice α) : u.modules[id]?.map Instance.reach =
      (u.profile? id).map fun p => ((p.1, p.2.1.isSome), p.2.2) := by
    rw [profile?, Option.map_map]
    exact congrArg (u.modules[id]?.map ·) (funext Instance.reach_eq)
  rw [told, told, same]

/-- An envelope that is applied to a property has been applied to it then, and else to what it was
before. -/
theorem moves_strike (v : Voice α) (when : α) (duration : Option α) (c : Cable) :
    (v.strike when duration c).Moves id target ↔ v.Moves id target ∨
      c.source.module = id ∧ c.target = target ∧ v.CanMove id target := by
  unfold strike
  split
  · next m line found there =>
      obtain ⟨part, longer⟩ := m.reach_drive c.target when duration
      by_cases here : c.source.module = id
      · subst here
        have reach (u : Voice α) (f) (n : Instance Endpoint α) :
            (({ u with modules := u.modules.insert c.source.module n } : Voice α).modify c.target f
              ).modules[c.source.module]?.map Instance.reach = some n.reach := by
          rw [map_modules_modify (fun _ _ _ => rfl)]
          simp
        have exists_ : (v.property? c.target).isSome = true := by rw [there]; rfl
        simp only [Moves, CanMove, reach, found, Option.map_some, Option.some.injEq,
          exists_eq_left', part, true_and]
        by_cases stages : m.reach.1 = (.adsr, true)
        · have whole : m.part = (.adsr, true) := stages
          rw [longer (congrArg Prod.snd stages)]
          simp only [stages, whole, true_and, List.mem_append, List.mem_singleton]
          refine or_congr_right ⟨?_, fun h => h.1.symm⟩
          rintro rfl
          exact ⟨rfl, exists_⟩
        · have other : m.part ≠ (.adsr, true) := stages
          simp [stages, other]
      · refine (moves_congr ?_).trans (or_iff_left fun ⟨same, _⟩ => here same).symm
        rw [map_modules_modify (fun _ _ _ => rfl), Std.ExtTreeMap.getElem?_insert,
          if_neg (by simpa using here)]
  · next nothing =>
      refine (or_iff_left ?_).symm
      rintro ⟨rfl, rfl, part, there⟩
      obtain ⟨m, found, -⟩ := Option.map_eq_some_iff.1 part
      obtain ⟨line, there⟩ := Option.isSome_iff_exists.1 there
      exact nothing m line found there

theorem moves_foldl_strike (v : Voice α) (when : α) (duration : Option α) (cables : List Cable) :
    (cables.foldl (strike when duration) v).Moves id target ↔ v.Moves id target ∨
      (∃ c ∈ cables, c.source.module = id ∧ c.target = target) ∧ v.CanMove id target := by
  induction cables generalizing v with
  | nil => simp
  | cons c rest ih =>
      rw [List.foldl_cons, ih, moves_strike, (akin_strike v when duration c).canMove_iff]
      simp only [List.mem_cons, exists_eq_or_imp]
      tauto

theorem profile?_bend (v : Voice α) (when : α) (duration : Option α) (b : Bend α) (id : String) :
    (v.bend when duration b).profile? id = v.profile? id := by
  obtain same | ⟨time, pitch, bent⟩ := v.bend_cases when duration b
  · rw [same]
  · rw [bent]
    refine profile?_mapModules v (fun m => ?_) id
    split
    · exact m.profile_modify (value_glide when time pitch b.goal) "pitch"
    · rfl

/-- A start applies every envelope to the properties it is patched into. -/
theorem moves_start (v : Voice α) (when : α) (duration : Option α) (b : Option (Bend α)) :
    (v.start when duration b).Moves id target ↔ v.Moves id target ∨
      (∃ c ∈ v.patch.envelopes, c.source.module = id ∧ c.target = target) ∧
        v.CanMove id target := by
  rw [← moves_foldl_strike v when duration]
  have started (u : Voice α) :
      Moves { u with modules := u.modules.map fun _ m => m.start when } id target ↔
        u.Moves id target :=
    moves_congr_profile (profile?_mapModules u (fun m => m.profile_start when) id)
  cases b with
  | none => exact started _
  | some b => exact (moves_congr_profile (profile?_bend _ when duration b id)).trans (started _)

theorem profile?_foldl_letGo (v : Voice α) (when : α) (ids : List String) (id : String) :
    (ids.foldl (letGo when) v).profile? id = v.profile? id := by
  induction ids generalizing v with
  | nil => rfl
  | cons first rest ih => rw [List.foldl_cons, ih, profile?_letGo]

theorem profile?_stop (v : Voice α) (when : α) (id : String) :
    (v.stop when).profile? id = v.profile? id :=
  profile?_mapModules v (fun m => m.profile_stop when) id

/-- A release leaves what decides how instances bear on the properties of others. -/
theorem profile?_release (v : Voice α) (when : α) (id : String) :
    (v.release when).1.profile? id = v.profile? id :=
  (profile?_stop _ _ id).trans (profile?_foldl_letGo v when _ id)

/-- Envelopes are applied to properties at a start and at no other time. -/
theorem moves_act (v : Voice α) (a : Action α) :
    (v.act a).Moves id target ↔ v.Moves id target ∨
      (∃ when duration bend, a = .start when duration bend) ∧
        (∃ c ∈ v.patch.envelopes, c.source.module = id ∧ c.target = target) ∧
          v.CanMove id target := by
  cases a with
  | start when duration b =>
      refine (moves_start v when duration b).trans ?_
      simp
  | tweak name value draws =>
      have same : (v.act (.tweak name value draws)).Moves id target ↔ v.Moves id target := by
        obtain same | ⟨values, settings, same⟩ := v.act_tweak_cases name value draws
        · rw [same]
        · rw [same]
          exact moves_congr (reach_assign { v with values } settings id)
      simp [same]
  | release when =>
      refine (moves_congr_profile (profile?_release v when id)).trans ?_
      simp
  | stop when =>
      refine (moves_congr_profile (profile?_stop v when id)).trans ?_
      simp

/-- The voice is started at some time. -/
def Starts (actions : List (Action α)) : Prop :=
  ∃ when duration bend, .start when duration bend ∈ actions

/-- An envelope has been applied to exactly those properties that it is patched into, if the voice
was started at all. -/
theorem moves_play (v : Voice α) (actions : List (Action α)) :
    (v.play actions).Moves id target ↔ v.Moves id target ∨
      Starts actions ∧
        (∃ c ∈ v.patch.envelopes, c.source.module = id ∧ c.target = target) ∧
          v.CanMove id target := by
  induction actions generalizing v with
  | nil => simp [play, Starts]
  | cons a rest ih =>
      have akin := akin_act v a
      have starts : Starts (a :: rest) ↔
          (∃ when duration bend, a = .start when duration bend) ∨ Starts rest := by
        simp only [Starts, List.mem_cons]
        constructor
        · rintro ⟨when, duration, bend, same | mem⟩
          · exact .inl ⟨when, duration, bend, same.symm⟩
          · exact .inr ⟨when, duration, bend, mem⟩
        · rintro (⟨when, duration, bend, same⟩ | ⟨when, duration, bend, mem⟩)
          · exact ⟨when, duration, bend, .inl same.symm⟩
          · exact ⟨when, duration, bend, .inr mem⟩
      refine (ih (v.act a)).trans ?_
      rw [moves_act, akin.patch, akin.canMove_iff, starts, or_assoc, ← or_and_right]

end Voice

end SynthPatch
