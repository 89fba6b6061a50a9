import SynthPatch.Proofs.Module.Falling
import SynthPatch.Proofs.Voice.Releasing
/-!
# Tails of decaying envelopes

A decaying envelope keeps a course of its own beside the properties it is applied to.  A note takes
that course back to silence and lets it rise and fall anew; a release leaves it, and reckons from it
how long the envelope will go on.  A voice is not torn down before that time is over, so that the
envelope has faded by then if it reckoned rightly: it does once it falls, and does not while it
rises.

Main results:

- Structure {lit}`Descent`: a decaying envelope as it goes on.
- Theorems {lit}`Voice.descent?_strike`, {lit}`Voice.descent?_release`: what a start and a release
  make of it.
- Theorem {lit}`Voice.fades_release`: which envelopes have faded when their tail is over, and with
  it when their voice is torn down.
-/

namespace SynthPatch

variable {ρ α : Type} [Scalar α]

/-- A decaying envelope as it goes on. -/
structure Descent (α : Type) where
  /-- Its settings. -/
  shape : Fall α
  /-- Its own level. -/
  course : Timeline α
  /-- How long it goes on after its last release. -/
  tail : α

namespace Descent

/-- Another note begins. -/
def strike (d : Descent α) (when : α) : Descent α :=
  { d with course := d.shape.apply when d.course }

/-- The envelope is let go of. -/
def release (d : Descent α) (when : α) : Descent α :=
  { d with tail := d.shape.tailFrom (d.course.valueAt when) }

/-- The last note began at a time, with the settings that the envelope has. -/
def Struck (d : Descent α) (when : α) : Prop :=
  ∃ before, d.course = d.shape.apply when before

theorem shape_strike (d : Descent α) (when : α) : (d.strike when).shape = d.shape := by
  simp only [strike]

theorem struck_strike (d : Descent α) (when : α) : (d.strike when).Struck when := by
  refine ⟨d.course, ?_⟩
  simp only [strike]

end Descent

/-! ## Instances -/

namespace Instance

/-- How a decaying envelope goes on, if the instance is one. -/
def descent? (m : Instance ρ α) : Option (Descent α) :=
  match m.role with
  | .fall floor _ course tail => some ⟨m.fall floor, course, tail⟩
  | _ => none

section Descent

variable {m : Instance ρ α} {d : Descent α}

theorem levelAt?_of_descent (h : m.descent? = some d) (t : α) :
    m.levelAt? t = some (d.course.valueAt t) := by
  unfold descent? at h
  split at h
  · next roleIs =>
      cases h
      simp only [levelAt?, roleIs]
  · cases h

theorem releaseTime?_of_descent (h : m.descent? = some d) : m.releaseTime? = some d.tail := by
  unfold descent? at h
  split at h
  · next roleIs =>
      cases h
      simp only [releaseTime?, roleIs]
  · cases h

variable (m)

/-- A change of a property that leaves its own value leaves the settings. -/
theorem descent?_modify {f : Timeline α → Timeline α} (keeps : ∀ line, (f line).value = line.value)
    (name : String) : (m.modify name f).descent? = m.descent? := by
  have shape (floor : α) : (m.modify name f).fall floor = m.fall floor :=
    fall_congr (value_modify keeps m name) floor
  unfold descent?
  simp only [shape]
  rfl

theorem descent?_start (when : α) : (m.start when).descent? = m.descent? := by
  unfold start
  split <;> rfl

theorem descent?_stop (when : α) : (m.stop when).descent? = m.descent? :=
  rfl

/-- A decaying envelope that is applied to a property begins another note. -/
theorem descent?_drive (target : ρ) (when : α) (duration : Option α) :
    (m.drive target when duration).1.descent? = m.descent?.map (·.strike when) := by
  cases roleIs : m.role with
  | fall floor driven course tail =>
      simp only [drive, descent?, roleIs]
      rfl
  | _ => simp only [drive, descent?, roleIs, Option.map_none]

theorem descent?_release (when : α) :
    (m.release when).1.descent? = m.descent?.map (·.release when) := by
  cases roleIs : m.role with
  | fall floor driven course tail =>
      simp only [release, descent?, roleIs]
      rfl
  | _ => simp only [release, descent?, roleIs, Option.map_none]

end Descent

/-! ## Fading -/

section Exact

variable {m : Instance ρ ℝ} {d : Descent ℝ} {s when : ℝ}

/-- The envelope counts as silent once the tail is over that it told when it was let go of. -/
def Fades (m : Instance ρ ℝ) (floor when : ℝ) : Prop :=
  ∃ tail, m.releaseTime? = some tail ∧
    ∀ t, when + tail ≤ t → ∃ level, m.levelAt? t = some level ∧ level ≤ floor

theorem fades_iff (h : m.descent? = some d) (floor : ℝ) :
    m.Fades floor when ↔ ∀ t, when + d.tail ≤ t → d.course.valueAt t ≤ floor := by
  simp [Fades, releaseTime?_of_descent h, levelAt?_of_descent h]

/-- An envelope that is let go of fades in its tail exactly if it has risen by then, or never rises
above its floor. -/
theorem fades_iff_of_release (proper : d.shape.Proper) (struck : d.Struck s) (begun : s ≤ when)
    (h : m.descent? = some (d.release when)) :
    m.Fades d.shape.floor when ↔
      d.shape.level ≤ d.shape.floor ∨ s + d.shape.attack ≤ when := by
  obtain ⟨before, course⟩ := struck
  have level (t : ℝ) (sounding : s ≤ t) : d.course.valueAt t = d.shape.course (t - s) := by
    rw [course, proper.valueAt_apply before sounding]
  have nonneg := proper.tailFrom_nonneg (d.shape.course (when - s))
  have tail : (d.release when).tail = d.shape.tailFrom (d.shape.course (when - s)) := by
    rw [← level when begun]
    rfl
  have risen : s + d.shape.attack ≤ when ↔ d.shape.attack ≤ when - s := le_sub_iff_add_le'.symm
  rw [fades_iff h, tail, risen, ← proper.silent_after_tail_iff (sub_nonneg.2 begun)]
  constructor
  · intro silent later past
    have heard := silent (s + later) (by linarith)
    rwa [Descent.release, level _ (by linarith), add_sub_cancel_left] at heard
  · intro silent t past
    rw [Descent.release, level t (by linarith)]
    exact silent (t - s) (by linarith)

end Exact

end Instance

namespace Voice

/-! ## Voices -/

/-- How a decaying envelope of the voice goes on. -/
def descent? (v : Voice α) (id : String) : Option (Descent α) :=
  v.modules[id]?.bind Instance.descent?

section Descent

variable (v : Voice α) (id : String)

theorem descent?_modify (target : Endpoint) {f : Timeline α → Timeline α}
    (keeps : ∀ line, (f line).value = line.value) :
    (v.modify target f).descent? id = v.descent? id := by
  simp only [descent?, modify, Std.ExtTreeMap.getElem?_modify, Std.LawfulEqCmp.compare_eq_iff_eq]
  split
  · next here =>
      subst here
      cases v.modules[target.module]? with
      | none => rfl
      | some m => exact m.descent?_modify keeps target.port
  · rfl

theorem descent?_insert (source : String) (m : Instance Endpoint α) :
    descent? { v with modules := v.modules.insert source m } id =
      if source = id then m.descent? else v.descent? id := by
  simp only [descent?, Std.ExtTreeMap.getElem?_insert, Std.LawfulEqCmp.compare_eq_iff_eq]
  split <;> rfl

theorem descent?_mapModules {f : Instance Endpoint α → Instance Endpoint α}
    (keeps : ∀ m, (f m).descent? = m.descent?) :
    descent? { v with modules := v.modules.map fun _ m => f m } id = v.descent? id := by
  simp only [descent?, Std.ExtTreeMap.getElem?_map]
  cases v.modules[id]? with
  | none => rfl
  | some m => exact keeps m

/-- An envelope that is applied to a property begins another note. -/
theorem descent?_strike (when : α) (duration : Option α) (c : Cable) :
    (v.strike when duration c).descent? id =
      if c.source.module = id ∧ (v.property? c.target).isSome then
        (v.descent? id).map (·.strike when)
      else v.descent? id := by
  unfold strike
  split
  · next m line found there =>
      rw [descent?_modify _ id c.target (m.value_drive c.target when duration), descent?_insert,
        m.descent?_drive]
      by_cases here : c.source.module = id
      · subst here
        simp [descent?, found, there]
      · simp [here]
  · next nothing =>
      split
      · next both =>
          obtain ⟨rfl, there⟩ := both
          obtain ⟨line, there⟩ := Option.isSome_iff_exists.1 there
          have missing : v.modules[c.source.module]? = none := by
            cases found : v.modules[c.source.module]? with
            | none => rfl
            | some m => exact absurd there (nothing m line found)
          simp [descent?, missing]
      · rfl

theorem descent?_bend (when : α) (duration : Option α) (b : Bend α) :
    (v.bend when duration b).descent? id = v.descent? id := by
  obtain same | ⟨time, pitch, bent⟩ := v.bend_cases when duration b
  · rw [same]
  · rw [bent]
    refine descent?_mapModules v id fun m => ?_
    split
    · exact m.descent?_modify (value_glide when time pitch b.goal) "pitch"
    · rfl

/-- An envelope that lets go reckons its tail. -/
theorem descent?_letGo (when : α) (source : String) :
    (v.letGo when source).descent? id =
      if source = id then (v.descent? id).map (·.release when) else v.descent? id := by
  cases found : v.modules[source]? with
  | none =>
      have same : v.letGo when source = v := by simp only [letGo, found]
      rw [same]
      split
      · next here =>
          subst here
          simp [descent?, found]
      · rfl
  | some m =>
      have folded (targets : List Endpoint) (u : Voice α) :
          (targets.foldl (fun v t => v.modify t (m.release when).2) u).descent? id =
            u.descent? id := by
        induction targets generalizing u with
        | nil => rfl
        | cons t rest ih => rw [List.foldl_cons, ih, descent?_modify u id t (m.value_release when)]
      rw [letGo_eq v found, folded, descent?_insert, m.descent?_release]
      split
      · next here =>
          subst here
          simp [descent?, found]
      · rfl

/-- Of the envelopes that let go each reckons its tail, from a course that the others leave. -/
theorem descent?_foldl_letGo (when : α) (ids : List String) (once : ids.Nodup) :
    (ids.foldl (letGo when) v).descent? id =
      if id ∈ ids then (v.descent? id).map (·.release when) else v.descent? id := by
  induction ids generalizing v with
  | nil => simp
  | cons first rest ih =>
      obtain ⟨new, others⟩ := List.nodup_cons.1 once
      rw [List.foldl_cons, ih _ others, descent?_letGo]
      by_cases here : first = id
      · subst here
        simp [new]
      · simp [here, Ne.symm here]

/-- A voice that is released leaves the course of every envelope, and has it reckon its tail. -/
theorem descent?_release (when : α) :
    (v.release when).1.descent? id = (v.descent? id).map (·.release when) := by
  have stopped : (v.release when).1.descent? id =
      (v.modules.keys.foldl (letGo when) v).descent? id :=
    descent?_mapModules _ id fun m => m.descent?_stop _
  rw [stopped, descent?_foldl_letGo v id when _ Std.ExtTreeMap.nodup_keys]
  split
  · rfl
  · next absent =>
      have missing : v.modules[id]? = none := by
        rw [Std.ExtTreeMap.mem_keys] at absent
        exact Std.ExtTreeMap.getElem?_eq_none absent
      simp [descent?, missing]

end Descent

/-! ## Notes -/

/-- The module is patched into a property that is there. -/
def IsPatched (v : Voice α) (id : String) : Prop :=
  ∃ c ∈ v.patch.envelopes, c.source.module = id ∧ (v.property? c.target).isSome = true

section Notes

variable {v : Voice α} {id : String} {d : Descent α} {when : α} {duration : Option α}

/-- An envelope that is applied to some property has been struck, whatever else is applied then. -/
theorem struck_foldl_strike {cables : List Cable}
    (patched : ∃ c ∈ cables, c.source.module = id ∧ (v.property? c.target).isSome = true)
    (h : (cables.foldl (strike when duration) v).descent? id = some d) : d.Struck when := by
  induction cables using List.reverseRecOn generalizing d with
  | nil => simp at patched
  | append_singleton front last ih =>
      let driven := front.foldl (strike when duration) v
      have same (target : Endpoint) :
          (driven.property? target).isSome = (v.property? target).isSome := by
        have own := (Alike.foldl (alike_strike when duration) front v).own target
        have present := congrArg Option.isSome own
        rwa [own?, own?, Option.isSome_map, Option.isSome_map] at present
      rw [List.foldl_append, List.foldl_cons, List.foldl_nil, descent?_strike, same] at h
      split at h
      · obtain ⟨before, -, rfl⟩ := Option.map_eq_some_iff.1 h
        exact before.struck_strike when
      · next other =>
          obtain ⟨c, mem, sourceIs, there⟩ := patched
          rcases List.mem_append.1 mem with mem | mem
          · exact ih ⟨c, mem, sourceIs, there⟩ h
          · obtain rfl := List.mem_singleton.1 mem
            exact absurd ⟨sourceIs, there⟩ other

/-- A start strikes every envelope that is patched into a property. -/
theorem struck_start (patched : v.IsPatched id) {b : Option (Bend α)}
    (h : (v.start when duration b).descent? id = some d) : d.Struck when := by
  have started : (v.start when duration none).descent? id =
      (v.patch.envelopes.foldl (strike when duration) v).descent? id :=
    descent?_mapModules _ id fun m => m.descent?_start when
  have folded : (v.patch.envelopes.foldl (strike when duration) v).descent? id = some d := by
    cases b with
    | none => rw [← started, h]
    | some b =>
        rw [← started, ← descent?_bend _ id when duration b]
        exact h
  exact struck_foldl_strike patched folded

/-- The value of a property has no part in the course of an envelope. -/
theorem course_modify (v : Voice α) (id : String) (target : Endpoint) (x : α) :
    ((v.modify target (·.setValue x)).descent? id).map (·.course) =
      (v.descent? id).map (·.course) := by
  have kept := map_modules_modify (g := fun m => m.descent?.map (·.course))
    (fun m _ _ => by cases roleIs : m.role <;> simp [Instance.descent?, Instance.modify, roleIs])
    v id target (·.setValue x)
  have whole (u : Voice α) : (u.descent? id).map (·.course) =
      (u.modules[id]?.map fun m => m.descent?.map (·.course)).join := by
    rw [descent?]
    cases u.modules[id]? <;> rfl
  rw [whole, whole, kept]

theorem course_assign (v : Voice α) (id : String) (settings : List (Endpoint × α)) :
    ((v.assign settings).descent? id).map (·.course) = (v.descent? id).map (·.course) := by
  induction settings generalizing v with
  | nil => rfl
  | cons s rest ih => exact (ih (v.modify s.1 (·.setValue s.2))).trans (course_modify v id s.1 s.2)

/-- Only a start moves the course of an envelope. -/
theorem course_act {a : Action α} (other : ∀ when duration bend, a ≠ .start when duration bend) :
    ((v.act a).descent? id).map (·.course) = (v.descent? id).map (·.course) := by
  cases a with
  | start when duration b => exact absurd rfl (other when duration b)
  | tweak name value draws =>
      obtain same | ⟨values, settings, same⟩ := v.act_tweak_cases name value draws
      · rw [same]
      · rw [same]
        exact course_assign { v with values } id settings
  | release when =>
      rw [act, descent?_release, Option.map_map]
      rfl
  | stop when =>
      refine congrArg (Option.map _) ?_
      exact descent?_mapModules v id fun m => m.descent?_stop when

theorem course_play {actions : List (Action α)} (sounding : ¬ Starts actions) :
    ((v.play actions).descent? id).map (·.course) = (v.descent? id).map (·.course) := by
  induction actions generalizing v with
  | nil => rfl
  | cons a rest ih =>
      have later : ¬ Starts rest := fun ⟨when, duration, bend, mem⟩ =>
        sounding ⟨when, duration, bend, List.mem_cons_of_mem a mem⟩
      refine (ih later).trans (course_act fun when duration bend same => ?_)
      exact sounding ⟨when, duration, bend, same ▸ List.mem_cons_self⟩

/-- An envelope that has been struck stays so until the next start, if it keeps its settings. -/
theorem struck_play {b : Option (Bend α)} {actions : List (Action α)} {f : Fall α}
    (patched : v.IsPatched id) (sounding : ¬ Starts actions)
    (before : ((v.start when duration b).descent? id).map (·.shape) = some f)
    (after : (((v.start when duration b).play actions).descent? id).map (·.shape) = some f) :
    ∃ d, ((v.start when duration b).play actions).descent? id = some d ∧ d.shape = f ∧
      d.Struck when := by
  obtain ⟨first, going, rfl⟩ := Option.map_eq_some_iff.1 before
  obtain ⟨last, here, shape⟩ := Option.map_eq_some_iff.1 after
  have course := @course_play _ _ (v.start when duration b) id _ sounding
  rw [going, here, Option.map_some, Option.map_some, Option.some.injEq] at course
  obtain ⟨old, same⟩ := struck_start patched going
  exact ⟨last, here, shape, old, by rw [course, same, shape]⟩

/-- An envelope of a voice that is released is there, and has reckoned its tail. -/
theorem exists_descent_of_release (h : v.descent? id = some d) (when : α) :
    ∃ m, (v.release when).1.modules[id]? = some m ∧ m.descent? = some (d.release when) := by
  have told := v.descent?_release id when
  rw [h, Option.map_some] at told
  exact Option.bind_eq_some_iff.1 told

end Notes

/-! ## The end of a voice -/

section Exact

/-- A voice is not torn down while one of its envelopes says that it goes on. -/
theorem releaseTime_le_teardown {v : Voice ℝ} {when time : ℝ} {id : String}
    {m : Instance Endpoint ℝ} (found : (v.release when).1.modules[id]? = some m)
    (lasts : m.releaseTime? = some time) : when + time ≤ (v.release when).2 := by
  rw [release, stopped_stop] at found
  obtain ⟨n, there, rfl⟩ := Option.map_eq_some_iff.1 found
  exact add_le_add_right (releaseTime_le_tail there lasts) when

/-- A decaying envelope that is struck and let go of fades in its tail exactly if it has risen by
then, or never rises above its floor.  A voice that is released is not torn down before the tails of
its envelopes are over; so those that fade in their tail have faded then. -/
theorem fades_release {s when : ℝ} (begun : s ≤ when) (duration : Option ℝ) :
    (∀ (m : Instance Endpoint ℝ) (d : Descent ℝ) (target : Endpoint), m.descent? = some d →
      d.shape.Proper → (((m.drive target s duration).1.release when).1.Fades d.shape.floor when ↔
        d.shape.level ≤ d.shape.floor ∨ s + d.shape.attack ≤ when)) ∧
    ∀ (v : Voice ℝ) (id : String) (b : Option (Bend ℝ)) (after : List (Action ℝ)) (f : Fall ℝ),
      v.IsPatched id → ¬ Starts after →
      ((v.start s duration b).descent? id).map (·.shape) = some f →
      (((v.start s duration b).play after).descent? id).map (·.shape) = some f → f.Proper →
      ∃ m tail, (((v.start s duration b).play after).release when).1.modules[id]? = some m ∧
        m.releaseTime? = some tail ∧
        when + tail ≤ (((v.start s duration b).play after).release when).2 ∧
        (m.Fades f.floor when ↔ f.level ≤ f.floor ∨ s + f.attack ≤ when) ∧
        (f.level ≤ f.floor ∨ s + f.attack ≤ when →
          ∀ t, (((v.start s duration b).play after).release when).2 ≤ t →
            ∃ level, m.levelAt? t = some level ∧ level ≤ f.floor) := by
  refine ⟨?_, ?_⟩
  · intro m d target going proper
    rw [← d.shape_strike s] at proper ⊢
    refine Instance.fades_iff_of_release proper (d.struck_strike s) begun ?_
    rw [Instance.descent?_release, Instance.descent?_drive, going]
    rfl
  · intro v id b after f patched sounding before still proper
    obtain ⟨d, here, rfl, struck⟩ := struck_play patched sounding before still
    obtain ⟨m, found, told⟩ := exists_descent_of_release here when
    have tail := Instance.releaseTime?_of_descent told
    have fades := Instance.fades_iff_of_release proper struck begun told
    have inTime := releaseTime_le_teardown found tail
    refine ⟨m, _, found, tail, inTime, fades, fun risen t past => ?_⟩
    obtain ⟨same, lasts, silent⟩ := fades.2 risen
    rw [tail, Option.some.injEq] at lasts
    exact silent t (by rw [← lasts]; exact inTime.trans past)

/-- The settings of a decaying envelope as it is made on the exact rack. -/
noncomputable def pick : Fall ℝ :=
  ⟨0.01, 0.5, 1, 0.001⟩

theorem pick_proper : pick.Proper := by
  constructor <;> norm_num [pick]

/-- The decaying envelope of the exact tone is let go of long after its attack; it fades in its
tail, and has faded by the time the tone is torn down. -/
theorem fades_release_pluck :
    ∃ fresh n m, build exactRack exactPluck ∅ (fun _ _ => 0) = .ok fresh ∧
      fresh.modules["pick"]? = some n ∧
      ((n.drive ⟨"amp", "level"⟩ 0 none).1.release 1).1.Fades 0.001 1 ∧
      ((fresh.start 0 none none).release 1).1.modules["pick"]? = some m ∧
      m.Fades 0.001 1 ∧
      ∀ t, ((fresh.start 0 none none).release 1).2 ≤ t →
        ∃ level, m.levelAt? t = some level ∧ level ≤ 0.001 := by
  have made : ((build exactRack exactPluck ∅ fun _ _ => 0).toOption.bind
      fun fresh => ((fresh.start 0 none none).descent? "pick").map (·.shape)) = some pick := by rfl
  have unstruck : ((build exactRack exactPluck ∅ fun _ _ => 0).toOption.bind
      fun fresh => fresh.descent? "pick") = some ⟨pick, .constant 0, 0⟩ := by rfl
  have level : ((build exactRack exactPluck ∅ fun _ _ => 0).toOption.map
      fun fresh => (fresh.property? ⟨"amp", "level"⟩).isSome) = some true := by rfl
  obtain ⟨fresh, built, shape⟩ := Option.bind_eq_some_iff.1 made
  rw [built, Option.map_some, Option.some.injEq] at level
  rw [built, Option.bind_some] at unstruck
  rw [Outcome.toOption_eq_some_iff] at built
  obtain ⟨n, there, going⟩ := Option.bind_eq_some_iff.1 unstruck
  have patched : fresh.IsPatched "pick" := by
    refine ⟨⟨⟨"pick", "out"⟩, ⟨"amp", "level"⟩⟩, ?_, rfl, level⟩
    rw [patch_build built]
    exact List.mem_cons_of_mem _ List.mem_cons_self
  have risen : pick.level ≤ pick.floor ∨ 0 + pick.attack ≤ 1 := .inr (by norm_num [pick])
  obtain ⟨single, whole⟩ := fades_release zero_le_one none
  have alone := single n _ ⟨"amp", "level"⟩ going pick_proper
  obtain ⟨m, tail, found, -, -, fades, silent⟩ :=
    whole fresh "pick" none [] pick patched (by simp [Starts]) shape shape pick_proper
  exact ⟨fresh, n, m, built, there, alone.2 risen, found, fades.2 risen, silent risen⟩

/-- A tone whose level follows a decaying envelope with a long attack. -/
noncomputable def slowPluck : Patch ℝ where
  header := { shortname := "pluck" }
  parameters := []
  modules := [⟨"osc", .saw, none⟩, ⟨"amp", .vca, none⟩, ⟨"pick", .decay, none⟩]
  cables := [⟨⟨"osc", "out"⟩, ⟨"amp", "in"⟩⟩, ⟨⟨"amp", "out"⟩, ⟨"audio", "in"⟩⟩]
  envelopes := [⟨⟨"pick", "out"⟩, ⟨"amp", "level"⟩⟩]
  tweaks := [⟨⟨"pick", "attack"⟩, [.number 1]⟩, ⟨⟨"pick", "decay"⟩, [.number 1]⟩]
  controls := exactPluck.controls
  tables := ∅

/-- The settings of its envelope. -/
noncomputable def slowPick : Fall ℝ :=
  ⟨1, 1, 1, 0.001⟩

theorem slowPick_proper : slowPick.Proper := by
  constructor <;> norm_num [slowPick]

/-- A tone that is let go of at once is torn down at once, while its envelope is about to rise to
its level. -/
theorem slowPluck_torn_down_rising :
    ∃ fresh m, build exactRack slowPluck ∅ (fun _ _ => 0) = .ok fresh ∧
      ((fresh.start 0 none none).release 0).1.modules["pick"]? = some m ∧
      m.releaseTime? = some 0 ∧ ((fresh.start 0 none none).release 0).2 = 0 ∧
      m.levelAt? 1 = some 1 ∧ ¬ m.Fades 0.001 0 := by
  let struck : Descent ℝ := ⟨slowPick, slowPick.apply 0 (.constant 0), 0⟩
  have made : ((build exactRack slowPluck ∅ fun _ _ => 0).toOption.bind
      fun fresh => (fresh.start 0 none none).descent? "pick") = some struck := by rfl
  have teardown : ((build exactRack slowPluck ∅ fun _ _ => 0).toOption.map
      fun fresh => ((fresh.start 0 none none).release 0).2) =
        some (0 + Scalar.larger 0 (struck.release 0).tail) := by rfl
  obtain ⟨fresh, built, going⟩ := Option.bind_eq_some_iff.1 made
  rw [built, Option.map_some, Option.some.injEq] at teardown
  obtain ⟨m, found, told⟩ := exists_descent_of_release going 0
  have level {t : ℝ} (sounding : 0 ≤ t) : struck.course.valueAt t = slowPick.course t := by
    rw [slowPick_proper.valueAt_apply (.constant 0) sounding, sub_zero]
  have low : slowPick.course 0 ≤ slowPick.floor := by norm_num [Fall.course, slowPick]
  have high : slowPick.course 1 = 1 := by simp [Fall.course, slowPick, Scalar.exp]
  have tail : (struck.release 0).tail = 0 := by
    refine slowPick_proper.tailFrom_of_le ?_
    rwa [level le_rfl]
  have loud : m.levelAt? 1 = some 1 := by
    rw [Instance.levelAt?_of_descent told, Descent.release, level zero_le_one, high]
  refine ⟨fresh, m, Outcome.toOption_eq_some_iff.1 built, found, ?_, ?_, loud, ?_⟩
  · rw [Instance.releaseTime?_of_descent told, tail]
  · rw [teardown, tail]
    simp [Scalar.larger]
  · rw [Instance.fades_iff told]
    intro silent
    have quiet := silent 1 (by rw [tail]; norm_num)
    rw [Descent.release, level zero_le_one, high] at quiet
    norm_num at quiet

end Exact

end Voice
end SynthPatch
