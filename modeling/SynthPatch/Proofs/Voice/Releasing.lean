import SynthPatch.Proofs.Module.Silencing
import SynthPatch.Proofs.Tables
import SynthPatch.Proofs.Voice.Reach
import SynthPatch.Proofs.Voice.Wiring
/-!
# Releasing a voice

When a voice is released its modules let go one after the other, in the order of their names.  Each
four-stage envelope silences the properties it has been applied to, over whatever the ones before it
have scheduled.  The voice is torn down when the slowest of them is done, and by then every property
that such an envelope has been applied to is silent.

Main results:

- Theorem {lit}`Voice.property?_foldl_letGo`: what the modules that let go make of a property.
- Theorem {lit}`Voice.releaseTime_le_tail`: no envelope goes on for longer than the tail.
- Theorem {lit}`Voice.silenced_release`: in exact arithmetic a released voice ends in silence, and
  without a jump.
-/

namespace SynthPatch

variable {α : Type} [Scalar α]

/-! ## Letting go of a property -/

/-- A property that is let go of several times by one envelope. -/
theorem Stages.silenceAll_replicate (s : Stages α) (n : Nat) (when : α) :
    silenceAll (List.replicate n s) when = (s.silence when)^[n] := by
  induction n with
  | zero => rfl
  | succ n ih =>
      funext line
      rw [Function.iterate_succ_apply, ← ih]
      rfl

namespace Instance

variable {ρ : Type}

/-- Anything but a four-stage envelope leaves properties alone when it lets go. -/
theorem release_of_no_stages {m : Instance ρ α} (none : m.stages? = none) (when : α) :
    (m.release when).2 = id := by
  cases roleIs : m.role with
  | stages driven =>
      rw [stages?, roleIs] at none
      cases none
  | _ => simp only [release, roleIs]

theorem eq_stages {m : Instance ρ α} {s : Stages α} (settings : m.stages? = some s) :
    s = m.stages := by
  unfold stages? at settings
  split at settings
  · exact (Option.some.inj settings).symm
  · cases settings

theorem releaseTime?_of_stages {m : Instance ρ α} {s : Stages α} (settings : m.stages? = some s) :
    m.releaseTime? = some s.releaseTime := by
  rw [eq_stages settings]
  unfold stages? at settings
  split at settings
  · next driven roleIs => rw [releaseTime?, roleIs]
  · cases settings

end Instance

namespace Voice

/-- The four-stage settings with which a module lets go of a property, as often as it does. -/
def silencers (v : Voice α) (target : Endpoint) (id : String) : List (Stages α) :=
  match v.profile? id with
  | some (_, some s, driven) => List.replicate (driven.count target) s
  | _ => []

theorem profile?_eq_of_found {v : Voice α} {id : String} {m : Instance Endpoint α}
    (found : v.modules[id]? = some m) : v.profile? id = some (m.kind, m.stages?, m.driven) := by
  rw [profile?, found]
  rfl

/-- The settings that silence a property are those of an envelope that was applied to it. -/
theorem mem_silencers_iff {v : Voice α} {target : Endpoint} {id : String} {s : Stages α} :
    s ∈ v.silencers target id ↔
      ∃ m, v.modules[id]? = some m ∧ m.stages? = some s ∧ target ∈ m.driven := by
  cases found : v.modules[id]? with
  | none =>
      have nothing : v.profile? id = none := by rw [profile?, found, Option.map_none]
      simp [silencers, nothing]
  | some m =>
      rw [silencers, profile?_eq_of_found found]
      cases settings : m.stages? with
      | none => simp [settings]
      | some own =>
          rw [List.mem_replicate, ← Nat.pos_iff_ne_zero, List.count_pos_iff]
          constructor
          · rintro ⟨mem, rfl⟩
            exact ⟨m, rfl, settings, mem⟩
          · rintro ⟨n, same, sameSettings, mem⟩
            cases same
            rw [settings] at sameSettings
            exact ⟨mem, (Option.some.inj sameSettings).symm⟩

/-- A module that lets go of a property silences it with its settings. -/
theorem property?_letGo_eq (v : Voice α) (when : α) (id : String) (target : Endpoint) :
    (v.letGo when id).property? target =
      (v.property? target).map (Stages.silenceAll (v.silencers target id) when) := by
  cases found : v.modules[id]? with
  | none =>
      have nothing : v.profile? id = none := by rw [profile?, found, Option.map_none]
      have same : v.letGo when id = v := by simp only [letGo, found]
      rw [same, silencers, nothing]
      exact Option.map_id'.symm
  | some m =>
      rw [v.property?_letGo found, silencers, profile?_eq_of_found found]
      cases settings : m.stages? with
      | none =>
          rw [Instance.release_of_no_stages settings, Function.iterate_id]
          rfl
      | some s => rw [Instance.release_of_stages settings, ← Stages.silenceAll_replicate]

/-- Modules that let go one after the other silence a property with the settings of each. -/
theorem property?_foldl_letGo (v : Voice α) (when : α) (ids : List String) (target : Endpoint) :
    (ids.foldl (letGo when) v).property? target =
      (v.property? target).map (Stages.silenceAll (ids.flatMap (v.silencers target)) when) := by
  induction ids generalizing v with
  | nil => exact Option.map_id'.symm
  | cons id rest ih =>
      have same : (v.letGo when id).silencers target = v.silencers target := by
        funext other
        rw [silencers, silencers, profile?_letGo]
      rw [List.foldl_cons, ih, same, property?_letGo_eq, Option.map_map, List.flatMap_cons]
      congr 1
      funext line
      exact (List.foldl_append).symm

/-! ## The slowest envelope -/

section Exact

theorem le_longer (longest : ℝ) (m : Instance Endpoint ℝ) :
    longest ≤ longer longest m ∧ ∀ time, m.releaseTime? = some time → time ≤ longer longest m := by
  unfold longer
  cases m.releaseTime? with
  | none => simp
  | some time =>
      simp only [Scalar.larger, Option.some.injEq, forall_eq']
      split
      · next shorter => exact ⟨shorter.le, le_rfl⟩
      · next notShorter => exact ⟨le_rfl, not_lt.1 notShorter⟩

theorem le_foldl_longer (modules : List (Instance Endpoint ℝ)) (longest : ℝ) :
    longest ≤ modules.foldl longer longest ∧
      ∀ m ∈ modules, ∀ time, m.releaseTime? = some time → time ≤ modules.foldl longer longest := by
  induction modules generalizing longest with
  | nil => simp
  | cons m rest ih =>
      obtain ⟨first, others⟩ := ih (longer longest m)
      obtain ⟨before, here⟩ := le_longer longest m
      refine ⟨before.trans first, ?_⟩
      intro n mem time lasts
      rcases List.mem_cons.1 mem with rfl | mem
      · exact (here time lasts).trans first
      · exact others n mem time lasts

/-- A voice does not end before its release. -/
theorem tail_nonneg (v : Voice ℝ) : 0 ≤ v.tail := by
  rw [tail]
  exact (le_foldl_longer v.modules.values 0).1

/-- No envelope goes on for longer than the tail of the voice. -/
theorem releaseTime_le_tail {v : Voice ℝ} {id : String} {m : Instance Endpoint ℝ}
    (found : v.modules[id]? = some m) {time : ℝ} (lasts : m.releaseTime? = some time) :
    time ≤ v.tail := by
  rw [tail]
  exact (le_foldl_longer v.modules.values 0).2 m (Named.mem_values.2 ⟨id, found⟩) time lasts

/-! ## A released voice -/

/-- The voice was started, and the module is a four-stage envelope that is patched into the
property. -/
def Applied (v : Voice ℝ) (actions : List (Action ℝ)) (id : String) (target : Endpoint) : Prop :=
  Starts actions ∧ (∃ c ∈ v.patch.envelopes, c.source.module = id ∧ c.target = target) ∧
    ∃ m, v.modules[id]? = some m ∧ m.kind = .adsr

/-- What a release makes of a voice that has been played; `after` is the voice then, and when it is
torn down. -/
structure Silenced (fresh : Voice ℝ) (actions : List (Action ℝ)) (when : ℝ)
    (after : Voice ℝ × ℝ) : Prop where
  notEarlier : when ≤ after.2
  /-- Every module stops at the teardown, -/
  stopped : ∀ id : String, after.1.modules[id]?.map (·.stopped) =
    (fresh.play actions).modules[id]?.map fun _ => some after.2
  /-- and the sink is one of them. -/
  sink : sinkId ∈ after.1.modules
  /-- By then every envelope is done. -/
  tails : ∀ (id : String) m time, after.1.modules[id]? = some m → m.releaseTime? = some time →
    when + time ≤ after.2
  /-- From then on every property is silent that a four-stage envelope was applied to, -/
  silent : ∀ id target line, fresh.Applied actions id target →
    after.1.property? target = some line → ∀ t, after.2 ≤ t → line.valueAt t = 0
  /-- and nothing is scheduled for it. -/
  done : ∀ id target line, fresh.Applied actions id target →
    after.1.property? target = some line → ∀ e ∈ line.events, e.time ≤ after.2
  /-- If none of the envelopes that were applied to it lets it fall at once, it falls from where it
  was. -/
  steady : ∀ target before line, (fresh.play actions).property? target = some before →
    after.1.property? target = some line →
    (∀ id m, fresh.Applied actions id target → (fresh.play actions).modules[id]? = some m →
      0 < m.stages.release) → line.valueAt when = before.valueAt when

variable {rack : Rack ℝ} {patch : Patch ℝ} {overrides : Named ℝ} {draws : Nat → Draws ℝ}
  {fresh : Voice ℝ}

theorem sink_mem_equip {modules : Named (Instance Endpoint ℝ)}
    (equipped : equip rack patch = .ok modules) : sinkId ∈ modules := by
  rw [equip, equipment, List.foldlM_append] at equipped
  obtain ⟨front, -, last⟩ := Outcome.bind_eq_ok_iff.1 equipped
  rw [List.foldlM_cons] at last
  obtain ⟨all, installed, last⟩ := Outcome.bind_eq_ok_iff.1 last
  cases last
  obtain ⟨m, -, done⟩ := Outcome.bind_eq_ok_iff.1 installed
  cases done
  exact Std.ExtTreeMap.mem_insert_self

/-- There is an instance of the sink in every voice. -/
theorem sink_mem_build (built : build rack patch overrides draws = .ok fresh) :
    sinkId ∈ fresh.modules := by
  obtain ⟨valid, base, ready⟩ := exists_untweaked_of_build built
  rw [build_of_untweaked valid ready] at built
  obtain ⟨settings, -, rfl⟩ := Outcome.map_eq_ok_iff.1 built
  have parts := congrArg Option.isSome ((akin_assign base settings).parts sinkId)
  obtain ⟨bare, equipped, ready⟩ := Outcome.bind_eq_ok_iff.1 ready
  obtain ⟨modules, plugged, ready⟩ := Outcome.bind_eq_ok_iff.1 ready
  cases ready
  have wiring := congrArg Option.isSome (wiring_foldlM_plug plugged sinkId)
  simp only [Option.isSome_map] at parts wiring
  rw [Std.ExtTreeMap.mem_iff_isSome_getElem?, parts, wiring]
  exact Std.ExtTreeMap.mem_iff_isSome_getElem?.1 (sink_mem_equip equipped)

/-- In a voice that has been built, the four-stage envelopes are those of that kind. -/
theorem part_build (built : build rack patch overrides draws = .ok fresh) (id : String) :
    ∀ m, fresh.modules[id]? = some m → (m.hasStages = true ↔ m.kind = .adsr) :=
  every_build (P := fun m => m.hasStages = true ↔ m.kind = .adsr) Instance.hasStages_create
    (fun _ _ same => same) (fun _ _ _ same => same) built id

/-- In a voice that was built and played, exactly the four-stage envelopes have been applied to a
property that were patched into it when the voice was started. -/
theorem moves_iff_applied (built : build rack patch overrides draws = .ok fresh)
    (actions : List (Action ℝ)) {id : String} {target : Endpoint}
    (there : ((fresh.play actions).property? target).isSome = true) :
    (fresh.play actions).Moves id target ↔ fresh.Applied actions id target := by
  have idle : ¬ fresh.Moves id target := by
    rintro ⟨r, same, -, mem⟩
    obtain ⟨m, found, rfl⟩ := Option.map_eq_some_iff.1 same
    have nothing : m.driven = [] := (fresh_build built id m found).driven
    rw [Instance.reach, nothing] at mem
    cases mem
  have can : fresh.CanMove id target ↔ ∃ m, fresh.modules[id]? = some m ∧ m.kind = .adsr := by
    rw [CanMove, ← (akin_play fresh actions).properties target, Option.map_eq_some_iff]
    simp only [there, and_true]
    refine exists_congr fun m => and_congr_right fun found => ?_
    have part := part_build built id m found
    simp only [Instance.part, Prod.mk.injEq, and_iff_left_iff_imp]
    exact part.2
  rw [moves_play, Applied, can]
  exact or_iff_right idle

/-- The settings of an envelope that lets go take no longer than the tail of the voice. -/
theorem releaseTime_le_tail_of_silencer {v : Voice ℝ} {target : Endpoint} {id : String}
    {s : Stages ℝ} (mem : s ∈ v.silencers target id) : s.releaseTime ≤ v.tail := by
  obtain ⟨m, found, settings, -⟩ := mem_silencers_iff.1 mem
  exact releaseTime_le_tail found (Instance.releaseTime?_of_stages settings)

/-- A property of a voice that is released has been let go of by its envelopes. -/
theorem property?_release (v : Voice ℝ) (when : ℝ) (target : Endpoint) :
    (v.release when).1.property? target = (v.property? target).map
      (Stages.silenceAll (v.modules.keys.flatMap (v.silencers target)) when) :=
  (property?_mapModules _ (fun _ => Instance.properties_stop _ _) target).trans
    (property?_foldl_letGo v when _ target)

/-- A property that an envelope was applied to ends with the release of one of its envelopes, before
the voice is torn down. -/
theorem exists_silence_of_moves {v : Voice ℝ} {id : String} {target : Endpoint}
    (moves : v.Moves id target) (when : ℝ) {line : Timeline ℝ}
    (after : (v.release when).1.property? target = some line) :
    ∃ (s : Stages ℝ) (before : Timeline ℝ), line = s.silence when before ∧
      when + s.releaseTime ≤ (v.release when).2 := by
  rw [property?_release] at after
  obtain ⟨start, -, rfl⟩ := Option.map_eq_some_iff.1 after
  have some : v.modules.keys.flatMap (v.silencers target) ≠ [] := by
    obtain ⟨r, reached, part, mem⟩ := moves
    obtain ⟨m, found, rfl⟩ := Option.map_eq_some_iff.1 reached
    have stages : m.stages?.isSome = true := m.isSome_stages?.trans (congrArg Prod.snd part)
    obtain ⟨s, settings⟩ := Option.isSome_iff_exists.1 stages
    have key : id ∈ v.modules.keys :=
      Std.ExtTreeMap.mem_keys.2 (Std.ExtTreeMap.getElem?_eq_some_iff.1 found).1
    have silences : s ∈ v.silencers target id := mem_silencers_iff.2 ⟨m, found, settings, mem⟩
    exact List.ne_nil_of_mem (List.mem_flatMap.2 ⟨id, key, silences⟩)
  obtain ⟨s, mem, before, same⟩ := Stages.exists_silenceAll_eq some when start
  obtain ⟨other, -, silences⟩ := List.mem_flatMap.1 mem
  have later : s ∈ (v.modules.keys.foldl (letGo when) v).silencers target other := by
    rwa [silencers, profile?_foldl_letGo]
  exact ⟨s, before, same, add_le_add_right (releaseTime_le_tail_of_silencer later) when⟩

/-- An envelope that lets go of a property has been applied to it. -/
theorem moves_of_mem_silencers (built : build rack patch overrides draws = .ok fresh)
    (actions : List (Action ℝ)) {id : String} {target : Endpoint} {s : Stages ℝ}
    (mem : s ∈ (fresh.play actions).silencers target id) :
    (fresh.play actions).Moves id target := by
  obtain ⟨m, found, settings, driven⟩ := mem_silencers_iff.1 mem
  have stages : m.hasStages = true := by
    rw [← m.isSome_stages?, settings]
    rfl
  have parts := (akin_play fresh actions).parts id
  rw [found, Option.map_some, eq_comm] at parts
  obtain ⟨first, there, same⟩ := Option.map_eq_some_iff.1 parts
  obtain ⟨sameKind, sameStages⟩ := Prod.mk.inj same
  have kind := (part_build built id first there).1 (sameStages.trans stages)
  refine ⟨m.reach, by rw [found, Option.map_some], ?_, driven⟩
  rw [Instance.reach, Instance.part, ← sameKind, kind, stages]

/-- In exact arithmetic a voice that is released ends in silence, and without a jump. -/
theorem silenced_release (built : build rack patch overrides draws = .ok fresh)
    (actions : List (Action ℝ)) (when : ℝ) :
    Silenced fresh actions when ((fresh.play actions).release when) := by
  have applied {id : String} {target : Endpoint} {line : Timeline ℝ}
      (after : ((fresh.play actions).release when).1.property? target = some line) :
      (fresh.play actions).Moves id target ↔ fresh.Applied actions id target := by
    refine moves_iff_applied built actions ?_
    rw [property?_release] at after
    obtain ⟨before, there, -⟩ := Option.map_eq_some_iff.1 after
    rw [there]
    rfl
  refine ⟨?_, ?_, ?_, ?_, ?_, ?_, ?_⟩
  · exact le_add_of_nonneg_right (tail_nonneg _)
  · intro id
    rw [← lasting_release (Instance.lasting_const _) (fresh.play actions) id when]
    exact Option.map_congr fun m found => stopped_release found
  · have akin := (akin_act (fresh.play actions) (.release when)).trans (akin_play fresh actions)
    have parts := congrArg Option.isSome (akin.parts sinkId)
    rw [Option.isSome_map, Option.isSome_map] at parts
    rw [Std.ExtTreeMap.mem_iff_isSome_getElem?]
    exact parts.trans (Std.ExtTreeMap.mem_iff_isSome_getElem?.1 (sink_mem_build built))
  · intro id m time found lasts
    rw [release, stopped_stop] at found
    obtain ⟨n, there, rfl⟩ := Option.map_eq_some_iff.1 found
    exact add_le_add_right (releaseTime_le_tail there lasts) when
  · intro id target line isApplied after t past
    obtain ⟨s, before, rfl, inTime⟩ :=
      exists_silence_of_moves ((applied after).2 isApplied) when after
    exact s.valueAt_silence_of_over before (inTime.trans past)
  · intro id target line isApplied after e mem
    obtain ⟨s, before, rfl, inTime⟩ :=
      exists_silence_of_moves ((applied after).2 isApplied) when after
    exact (s.time_le_of_mem_silence before mem).trans inTime
  · intro target before line start after release
    have same := after
    rw [property?_release, start, Option.map_some, Option.some.injEq] at same
    rw [← same]
    refine Stages.valueAt_silenceAll (fun s mem => ?_) when before
    obtain ⟨id, -, silences⟩ := List.mem_flatMap.1 mem
    obtain ⟨m, found, settings, driven⟩ := mem_silencers_iff.1 silences
    rw [Instance.eq_stages settings]
    exact release id m ((applied after).1 (moves_of_mem_silencers built actions silences)) found

/-- A rack in exact arithmetic. -/
noncomputable def exactRack : Rack ℝ where
  config := {
    limits := ⟨20, 20000, 432, 0, 1, 1⟩
    decayFloor := 0.001
    bendFraction := 0.75
    noiseSeed := 42
    noiseSeconds := 1
    sampleRate := 44100
    wavetables := none }
  registry := .standard
  wavetables := ∅

/-- A tone whose level follows two envelopes, one of each sort. -/
noncomputable def exactPluck : Patch ℝ where
  header := { shortname := "pluck" }
  parameters := []
  modules := [⟨"osc", .saw, none⟩, ⟨"amp", .vca, none⟩, ⟨"env", .adsr, none⟩,
    ⟨"pick", .decay, none⟩]
  cables := [⟨⟨"osc", "out"⟩, ⟨"amp", "in"⟩⟩, ⟨⟨"amp", "out"⟩, ⟨"audio", "in"⟩⟩]
  envelopes := [⟨⟨"env", "out"⟩, ⟨"amp", "level"⟩⟩, ⟨⟨"pick", "out"⟩, ⟨"amp", "level"⟩⟩]
  tweaks := [⟨⟨"env", "release"⟩, [.number 2]⟩]
  controls := Patch.implicitControls ⟨20, 20000, 432, 0, 1, 1⟩
  tables := ∅

/-- The tone is struck, and sounds until it is released. -/
noncomputable def struck : List (Action ℝ) :=
  [.start 0 none none]

/-- The level of the tone, to which the envelope was applied, is silent once the tone is torn
down. -/
theorem silenced_release_pluck :
    ∃ fresh line, build exactRack exactPluck ∅ (fun _ _ => 0) = .ok fresh ∧
      Silenced fresh struck 1 ((fresh.play struck).release 1) ∧
      fresh.Applied struck "env" ⟨"amp", "level"⟩ ∧
      ((fresh.play struck).release 1).1.property? ⟨"amp", "level"⟩ = some line ∧
      ∀ t, ((fresh.play struck).release 1).2 ≤ t → line.valueAt t = 0 := by
  have envelope : ((build exactRack exactPluck ∅ fun _ _ => 0).toOption.bind
      fun fresh => fresh.modules["env"]?).map (·.kind) = some .adsr := by rfl
  have level : ((build exactRack exactPluck ∅ fun _ _ => 0).toOption.bind
      fun fresh => ((fresh.play struck).release 1).1.property? ⟨"amp", "level"⟩).isSome = true := by
    rfl
  obtain ⟨m, found, kind⟩ := Option.map_eq_some_iff.1 envelope
  obtain ⟨fresh, made, found⟩ := Option.bind_eq_some_iff.1 found
  obtain ⟨line, there⟩ := Option.isSome_iff_exists.1 level
  rw [made, Option.bind_some] at there
  have built := Outcome.toOption_eq_some_iff.1 made
  have patched : ⟨⟨"env", "out"⟩, ⟨"amp", "level"⟩⟩ ∈ fresh.patch.envelopes := by
    rw [patch_build built]
    exact List.mem_cons_self
  have applied : fresh.Applied struck "env" ⟨"amp", "level"⟩ :=
    ⟨⟨0, none, none, List.mem_cons_self⟩, ⟨_, patched, rfl, rfl⟩, m, found, kind⟩
  have silenced := silenced_release built struck 1
  exact ⟨fresh, line, built, silenced, applied, there, silenced.silent _ _ line applied there⟩

end Exact

end Voice

end SynthPatch
