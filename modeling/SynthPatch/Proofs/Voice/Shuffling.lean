import SynthPatch.Proofs.Patch.Shuffling
import SynthPatch.Proofs.Voice.Twins
/-!
# Voices of reordered patches

Patches that differ in orders only have voices that do: their instances are made from the same
declarations, the same cables are connected, and their tweaks have the same values and set different
properties.

Main results:

- Theorem {lit}`Voice.twin_untweaked`: instances and their connections are the same up to orders.
- Theorem {lit}`Voice.Twin.settings_perm`: so are the settings of tweaks that draw nothing.
- Structure {lit}`Voice.Alternate`: two patches that can be played in the same way.
- Theorem {lit}`Voice.build_reordered`: the same statements in another order make such a patch.
-/

namespace SynthPatch

variable {α : Type}

/-- What goes to a module does not depend on the order of the cables, but for its own order. -/
theorem Cable.into_perm {cables others : List Cable} (perm : cables.Perm others) (id : String) :
    (Cable.into cables id).Perm (Cable.into others id) :=
  (perm.filter _).map _

namespace Voice

variable [Scalar α] {rack : Rack α} {p q : Patch α} {v w : Voice α}

omit [Scalar α] in
/-- A patch whose expressions draw nothing draws nothing in another order. -/
theorem Steady.shuffled (steady : Steady p) (shuffled : p.Shuffled q) : Steady q where
  shapes t mem := steady.shapes t (shuffled.tweaks.mem_iff.2 mem)
  calm t mem := steady.calm t (shuffled.tweaks.mem_iff.2 mem)
  once := (shuffled.tweaks.map _).nodup_iff.1 steady.once

/-! ## Instances -/

/-- The modules of both patches have instances that are the same up to the order of their wires. -/
theorem twin_untweaked (shuffled : p.Shuffled q) (coherent : p.Coherent rack.registry)
    (coherentToo : q.Coherent rack.registry) {overrides : Named α}
    (ready : untweaked rack p overrides = .ok v) (readyToo : untweaked rack q overrides = .ok w) :
    v.Twin w := by
  obtain ⟨made, equipped, ready⟩ := Outcome.bind_eq_ok_iff.1 ready
  obtain ⟨modules, connected, ready⟩ := Outcome.bind_eq_ok_iff.1 ready
  obtain ⟨madeToo, equippedToo, readyToo⟩ := Outcome.bind_eq_ok_iff.1 readyToo
  obtain ⟨modulesToo, connectedToo, readyToo⟩ := Outcome.bind_eq_ok_iff.1 readyToo
  cases ready
  cases readyToo
  refine ⟨?_, rfl, fun id => ?_⟩
  · have same : p.defaults = q.defaults := by rw [Patch.defaults, Patch.defaults, shuffled.controls]
    exact congrArg (· ∪ overrides) same
  · have names := nodup_equipment coherent
    have perm : (equipment p).Perm (equipment q) := shuffled.modules.append_right _
    have sameDecl := Keyed.find?_perm perm names id
    have wires := Cable.into_perm shuffled.cables id
    rw [getElem?_foldlM_plug connected, getElem?_foldlM_plug connectedToo]
    obtain ⟨decl, m, found, created, there⟩ | ⟨none, missing⟩ :=
      foldlM_install_cases names equipped id
    · obtain ⟨other, n, foundToo, createdToo, thereToo⟩ | ⟨none, -⟩ :=
        foldlM_install_cases (nodup_equipment coherentToo) equippedToo id
      · rw [found, foundToo, Option.some.injEq] at sameDecl
        rw [← sameDecl, ← shuffled.tables, created, Except.ok.injEq] at createdToo
        rw [there, thereToo, ← createdToo]
        exact .some (.of_core rfl .rfl (wires.append_left m.wires))
      · rw [found, none] at sameDecl
        cases sameDecl
    · obtain ⟨other, n, foundToo, -, -⟩ | ⟨-, missingToo⟩ :=
        foldlM_install_cases (nodup_equipment coherentToo) equippedToo id
      · rw [none, foundToo] at sameDecl
        cases sameDecl
      · rw [missing, missingToo]
        exact .none

/-! ## Settings -/

section Settings

variable {draws others : Nat → Draws α} {settings settingsToo : List (Endpoint × α)}

/-- Tweaks that draw nothing have the same values in twins. -/
theorem Twin.evaluate (twin : v.Twin w) (shuffled : v.patch.Shuffled w.patch)
    (steady : Steady v.patch) {t : Tweak α} (mem : t ∈ v.patch.tweaks) {draws others : Draws α}
    {x : α} (h : v.evaluate v.values draws t = .ok x) : w.evaluate w.values others t = .ok x := by
  refine evaluate_congr_of_agree (steady.calm t mem) ?_ (fun name => ?_)
    (fun name _ => by rw [twin.values]) h
  · rw [own?, own?, twin.property?_eq]
  · rw [Patch.range?, Patch.range?, shuffled.controls]

/-- What the tweaks of a voice set those of its twin set. -/
theorem Twin.mem_settings (twin : v.Twin w) (shuffled : v.patch.Shuffled w.patch)
    (steady : Steady v.patch) (set : v.settings v.values draws (fun _ => true) = .ok settings)
    (setToo : w.settings w.values others (fun _ => true) = .ok settingsToo) {s : Endpoint × α}
    (mem : s ∈ settings) : s ∈ settingsToo := by
  obtain ⟨t, place, here, -, target, value⟩ := exists_value_of_mem_settings set mem
  obtain ⟨y, placeToo, there, valueToo⟩ :=
    exists_mem_settings setToo (shuffled.tweaks.mem_iff.1 here) rfl
  have same : w.evaluate w.values (others placeToo) t = .ok s.2 :=
    twin.evaluate shuffled steady here value
  rw [valueToo, Except.ok.injEq] at same
  rwa [target, same] at there

/-- Twins have the same settings up to order. -/
theorem Twin.settings_perm (twin : v.Twin w) (shuffled : v.patch.Shuffled w.patch)
    (steady : Steady v.patch) (set : v.settings v.values draws (fun _ => true) = .ok settings)
    (setToo : w.settings w.values others (fun _ => true) = .ok settingsToo) :
    settings.Perm settingsToo := by
  have steadyToo := steady.shuffled shuffled
  have once : settings.Nodup := (nodup_settings set steady.once).of_map _
  have onceToo : settingsToo.Nodup := (nodup_settings setToo steadyToo.once).of_map _
  refine (List.perm_ext_iff_of_nodup once onceToo).2 fun s => ?_
  exact ⟨twin.mem_settings shuffled steady set setToo,
    twin.symm.mem_settings shuffled.symm steadyToo setToo set⟩

omit [Scalar α] in
/-- Settings of different properties can be assigned in any order. -/
theorem assign_perm (v : Voice α) (perm : settings.Perm settingsToo)
    (once : (settings.map (·.1)).Nodup) : v.assign settings = v.assign settingsToo := by
  refine perm.foldl_eq' (fun s here t there u => ?_) v
  by_cases same : s.1 = t.1
  · rw [List.inj_on_of_nodup_map once here there same]
  · exact u.modify_comm same _ _

omit [Scalar α] in
theorem Twin.assign (twin : v.Twin w) (settings : List (Endpoint × α)) :
    (v.assign settings).Twin (w.assign settings) :=
  twin.foldl (fun _ _ s twin => twin.modify s.1 (·.setValue s.2)) settings

end Settings

/-! ## Building -/

/-- If a patch whose expressions draw nothing has a voice, it has a twin of that in another
order. -/
theorem exists_twin_of_build (shuffled : p.Shuffled q) (coherent : p.Coherent rack.registry)
    (coherentToo : q.Coherent rack.registry) (steady : Steady p) {overrides : Named α}
    {draws : Nat → Draws α} (built : build rack p overrides draws = .ok v)
    (others : Nat → Draws α) :
    ∃ w, build rack q overrides others = .ok w ∧ v.Twin w := by
  obtain ⟨valid, base, ready⟩ := exists_untweaked_of_build built
  have validToo : q.isValid = true := by rw [← shuffled.isValid_eq, valid]
  obtain ⟨baseToo, readyToo, -, patchToo, -⟩ := exists_untweaked coherentToo validToo overrides
  have twin := twin_untweaked shuffled coherent coherentToo ready readyToo
  have patch := (untweaked_eq_ok ready).1
  have shuffledBase : base.patch.Shuffled baseToo.patch := by rwa [patch, patchToo]
  have steadyBase : Steady base.patch := by rwa [patch]
  rw [build_of_untweaked valid ready] at built
  obtain ⟨settings, set, rfl⟩ := Outcome.map_eq_ok_iff.1 built
  have all : ∀ t ∈ baseToo.patch.tweaks, ∀ draws, ∃ x,
      baseToo.evaluate baseToo.values draws t = .ok x := by
    intro t mem draws
    have here := shuffledBase.tweaks.mem_iff.2 mem
    obtain ⟨x, place, -, value⟩ := exists_mem_settings set here rfl
    exact ⟨x, twin.evaluate shuffledBase steadyBase here value⟩
  obtain ⟨settingsToo, setToo⟩ := @exists_settings _ _ _ _ others (fun _ => true) all
  refine ⟨baseToo.assign settingsToo, ?_, ?_⟩
  · rw [build_of_untweaked validToo readyToo, setToo]
    rfl
  · have perm := twin.settings_perm shuffledBase steadyBase set setToo
    rw [assign_perm base perm (nodup_settings set steadyBase.once)]
    exact twin.assign settingsToo

/-- Two patches that can be played in the same way. -/
structure Alternate (rack : Rack α) (overrides : Named α) (draws others : Nat → Draws α)
    (p q : Patch α) : Prop where
  /-- Both can be played, or neither can. -/
  valid : p.isValid = q.isValid
  /-- Both have a voice, or neither has. -/
  builds : (∃ v, build rack p overrides draws = .ok v) ↔ ∃ w, build rack q overrides others = .ok w
  /-- Their voices differ in orders only, -/
  twin : ∀ v w, build rack p overrides draws = .ok v → build rack q overrides others = .ok w →
    v.Twin w
  /-- also when they are started, if no two envelopes go to one property, -/
  start : (p.envelopes.map (·.target)).Nodup →
    ∀ v w, build rack p overrides draws = .ok v → build rack q overrides others = .ok w →
      ∀ when duration bend, (v.start when duration bend).Twin (w.start when duration bend)
  /-- and when they are released after that; then they are torn down at the same time. -/
  release : (p.envelopes.map (·.target)).Nodup →
    ∀ v w, build rack p overrides draws = .ok v → build rack q overrides others = .ok w →
      ∀ when duration bend later,
        ((v.start when duration bend).release later).1.Twin
            ((w.start when duration bend).release later).1 ∧
          ((v.start when duration bend).release later).2 =
            ((w.start when duration bend).release later).2

/-- Patches that differ in orders only can be played in the same way, if they draw nothing. -/
theorem alternate_of_shuffled (shuffled : p.Shuffled q) (coherent : p.Coherent rack.registry)
    (coherentToo : q.Coherent rack.registry) (steady : Steady p) (overrides : Named α)
    (draws others : Nat → Draws α) : Alternate rack overrides draws others p q := by
  have steadyToo := steady.shuffled shuffled
  have twin : ∀ v w, build rack p overrides draws = .ok v →
      build rack q overrides others = .ok w → v.Twin w := by
    intro v w built builtToo
    obtain ⟨u, again, twin⟩ :=
      exists_twin_of_build shuffled coherent coherentToo steady built others
    rw [builtToo, Except.ok.injEq] at again
    rwa [again]
  have start : (p.envelopes.map (·.target)).Nodup → ∀ v w, build rack p overrides draws = .ok v →
      build rack q overrides others = .ok w → ∀ when duration bend,
        (v.start when duration bend).Twin (w.start when duration bend) := by
    intro once v w built builtToo
    have perm : v.patch.envelopes.Perm w.patch.envelopes := by
      rw [patch_build built, patch_build builtToo]
      exact shuffled.envelopes
    have onceHere : (v.patch.envelopes.map (·.target)).Nodup := by rwa [patch_build built]
    exact (twin v w built builtToo).start perm onceHere
  refine ⟨shuffled.isValid_eq, ⟨?_, ?_⟩, twin, start, ?_⟩
  · rintro ⟨v, built⟩
    obtain ⟨w, builtToo, -⟩ :=
      exists_twin_of_build shuffled coherent coherentToo steady built others
    exact ⟨w, builtToo⟩
  · rintro ⟨w, built⟩
    obtain ⟨v, builtToo, -⟩ :=
      exists_twin_of_build shuffled.symm coherentToo coherent steadyToo built draws
    exact ⟨v, builtToo⟩
  · intro once v w built builtToo when duration bend
    exact (start once v w built builtToo when duration bend).release

/-- The order of statements matters for nothing but that everything is declared before it is used:
two accepted texts of the same statements, comments apart, make patches that can be played in the
same way, if no expression draws at random. -/
theorem build_reordered {home : Rack Float} (standard : home.registry = .standard)
    {source other : String} {S T : List (Statement Float)}
    (parsed : Checker.parse home.registry source = .ok S)
    (parsedToo : Checker.parse home.registry other = .ok T) (same : Statement.Reordered S T)
    (calm : ∀ t, .tweak t ∈ S → t.value.isRandom = false) (lift : Float → α)
    (overrides : Named α) (draws others : Nat → Draws α) :
    ∃ p q, Patch.compile home source = .ok p ∧ Patch.compile home other = .ok q ∧
      Alternate (home.map lift) overrides draws others (p.map lift) (q.map lift) := by
  have compiled : Patch.compile home source =
      .ok (Patch.ofStatements home.wavetables home.config.limits S) :=
    Outcome.map_eq_ok_iff.2 ⟨S, parsed, rfl⟩
  have compiledToo : Patch.compile home other =
      .ok (Patch.ofStatements home.wavetables home.config.limits T) :=
    Outcome.map_eq_ok_iff.2 ⟨T, parsedToo, rfl⟩
  have agree := Checker.wellFormed_of_parse parsed
  have agreeToo := Checker.wellFormed_of_parse parsedToo
  rw [standard] at agree agreeToo
  have shuffled :=
    Patch.shuffled_ofStatements home.wavetables home.config.limits agree agreeToo same
  have steady := steady_of_compile compiled
    (fun t mem => calm t ((Patch.mem_tweaks_ofStatements _ _).1 mem)) lift
  have coherent := (Patch.coherent_of_compile compiled).map lift
  have coherentToo := (Patch.coherent_of_compile compiledToo).map lift
  exact ⟨_, _, compiled, compiledToo,
    alternate_of_shuffled (shuffled.map lift) coherent coherentToo steady overrides draws others⟩

/-- A plucked tone, with every part beside what it belongs to. -/
def partwiseSource : String :=
  "@synth pluck\n@end\nSAW-OSC:osc\nADSR:env\nenv.attack = 1\nVCA:amp\nosc.out -> amp.in\n" ++
    "env.out -> amp.level\namp.out -> audio.in\n"

/-- The same tone, with its modules first. -/
def modulesFirstSource : String :=
  "@synth pluck\n@end\nVCA:amp\nADSR:env\nSAW-OSC:osc\n# cables\namp.out -> audio.in\n" ++
    "env.out -> amp.level\nosc.out -> amp.in\nenv.attack = 1\n"

/-- Both have a voice, and the tails of both end at the same time. -/
theorem build_reordered_pluck :
    ∃ p q v w, Patch.compile .standard partwiseSource = .ok p ∧
      Patch.compile .standard modulesFirstSource = .ok q ∧
      build (Rack.standard.map id) (p.map id) ∅ (fun _ _ => 0) = .ok v ∧
      build (Rack.standard.map id) (q.map id) ∅ (fun _ _ => 1) = .ok w ∧ v.Twin w ∧
      ((v.start 0 none none).release 2).2 = ((w.start 0 none none).release 2).2 := by
  have run : ((Checker.parse .standard partwiseSource).toOption.any fun S =>
      let p := Patch.ofStatements Rack.standard.wavetables Rack.standard.config.limits S
      ((S.filterMap Statement.tweak?).all (!·.value.isRandom) &&
        decide (p.envelopes.map (·.target)).Nodup) &&
      ((build (Rack.standard.map id) (p.map id) ∅ fun _ _ => 0).toOption.isSome &&
        (Checker.parse .standard modulesFirstSource).toOption.any fun T =>
          decide (Statement.Reordered S T))) = true := by
    decide +kernel
  obtain ⟨S, parsed, run⟩ := (Option.any_eq_true _ _).1 run
  simp only [Bool.and_eq_true, decide_eq_true_eq] at run
  obtain ⟨⟨calm, once⟩, built, run⟩ := run
  obtain ⟨T, parsedToo, same⟩ := (Option.any_eq_true _ _).1 run
  have parsed := Outcome.toOption_eq_some_iff.1 parsed
  have parsedToo := Outcome.toOption_eq_some_iff.1 parsedToo
  have calm : ∀ t, .tweak t ∈ S → t.value.isRandom = false := fun t mem => by
    simpa using List.all_eq_true.1 calm t (Statement.mem_filterMap_tweak?.2 mem)
  obtain ⟨p, q, compiled, compiledToo, alternate⟩ := @build_reordered Float _ .standard rfl _ _ _ _
    parsed parsedToo (of_decide_eq_true same) calm id ∅ (fun _ _ => 0) fun _ _ => 1
  obtain ⟨read, again, rfl⟩ := Outcome.map_eq_ok_iff.1 compiled
  obtain rfl : S = read := Except.ok.inj (parsed.symm.trans again)
  obtain ⟨v, built⟩ := Option.isSome_iff_exists.1 built
  have built := Outcome.toOption_eq_some_iff.1 built
  obtain ⟨w, builtToo⟩ := alternate.builds.1 ⟨v, built⟩
  exact ⟨_, q, v, w, compiled, compiledToo, built, builtToo, alternate.twin v w built builtToo,
    (alternate.release once v w built builtToo 0 none none 2).2⟩

end Voice
end SynthPatch
