import SynthPatch.Proofs.Voice.Tweaking
/-!
# Tweaking and rebuilding

However a voice has been played, its properties have the values that they would have in a voice that
is built anew with the parameters as they are.  What was changed on the way, in which order and with
what success, leaves no trace.

Main results:

- Structure {lit}`Voice.Settled`: every tweak is up to date with the parameters, and nothing else
  has been changed.
- Theorem {lit}`Voice.settled_assign`: assigning the settings of some tweaks settles a voice whose
  other tweaks were up to date.
- Theorems {lit}`Voice.settled_build`, {lit}`Voice.Settled.play`: a new voice is settled, and stays
  so whatever happens to it.
- Theorem {lit}`Voice.Settled.own?_eq`: settled voices with the same parameters have the same
  values.
-/

namespace SynthPatch

variable {α : Type}

namespace Voice

/-- What can happen to a voice. -/
inductive Action (α : Type) where
  /-- It is started, perhaps for a time, and perhaps its pitch bends. -/
  | start (when : α) (duration : Option α) (bend : Option (Bend α))
  /-- A parameter is changed. -/
  | tweak (name : String) (value : α) (draws : Nat → Draws α)
  /-- It is released. -/
  | release (when : α)
  /-- It is stopped without a release. -/
  | stop (when : α)

variable [Scalar α]

/-- The voice after something has happened to it; a change of a parameter that fails leaves it as it
was. -/
def act (v : Voice α) : Action α → Voice α
  | .start when duration bend => v.start when duration bend
  | .tweak name value draws =>
    match v.tweak name value draws with
    | .ok tweaked => tweaked
    | .error _ => v
  | .release when => (v.release when).1
  | .stop when => v.stop when

/-- The voice after a row of things has happened to it. -/
def play (v : Voice α) (actions : List (Action α)) : Voice α :=
  actions.foldl act v

/-! ## Tweaks that are up to date -/

/-- The property of the tweak has the value that the tweak has while the parameters have the given
values, whatever is drawn. -/
def UpToDate (v : Voice α) (values : Named α) (t : Tweak α) : Prop :=
  ∃ x, (∀ draws, v.evaluate values draws t = .ok x) ∧ v.own? t.target = some x

variable {base v w : Voice α}

/-- A tweak stays up to date as long as its property and the parameters it refers to keep their
values. -/
theorem UpToDate.congr {values others : Named α} {t : Tweak α} (u : v.UpToDate values t)
    {patch : Patch α} (steady : Steady patch) (mem : t ∈ patch.tweaks) (hv : v.patch = patch)
    (hw : w.patch = patch) (own : w.own? t.target = v.own? t.target)
    (agree : ∀ name, .param name ∈ t.value → others[name]? = values[name]?) :
    w.UpToDate others t := by
  obtain ⟨x, value, here⟩ := u
  refine ⟨x, fun draws => ?_, own.trans here⟩
  exact evaluate_congr steady mem hv hw (by rw [own]) agree (value draws)

/-- The voice comes from an untweaked one by changes of tweaked properties alone. -/
structure Descends (base v : Voice α) : Prop where
  patch : v.patch = base.patch
  /-- No property has come or gone. -/
  shape : ∀ target, (v.own? target).isSome = (base.own? target).isSome
  /-- A property that is not tweaked is as it was. -/
  others : ∀ target, (∀ t ∈ base.patch.tweaks, t.target ≠ target) →
    v.own? target = base.own? target

/-- The voice comes from an untweaked one, and all its tweaks are up to date. -/
structure Settled (base v : Voice α) : Prop extends Descends base v where
  /-- Every parameter has a value. -/
  complete : ∀ name ∈ base.patch.defaults, name ∈ v.values
  /-- Every tweak is up to date with the parameters. -/
  tweaked : ∀ t ∈ base.patch.tweaks, v.UpToDate v.values t

/-! ## Assigning settings -/

section Assign

variable {values : Named α} {draws : Nat → Draws α} {chosen : Tweak α → Bool}
  {settings : List (Endpoint × α)} (set : v.settings values draws chosen = .ok settings)
  (d : Descends base v)

include set d

theorem Descends.assign : Descends base ({ v with values }.assign settings) := by
  refine ⟨(patch_assign _ settings).trans d.patch, ?_, ?_⟩
  · intro target
    exact (isSome_own?_assign { v with values } settings target).trans (d.shape target)
  · intro target free
    refine (own?_assign_of_ne { v with values } settings ?_).trans (d.others target free)
    intro s setHere same
    obtain ⟨t, mem, -, here⟩ := exists_chosen_of_mem_settings set setHere
    exact free t (d.patch ▸ mem) (here.trans same)

variable (steady : Steady base.patch)
include steady

/-- A chosen tweak is up to date once the settings are assigned. -/
theorem upToDate_of_chosen {t : Tweak α} (mem : t ∈ base.patch.tweaks)
    (isChosen : chosen t = true) :
    ({ v with values }.assign settings).UpToDate values t := by
  have once : (settings.map (·.1)).Nodup := nodup_settings set (by rw [d.patch]; exact steady.once)
  obtain ⟨x, place, here, value⟩ := exists_mem_settings set (d.patch ▸ mem) isChosen
  have there : (v.own? t.target).isSome = true := (evaluate_eq_ok_iff.1 value).2.2
  have own := own?_assign_of_mem { v with values } settings once here there
  refine ⟨x, fun draws => ?_, own⟩
  refine evaluate_congr steady mem d.patch (d.assign set).patch ?_ ?_ value
  · rw [own, there]
    rfl
  · intro name _
    rfl

/-- A tweak that was not chosen stays as up to date as it was: no chosen one sets its property. -/
theorem upToDate_of_not_chosen {t : Tweak α} (mem : t ∈ base.patch.tweaks)
    (notChosen : chosen t = false) (was : v.UpToDate values t) :
    ({ v with values }.assign settings).UpToDate values t := by
  have free : ∀ s ∈ settings, s.1 ≠ t.target := by
    intro s setHere same
    obtain ⟨u, other, isChosen, target⟩ := exists_chosen_of_mem_settings set setHere
    have this : u = t :=
      List.inj_on_of_nodup_map steady.once (d.patch ▸ other) mem (target.trans same)
    rw [this, notChosen] at isChosen
    cases isChosen
  exact was.congr steady mem d.patch (d.assign set).patch
    (own?_assign_of_ne { v with values } settings free) fun _ _ => rfl

/-- Assigning the settings of chosen tweaks settles a voice whose other tweaks were up to date. -/
theorem settled_assign (complete : ∀ name ∈ base.patch.defaults, name ∈ values)
    (kept : ∀ t ∈ base.patch.tweaks, chosen t = false → v.UpToDate values t) :
    Settled base ({ v with values }.assign settings) := by
  have values_eq : ({ v with values }.assign settings).values = values := values_assign _ settings
  refine ⟨d.assign set, ?_, ?_⟩
  · rw [values_eq]
    exact complete
  · intro t mem
    rw [values_eq]
    cases isChosen : chosen t with
    | true => exact upToDate_of_chosen set d steady mem isChosen
    | false => exact upToDate_of_not_chosen set d steady mem isChosen (kept t mem isChosen)

end Assign

namespace Settled

/-- Settled voices with the same parameters have the same values. -/
theorem own?_eq (h : Settled base v) (k : Settled base w) (steady : Steady base.patch)
    (same : v.values = w.values) (target : Endpoint) : v.own? target = w.own? target := by
  by_cases tweaked : ∃ t ∈ base.patch.tweaks, t.target = target
  · obtain ⟨t, mem, rfl⟩ := tweaked
    obtain ⟨x, value, own⟩ := h.tweaked t mem
    obtain ⟨y, value', own'⟩ := k.tweaked t mem
    have agree : w.evaluate w.values (fun _ => 0) t = .ok x := by
      refine evaluate_congr steady mem h.patch k.patch ?_ ?_ (value fun _ => 0)
      · rw [k.shape, h.shape]
      · intro name _
        rw [same]
    have equal : x = y := Except.ok.inj (agree.symm.trans (value' fun _ => 0))
    rw [own, own', equal]
  · have free : ∀ t ∈ base.patch.tweaks, t.target ≠ target := by
      intro t mem here
      exact tweaked ⟨t, mem, here⟩
    rw [h.others target free, k.others target free]

/-! ## What happens to a voice -/

/-- A change that only schedules something leaves a voice settled. -/
theorem alike (h : Settled base v) (steady : Steady base.patch) (a : Alike w v) :
    Settled base w := by
  refine ⟨⟨a.patch.trans h.patch, ?_, ?_⟩, ?_, ?_⟩
  · intro target
    rw [a.own, h.shape]
  · intro target free
    rw [a.own, h.others target free]
  · rw [a.values]
    exact h.complete
  · intro t mem
    rw [a.values]
    exact (h.tweaked t mem).congr steady mem h.patch (a.patch.trans h.patch) (a.own t.target)
      fun _ _ => rfl

/-- A change of a parameter that succeeds leaves a voice settled: a tweak that does not refer to the
parameter has the value it had. -/
theorem tweak (h : Settled base v) (steady : Steady base.patch) {name : String} {value : α}
    {draws : Nat → Draws α} (done : v.tweak name value draws = .ok w) : Settled base w := by
  unfold Voice.tweak at done
  split at done
  · obtain ⟨settings, set, done⟩ := Outcome.bind_eq_ok_iff.1 done
    cases done
    refine settled_assign set h.toDescends steady ?_ ?_
    · intro other mem
      exact Std.ExtTreeMap.mem_insert.2 (.inr (h.complete other mem))
    · intro t mem unreferenced
      obtain ⟨x, has, own⟩ := h.tweaked t mem
      refine ⟨x, fun draws => ?_, own⟩
      rw [v.evaluate_insert unreferenced, has]
  · cases done
    exact h

/-- A voice stays settled whatever happens to it. -/
theorem act (h : Settled base v) (steady : Steady base.patch) (a : Action α) :
    Settled base (v.act a) := by
  cases a with
  | start when duration bend => exact h.alike steady (alike_start v when duration bend)
  | tweak name value draws =>
      unfold Voice.act
      dsimp only
      split
      · next done => exact h.tweak steady done
      · exact h
  | release when => exact h.alike steady (alike_release v when)
  | stop when => exact h.alike steady (alike_stop v when)

/-- A voice stays settled whatever happens to it, however often. -/
theorem play (h : Settled base v) (steady : Steady base.patch) (actions : List (Action α)) :
    Settled base (v.play actions) := by
  induction actions generalizing v with
  | nil => exact h
  | cons a rest ih => exact ih (h.act steady a)

end Settled

/-! ## Building -/

variable {rack : Rack α} {patch : Patch α} {overrides : Named α} {draws : Nat → Draws α}

theorem untweaked_eq_ok (h : untweaked rack patch overrides = .ok base) :
    base.patch = patch ∧ base.values = patch.defaults ∪ overrides := by
  obtain ⟨made, -, h⟩ := Outcome.bind_eq_ok_iff.1 h
  obtain ⟨modules, -, h⟩ := Outcome.bind_eq_ok_iff.1 h
  cases h
  exact ⟨rfl, rfl⟩

/-- Other values for the parameters give the same instances. -/
theorem untweaked_of_untweaked (h : untweaked rack patch overrides = .ok base) (values : Named α) :
    untweaked rack patch values = .ok { base with values := patch.defaults ∪ values } := by
  obtain ⟨made, equipped, h⟩ := Outcome.bind_eq_ok_iff.1 h
  obtain ⟨modules, connected, h⟩ := Outcome.bind_eq_ok_iff.1 h
  cases h
  exact Outcome.bind_eq_ok_iff.2 ⟨made, equipped,
    Outcome.bind_eq_ok_iff.2 ⟨modules, connected, rfl⟩⟩

theorem exists_untweaked_of_build (h : build rack patch overrides draws = .ok v) :
    patch.isValid = true ∧ ∃ base, untweaked rack patch overrides = .ok base := by
  unfold build at h
  split at h
  · cases h
  · next valid =>
      obtain ⟨base, ready, -⟩ := Outcome.bind_eq_ok_iff.1 h
      exact ⟨by simpa using valid, base, ready⟩

/-- A voice that has been built is one of its patch. -/
theorem patch_build (h : build rack patch overrides draws = .ok v) : v.patch = patch := by
  obtain ⟨valid, base, ready⟩ := exists_untweaked_of_build h
  rw [build_of_untweaked valid ready] at h
  obtain ⟨settings, -, rfl⟩ := Outcome.map_eq_ok_iff.1 h
  rw [patch_assign, (untweaked_eq_ok ready).1]

/-- A voice that has been built is settled. -/
theorem settled_build (steady : Steady patch) (ready : untweaked rack patch overrides = .ok base)
    (h : build rack patch overrides draws = .ok v) : Settled base v ∧ v.values = base.values := by
  obtain ⟨valid, -⟩ := exists_untweaked_of_build h
  rw [build_of_untweaked valid ready] at h
  obtain ⟨settings, set, rfl⟩ := Outcome.map_eq_ok_iff.1 h
  obtain ⟨same, values⟩ := untweaked_eq_ok ready
  have complete : ∀ name ∈ base.patch.defaults, name ∈ base.values := by
    intro name mem
    rw [values, ← same]
    exact Std.ExtTreeMap.mem_union_of_left mem
  refine ⟨settled_assign set ⟨rfl, fun _ => rfl, fun _ _ => rfl⟩ (same ▸ steady) complete ?_,
    values_assign base settings⟩
  intro t mem notChosen
  cases notChosen

/-- A voice can be built anew with the parameters of a settled one, and has the same values. -/
theorem Settled.exists_build (h : Settled base v) (steady : Steady patch)
    (valid : patch.isValid = true) (ready : untweaked rack patch overrides = .ok base) :
    ∃ fresh, build rack patch v.values draws = .ok fresh ∧
      ∀ target, fresh.own? target = v.own? target := by
  have same := (untweaked_eq_ok ready).1
  have anew := untweaked_of_untweaked ready v.values
  rw [Patch.defaults_union_of_complete (same ▸ h.complete)] at anew
  have steady' : Steady base.patch := same ▸ steady
  have all : ∀ t ∈ base.patch.tweaks, ∀ draws, ∃ x,
      evaluate { base with values := v.values } v.values draws t = .ok x := by
    intro t mem draws
    obtain ⟨x, value, -⟩ := h.tweaked t mem
    exact ⟨x, evaluate_congr steady' mem h.patch rfl (h.shape t.target).symm (fun _ _ => rfl)
      (value draws)⟩
  obtain ⟨settings, set⟩ :=
    @exists_settings _ _ { base with values := v.values } v.values draws (fun _ => true) all
  have built : build rack patch v.values draws =
      .ok ({ base with values := v.values }.assign settings) := by
    rw [build_of_untweaked valid anew, set]
    rfl
  obtain ⟨anewSettled, values⟩ := settled_build steady anew built
  have settled : Settled base ({ base with values := v.values }.assign settings) :=
    ⟨⟨anewSettled.patch, anewSettled.shape, anewSettled.others⟩, anewSettled.complete,
      anewSettled.tweaked⟩
  exact ⟨_, built, settled.own?_eq h steady' values⟩

/-! ## Compiled patches -/

omit [Scalar α] in
/-- A compiled patch whose expressions draw nothing is steady in every arithmetic. -/
theorem steady_of_compile {home : Rack Float} {source : String} {patch : Patch Float}
    (compiled : Patch.compile home source = .ok patch)
    (calm : ∀ t ∈ patch.tweaks, t.value.isRandom = false) (lift : Float → α) :
    Steady (patch.map lift) := by
  have coherent := (Patch.coherent_of_compile compiled).map lift
  refine ⟨coherent.shapes, ?_, coherent.tweaksOnce⟩
  intro t mem
  obtain ⟨original, here, rfl⟩ := List.mem_map.1 mem
  exact (Postfix.isRandom_map lift original.value).trans (calm original here)

/-- Whatever has happened to a voice of a compiled patch whose expressions draw nothing, a voice can
be built anew with its parameters, and all properties of that have the same values. -/
theorem rebuild_eq {home : Rack Float} {source : String} {patch : Patch Float}
    (compiled : Patch.compile home source = .ok patch)
    (calm : ∀ t ∈ patch.tweaks, t.value.isRandom = false) (lift : Float → α) {rack : Rack α}
    {overrides : Named α} {draws : Nat → Draws α} {v : Voice α}
    (built : build rack (patch.map lift) overrides draws = .ok v) (actions : List (Action α))
    (others : Nat → Draws α) :
    ∃ fresh, build rack (patch.map lift) (v.play actions).values others = .ok fresh ∧
      ∀ target, fresh.own? target = (v.play actions).own? target := by
  have steady : Steady (patch.map lift) := steady_of_compile compiled calm lift
  obtain ⟨valid, base, ready⟩ := exists_untweaked_of_build built
  have settled : Settled base v := (settled_build steady ready built).1
  have steadyBase : Steady base.patch := by
    rw [(untweaked_eq_ok ready).1]
    exact steady
  exact (settled.play steadyBase actions).exists_build steady valid ready

/-- A tone can be built anew, whatever has happened to it. -/
theorem rebuild_eq_tone :
    ∃ patch v, Patch.compile .standard Checker.toneSource = .ok patch ∧
      build .standard (patch.map id) ∅ (fun _ _ => 0) = .ok v ∧
        ∀ (actions : List (Action Float)) (others : Nat → Draws Float),
          ∃ fresh, build .standard (patch.map id) (v.play actions).values others = .ok fresh ∧
            ∀ target, fresh.own? target = (v.play actions).own? target := by
  have playable : ((Patch.compile .standard Checker.toneSource).toOption.any fun patch =>
      (patch.tweaks.all fun t => !t.value.isRandom) &&
        (build .standard (patch.map id) ∅ fun _ _ => 0).toOption.isSome) = true := by
    decide +kernel
  obtain ⟨patch, compiled, playable⟩ := (Option.any_eq_true _ _).1 playable
  obtain ⟨calm, built⟩ := Bool.and_eq_true_iff.1 playable
  obtain ⟨v, built⟩ := Option.isSome_iff_exists.1 built
  have compiled := Outcome.toOption_eq_some_iff.1 compiled
  have built := Outcome.toOption_eq_some_iff.1 built
  have calm : ∀ t ∈ patch.tweaks, t.value.isRandom = false := by simpa using calm
  exact ⟨patch, v, compiled, built, rebuild_eq compiled calm id built⟩

end Voice
end SynthPatch
