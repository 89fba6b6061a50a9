import SynthPatch.Proofs.Voice.Rebuilding
/-!
# Passing over tweaks

When a parameter changes, only the tweaks that refer to it are taken anew.  The others would give
what they gave before, so taking all of them anew would change nothing more and fail no sooner.

Main results:

- Theorem {lit}`Voice.assign_filter`: settings that are in effect already may be left out.
- Theorem {lit}`Voice.tweak_eq_retake`: a change comes to the same with the tweaks taken anew that
  refer to the parameter as with all of them.
- Theorem {lit}`Voice.references_suffice`: what an expression refers to is all it depends on.
-/

namespace SynthPatch

variable {α : Type}

namespace Voice

variable [Scalar α]

/-! ## All tweaks -/

/-- The property of the tweak has the value that the tweak has with the given draws. -/
def InEffect (v : Voice α) (draws : Draws α) (t : Tweak α) : Prop :=
  ∃ x, v.evaluate v.values draws t = .ok x ∧ v.own? t.target = some x

/-- Change a mutable parameter, and take every tweak anew. -/
def retake (v : Voice α) (name : String) (value : α) (draws : Nat → Draws α) :
    Except (VoiceError α) (Voice α) := do
  if v.patch.isMutable name then
    let values := v.values.insert name value
    let settings ← v.settings values draws fun _ => true
    return { v with values }.assign settings
  else return v

/-- Tweaks whose properties have the values they would be set to may be passed over. -/
theorem assign_filter {v w : Voice α} {values : Named α} {draws : Nat → Draws α}
    {chosen : Tweak α × Nat → Bool} {l : List (Tweak α × Nat)}
    (once : (l.map fun t => t.1.target).Nodup)
    (idle : ∀ t ∈ l, chosen t = false → ∃ x,
      v.setting values draws t = .ok (t.1.target, x) ∧ w.own? t.1.target = some x) :
    (do return w.assign (← (l.filter chosen).mapM (v.setting values draws))) =
      do return w.assign (← l.mapM (v.setting values draws)) := by
  -- The voice that takes the settings is left general, since a chosen tweak changes it on the way.
  induction l generalizing w with
  | nil => rfl
  | cons t rest ih =>
      obtain ⟨new, others⟩ := List.nodup_cons.1 once
      obtain ⟨here, later⟩ := List.forall_mem_cons.1 idle
      cases isChosen : chosen t with
      | true =>
          rw [List.filter_cons_of_pos isChosen, List.mapM_cons, List.mapM_cons]
          simp only [bind_assoc, pure_bind]
          refine Outcome.bind_congr fun s one => ih others fun u mem passed => ?_
          -- What the chosen tweak sets is another property than that of a tweak passed over.
          have apart : s.1 ≠ u.1.target := by
            rw [(setting_eq_ok one).1]
            exact fun same => new (List.mem_map.2 ⟨u, mem, same.symm⟩)
          obtain ⟨x, value, own⟩ := later u mem passed
          exact ⟨x, value, by rw [own?_setValue, if_neg apart, own]⟩
      | false =>
          obtain ⟨x, value, own⟩ := here isChosen
          have same (settings : List (Endpoint × α)) :
              w.assign ((t.1.target, x) :: settings) = w.assign settings :=
            congrArg (assign · settings) (modify_setValue_of_own? own)
          rw [List.filter_cons_of_neg (by simp [isChosen]), ih others later, List.mapM_cons, value]
          simp only [bind_assoc, pure_bind]
          exact Outcome.bind_congr fun settings _ => congrArg pure (same settings).symm

/-- A change of a parameter comes to what it would come to if every tweak was taken anew, as long as
the tweaks that do not refer to the parameter are in effect. -/
theorem tweak_eq_retake {v : Voice α} {name : String} {draws : Nat → Draws α}
    (once : (v.patch.tweaks.map (·.target)).Nodup)
    (kept : ∀ t place, v.patch.tweaks[place]? = some t → t.value.references name = false →
      v.InEffect (draws place) t) (value : α) :
    v.tweak name value draws = v.retake name value draws := by
  unfold tweak retake
  cases v.patch.isMutable name with
  | false => rfl
  | true =>
      simp only [if_true, settings, List.filter_true]
      refine assign_filter (by rwa [map_target_zipIdx]) fun (t, place) mem unreferenced => ?_
      obtain ⟨x, has, own⟩ := kept t place (List.mk_mem_zipIdx_iff_getElem?.1 mem) unreferenced
      rw [← v.evaluate_insert unreferenced v.values value] at has
      exact ⟨x, setting_of_evaluate has, own⟩

/-! ## Played voices -/

/-- A settled voice has every tweak in effect, whatever is drawn. -/
theorem Settled.tweak_eq_retake {base v : Voice α} (h : Settled base v)
    (steady : Steady base.patch) (name : String) (value : α) (draws : Nat → Draws α) :
    v.tweak name value draws = v.retake name value draws := by
  have once : (v.patch.tweaks.map (·.target)).Nodup := by
    rw [h.patch]
    exact steady.once
  refine Voice.tweak_eq_retake once (fun t place found _ => ?_) value
  obtain ⟨x, has, own⟩ := h.tweaked t (h.patch ▸ List.mem_of_getElem? found)
  exact ⟨x, has (draws place), own⟩

/-- Whatever has happened to a voice of a compiled patch whose expressions draw nothing, a change of
a parameter comes to what it would come to if every tweak was taken anew. -/
theorem tweak_play_eq_retake {home : Rack Float} {source : String} {patch : Patch Float}
    (compiled : Patch.compile home source = .ok patch)
    (calm : ∀ t ∈ patch.tweaks, t.value.isRandom = false) (lift : Float → α) {rack : Rack α}
    {overrides : Named α} {draws : Nat → Draws α} {v : Voice α}
    (built : build rack (patch.map lift) overrides draws = .ok v) (actions : List (Action α))
    (name : String) (value : α) (others : Nat → Draws α) :
    (v.play actions).tweak name value others = (v.play actions).retake name value others := by
  have steady : Steady (patch.map lift) := steady_of_compile compiled calm lift
  obtain ⟨-, base, ready⟩ := exists_untweaked_of_build built
  have steadyBase : Steady base.patch := by
    rw [(untweaked_eq_ok ready).1]
    exact steady
  have settled : Settled base v := (settled_build steady ready built).1
  exact (settled.play steadyBase actions).tweak_eq_retake steadyBase name value others

/-! ## What references are for -/

variable (α) in
/-- What an expression refers to is all that it depends on, so that a change of a parameter may pass
over the tweaks that do not refer to it. -/
structure ReferencesSuffice : Prop where
  /-- An expression made of any tokens comes to the same value or to the same fault in tables that
  agree on the values and on the bounds of the parameters it refers to, if the same is drawn. -/
  agreeing : ∀ (p : Postfix α) {values others minima lows maxima highs : Named α},
    (∀ name ∈ p.params, values[name]? = others[name]? ∧ minima[name]? = lows[name]? ∧
      maxima[name]? = highs[name]?) →
    ∀ draws, p.evaluate (.ofTables values minima maxima) draws =
      p.evaluate (.ofTables others lows highs) draws
  /-- A parameter that it does not refer to may have any value, or none. -/
  unreferenced : ∀ (p : Postfix α) {name : String}, p.references name = false →
    ∀ {values others : Named α}, (∀ other, other ≠ name → values[other]? = others[other]?) →
    ∀ minima maxima draws, p.evaluate (.ofTables values minima maxima) draws =
      p.evaluate (.ofTables others minima maxima) draws
  /-- Where no property is tweaked twice and the tweaks that do not refer to a parameter are in
  effect, a change of the parameter comes to what it would come to if these were taken anew too. -/
  passedOver : ∀ {v : Voice α} {name : String} {draws : Nat → Draws α},
    (v.patch.tweaks.map (·.target)).Nodup →
    (∀ t place, v.patch.tweaks[place]? = some t → t.value.references name = false →
      v.InEffect (draws place) t) →
    ∀ value, v.tweak name value draws = v.retake name value draws
  /-- That is how it is with a voice of a compiled patch whose expressions draw nothing, whatever
  has happened to the voice. -/
  played : ∀ {home : Rack Float} {source : String} {patch : Patch Float},
    Patch.compile home source = .ok patch → (∀ t ∈ patch.tweaks, t.value.isRandom = false) →
    ∀ (lift : Float → α) {rack : Rack α} {overrides : Named α} {draws : Nat → Draws α}
      {v : Voice α}, build rack (patch.map lift) overrides draws = .ok v →
    ∀ (actions : List (Action α)) (name : String) (value : α) (others : Nat → Draws α),
      (v.play actions).tweak name value others = (v.play actions).retake name value others

/-- What an expression refers to is all that it depends on. -/
theorem references_suffice : ReferencesSuffice α where
  agreeing p _ _ _ _ _ _ agree draws := by
    refine Postfix.evaluate_congr fun name used => ?_
    have referred : name ∈ p.params := List.contains_iff_mem.1 (Postfix.references_iff.2 used)
    obtain ⟨value, low, high⟩ := agree name referred
    exact Scope.agree_ofTables value low high
  unreferenced _ _ unreferenced _ _ apart minima maxima _ :=
    Postfix.evaluate_of_unreferenced unreferenced apart minima maxima
  passedOver once kept value := tweak_eq_retake once kept value
  played compiled calm lift _ _ _ _ built actions name value others :=
    tweak_play_eq_retake compiled calm lift built actions name value others

end Voice
end SynthPatch
