import SynthPatch.Patch.Basic
import SynthPatch.Proofs.Keyboard.Provenance
import SynthPatch.Proofs.Voice.Changing
/-!
# Changing a parameter on all voices

A parameter is changed on every voice of a keyboard, those that have been let go of included.  Each
voice takes the change or refuses it by itself, whatever the others do, and those that refuse it are
told in the order of their numbers.

Main results:

- Structure {lit}`Keyboard.Broadcast`: what a change on all voices comes to.
- Theorem {lit}`Keyboard.broadcast_tweak`: so it does on every keyboard that plays a compiled patch.
-/

namespace SynthPatch
namespace Keyboard

variable {α : Type} [Scalar α] {k : Keyboard α} {name : String} {value : α}
  {draws : Nat → Nat → Draws α}

/-- What a change of a parameter on all voices comes to; `after` is the keyboard then, and the
voices that refused the change with their reasons. -/
structure Broadcast (k : Keyboard α) (name : String) (value : α) (draws : Nat → Nat → Draws α)
    (after : Keyboard α × List (Nat × VoiceError α)) : Prop where
  /-- Nothing but voices is changed. -/
  rest : { after.1 with voices := k.voices } = k
  /-- No voice comes or goes. -/
  present : ∀ id, id ∈ after.1.voices ↔ id ∈ k.voices
  /-- Each voice refuses the change and stays as it is, or takes it. -/
  each : ∀ id s, k.voices[id]? = some s → ∃ w, after.1.voices[id]? = some ⟨s.key, w⟩ ∧
    ((w = s.voice ∧ ∃ e, s.voice.Refuses name value (draws id) e ∧ (id, e) ∈ after.2) ∨
      (s.voice.Takes name value (draws id) w ∧ ∀ e, (id, e) ∉ after.2))
  /-- Exactly the voices are told that refuse the change, -/
  told : ∀ id e, (id, e) ∈ after.2 ↔
    ∃ s, k.voices[id]? = some s ∧ s.voice.Refuses name value (draws id) e
  /-- each once, and in the order of their numbers. -/
  ascending : (after.2.map (·.1)).Pairwise (· < ·)

/-! ## Outcomes -/

/-- Exactly the voices are told on which the change fails. -/
theorem mem_failures_iff {id : Nat} {e : VoiceError α} :
    (id, e) ∈ (k.tweak name value draws).2 ↔
      ∃ s, k.voices[id]? = some s ∧ s.voice.tweak name value (draws id) = .error e := by
  simp only [tweak, List.mem_filterMap, Prod.exists,
    Std.ExtTreeMap.mem_toList_iff_getElem?_eq_some]
  constructor
  · rintro ⟨other, s, found, told⟩
    cases outcome : s.voice.tweak name value (draws other) with
    | ok w => simp [outcome] at told
    | error d =>
        simp only [outcome, Option.some.injEq, Prod.mk.injEq] at told
        obtain ⟨rfl, rfl⟩ := told
        exact ⟨s, found, outcome⟩
  · rintro ⟨s, found, failed⟩
    exact ⟨id, s, found, by simp only [failed]⟩

/-- Voices are told in the order of their numbers. -/
theorem ascending_failures (k : Keyboard α) (name : String) (value : α)
    (draws : Nat → Nat → Draws α) :
    ((k.tweak name value draws).2.map (·.1)).Pairwise (· < ·) := by
  rw [List.pairwise_map]
  have numbers := Std.ExtTreeMap.ordered_keys_toList (t := k.voices)
  refine numbers.filterMap _ fun a b earlier x told y told' => ?_
  dsimp only at told told'
  split at told
  · cases told
  · split at told'
    · cases told'
    · cases told
      cases told'
      exact Nat.compare_eq_lt.1 earlier

theorem getElem?_voices_tweak (id : Nat) :
    (k.tweak name value draws).1.voices[id]? =
      k.voices[id]?.map (retune name value (draws id)) := by
  rw [tweak_eq, Std.ExtTreeMap.getElem?_map]

/-! ## All voices -/

/-- A parameter that is not mutable is changed on no voice, and no voice refuses the change. -/
theorem tweak_of_not_mutable {setup : Rack α × Patch α} (made : Made k setup)
    (fixed : setup.2.isMutable name = false) : k.tweak name value draws = (k, []) := by
  have same (id : Nat) (s : Sounding α) (found : k.voices[id]? = some s) :
      s.voice.tweak name value (draws id) = .ok s.voice := by
    refine Voice.tweak_of_not_mutable ?_ value (draws id)
    rw [(made id s found).patch_eq, fixed]
  have voices : (k.tweak name value draws).1.voices = k.voices := by
    refine Std.ExtTreeMap.ext_getElem? fun {id} => ?_
    rw [getElem?_voices_tweak]
    cases found : k.voices[id]? with
    | none => rfl
    | some s => rw [Option.map_some, retune, same id s found]
  have untold : (k.tweak name value draws).2 = [] := by
    refine List.eq_nil_iff_forall_not_mem.2 fun failure mem => ?_
    obtain ⟨s, found, failed⟩ := mem_failures_iff.1 mem
    rw [same failure.1 s found] at failed
    cases failed
  have rest : (k.tweak name value draws).1 =
      { k with voices := (k.tweak name value draws).1.voices } := rfl
  refine Prod.ext ?_ untold
  rw [rest, voices]

/-- A parameter that is mutable is changed on every voice that does not refuse it. -/
theorem Made.broadcast {setup : Rack α × Patch α} (made : Made k setup)
    (once : (setup.2.tweaks.map (·.target)).Nodup) (able : setup.2.isMutable name = true) :
    Broadcast k name value draws (k.tweak name value draws) := by
  have refuses {id : Nat} {s : Sounding α} (found : k.voices[id]? = some s) (e : VoiceError α) :
      s.voice.tweak name value (draws id) = .error e ↔
        s.voice.Refuses name value (draws id) e := by
    have played := made id s found
    exact Voice.tweak_eq_error_iff (played.patch_eq ▸ able) fun t => played.isSome_own?
  have takes {id : Nat} {s : Sounding α} (found : k.voices[id]? = some s) {w : Voice α}
      (done : s.voice.tweak name value (draws id) = .ok w) :
      s.voice.Takes name value (draws id) w := by
    have played := made id s found
    exact Voice.takes_of_tweak (played.patch_eq ▸ able) (fun t => played.isSome_own?)
      (played.patch_eq ▸ once) done
  have told (id : Nat) (e : VoiceError α) : (id, e) ∈ (k.tweak name value draws).2 ↔
      ∃ s, k.voices[id]? = some s ∧ s.voice.Refuses name value (draws id) e := by
    rw [mem_failures_iff]
    exact exists_congr fun s => and_congr_right fun found => refuses found e
  refine ⟨rfl, fun id => Std.ExtTreeMap.mem_map, ?_, told, ascending_failures k name value draws⟩
  intro id s found
  rw [getElem?_voices_tweak, found, Option.map_some]
  cases outcome : s.voice.tweak name value (draws id) with
  | error e =>
      have refused := (refuses found e).1 outcome
      refine ⟨s.voice, by rw [retune, outcome], .inl ⟨rfl, e, refused, ?_⟩⟩
      exact (told id e).2 ⟨s, found, refused⟩
  | ok w =>
      refine ⟨w, by rw [retune, outcome], .inr ⟨takes found outcome, fun e mem => ?_⟩⟩
      obtain ⟨other, there, failed⟩ := mem_failures_iff.1 mem
      rw [found, Option.some.injEq] at there
      rw [← there, outcome] at failed
      cases failed

/-- On a keyboard that plays a compiled patch, whatever has happened to it, a parameter that is not
mutable cannot be changed; any other is changed on every voice that does not refuse it, and the
voices that do are told and stay as they are. -/
theorem broadcast_tweak {home : Rack Float} {source : String} {patch : Patch Float}
    (compiled : Patch.compile home source = .ok patch) (lift : Float → α) (rack : Rack α)
    (actions : List (Action α)) (name : String) (value : α) (draws : Nat → Nat → Draws α) :
    (patch.isMutable name = false →
      ({ rack, patch := patch.map lift : Keyboard α }.play actions).tweak name value draws =
        ({ rack, patch := patch.map lift : Keyboard α }.play actions, [])) ∧
    (patch.isMutable name = true →
      Broadcast ({ rack, patch := patch.map lift : Keyboard α }.play actions) name value draws
        (({ rack, patch := patch.map lift : Keyboard α }.play actions).tweak
          name value draws)) := by
  have begun := consistent_new rack (patch.map lift)
  have made : Made ({ rack, patch := patch.map lift : Keyboard α }.play actions)
      (rack, patch.map lift) := (made_new rack (patch.map lift)).play begun actions
  rw [← Patch.isMutable_map lift patch name]
  refine ⟨fun fixed => tweak_of_not_mutable made fixed, fun able => made.broadcast ?_ able⟩
  exact ((Patch.coherent_of_compile compiled).map lift).tweaksOnce

/-! ## Two voices -/

/-- A tone whose pitch is raised by its level. -/
def raisedSource : String :=
  "@synth tone\n@end\nSAW-OSC:osc\nosc.out -> audio.in\nosc.pitch = param.pitch * param.level\n"

/-- Two notes, the second of a level far above all others; the first has been let go of. -/
def twoNotes : List (Action Float) :=
  [.noteOn { key := 60, when := 0 } fun _ _ => 0,
    .noteOn { key := 61, when := 0, values := .ofList [("level", (1e300 : Float))] } fun _ _ => 0,
    .noteOff 60 1]

/-- A pitch that the second note cannot take is taken by the first. -/
theorem broadcast_tweak_twoNotes :
    ∃ patch, Patch.compile .standard raisedSource = .ok patch ∧
      let played : Keyboard Float :=
        { rack := .standard, patch := patch.map id : Keyboard Float }.play twoNotes
      (∀ value draws, played.tweak "gain" value draws = (played, [])) ∧
      Broadcast played "pitch" 1e10 (fun _ _ _ => 0) (played.tweak "pitch" 1e10 fun _ _ _ => 0) ∧
      played.voices.keys = [0, 1] ∧
      (played.tweak "pitch" 1e10 fun _ _ _ => 0).2.map (·.1) = [1] := by
  have run : ((Patch.compile .standard raisedSource).toOption.any fun patch =>
      let played : Keyboard Float :=
        { rack := .standard, patch := patch.map id : Keyboard Float }.play twoNotes
      (patch.isMutable "gain" == false && patch.isMutable "pitch" == true) &&
        (played.voices.keys == [0, 1] &&
          (played.tweak "pitch" 1e10 fun _ _ _ => 0).2.map (·.1) == [1])) = true := by
    decide +kernel
  obtain ⟨patch, compiled, all⟩ := (Option.any_eq_true _ _).1 run
  simp only [Bool.and_eq_true, beq_iff_eq] at all
  obtain ⟨⟨fixed, able⟩, there, told⟩ := all
  have compiled := Outcome.toOption_eq_some_iff.1 compiled
  refine ⟨patch, compiled, fun value draws => ?_, ?_, there, told⟩
  · exact (broadcast_tweak compiled id .standard twoNotes "gain" value draws).1 fixed
  · exact (broadcast_tweak compiled id .standard twoNotes "pitch" 1e10 fun _ _ _ => 0).2 able

end Keyboard
end SynthPatch
