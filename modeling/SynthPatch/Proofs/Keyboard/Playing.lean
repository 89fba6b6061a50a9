import SynthPatch.Keyboard.Basic
import SynthPatch.Proofs.Outcome
import Mathlib.Data.List.Nodup
/-!
# Playing a keyboard

A keyboard is played by striking and letting go of keys, by letting time go on, by changing
parameters and by silencing everything.  This module says what each of these does to the tables of
the keyboard, and runs a row of them.

Main results:

- Definition {lit}`Keyboard.act`: the keyboard after something has happened to it.
- Theorem {lit}`Keyboard.release_cases`: what letting go of a key comes to.
- Theorems {lit}`Keyboard.noteOn_cases`, {lit}`Keyboard.strike_cases`: what striking a note comes
  to.
- Theorem {lit}`Keyboard.swept_advance`: exactly the voices that a due teardown names are removed.
-/

namespace SynthPatch
namespace Keyboard

variable {α : Type}

/-- What can happen to a keyboard. -/
inductive Action (α : Type) where
  /-- A note is struck. -/
  | noteOn (note : Note α) (draws : Nat → Draws α)
  /-- A key is let go of. -/
  | noteOff (key : UInt8) (when : α)
  /-- Time goes on, and the voices that are due are removed. -/
  | advance (now : α)
  /-- A parameter is changed on every voice. -/
  | tweak (name : String) (value : α) (draws : Nat → Nat → Draws α)
  /-- Everything is silenced and removed. -/
  | panic

/-- The key holds the voice. -/
def Holds (k : Keyboard α) (key : UInt8) (id : Nat) : Prop :=
  k.held[key]? = some id

/-- A teardown of the voice is pending. -/
def Awaits (k : Keyboard α) (id : Nat) : Prop :=
  ∃ t ∈ k.schedule.pending, t.voice = id

/-! ## Removing one voice after the other -/

/-- Teardowns that name the given voices have been dealt with. -/
structure Swept (start : Keyboard α) (named : List Nat) (state : Keyboard α × List Nat) : Prop where
  /-- The voices that are named are gone, the others are as they were. -/
  voices : ∀ id, state.1.voices[id]? = if id ∈ named then none else start.voices[id]?
  /-- The keys that held a voice that is named are free, the others hold what they held. -/
  held : ∀ key id, state.1.Holds key id ↔ start.Holds key id ∧ id ∉ named
  schedule : state.1.schedule = start.schedule
  nextId : state.1.nextId = start.nextId
  /-- The voices that are named and were there have been removed. -/
  mem_removed : ∀ id, id ∈ state.2 ↔ id ∈ named ∧ id ∈ start.voices
  nodup_removed : state.2.Nodup

/-- Every key that holds a voice holds one that is there and was struck on it. -/
def Matched (k : Keyboard α) : Prop :=
  ∀ key id, k.Holds key id → ∃ s, k.voices[id]? = some s ∧ s.key = key

section Sweep

variable {start : Keyboard α} {named : List Nat} {state : Keyboard α × List Nat}

/-- The voices that are left were there before and are not named. -/
theorem Swept.mem_voices (h : Swept start named state) (id : Nat) :
    id ∈ state.1.voices ↔ id ∈ start.voices ∧ id ∉ named := by
  rw [Std.ExtTreeMap.mem_iff_isSome_getElem?, Std.ExtTreeMap.mem_iff_isSome_getElem?, h.voices]
  split <;> simp [*]

/-- A teardown of a voice that is gone changes nothing. -/
theorem Swept.of_absent (h : Swept start named state) (matched : Matched start) {t : Teardown α}
    (absent : state.1.voices[t.voice]? = none) :
    Swept start (named ++ [t.voice]) (sweep state t) := by
  have same : sweep state t = state := by simp only [sweep, drop, absent]
  have gone : t.voice ∈ named ∨ start.voices[t.voice]? = none := by
    have looked := h.voices t.voice
    rw [absent] at looked
    by_cases mem : t.voice ∈ named
    · exact .inl mem
    · rw [if_neg mem] at looked
      exact .inr looked.symm
  rw [same]
  refine ⟨fun id => ?_, fun key id => ?_, h.schedule, h.nextId, fun id => ?_, h.nodup_removed⟩
  · rw [h.voices]
    by_cases this : id = t.voice
    · subst this
      rcases gone with gone | gone <;> simp [gone]
    · simp [this]
  · rw [h.held]
    refine and_congr_right fun holds => ?_
    have there : id = t.voice → t.voice ∈ named := by
      rintro rfl
      obtain ⟨s, found, -⟩ := matched key _ holds
      exact gone.resolve_right (by simp [found])
    simp only [List.mem_append, List.mem_singleton, not_or]
    exact ⟨fun out => ⟨out, fun eq => out (eq ▸ there eq)⟩, fun out => out.1⟩
  · rw [h.mem_removed]
    refine and_congr_left fun present => ?_
    have there : id = t.voice → t.voice ∈ named := by
      rintro rfl
      refine gone.resolve_right fun missing => ?_
      rw [Std.ExtTreeMap.mem_iff_isSome_getElem?, missing] at present
      cases present
    simp only [List.mem_append, List.mem_singleton]
    exact ⟨.inl, fun either => either.elim (fun mem => mem) fun eq => eq ▸ there eq⟩

/-- A teardown of a voice that is there removes it, and frees its key if the key still holds it. -/
theorem Swept.of_present (h : Swept start named state) (matched : Matched start) {t : Teardown α}
    {s : Sounding α} (present : state.1.voices[t.voice]? = some s) :
    Swept start (named ++ [t.voice]) (sweep state t) := by
  have fresh : t.voice ∉ named := by
    intro mem
    have looked := h.voices t.voice
    rw [if_pos mem, present] at looked
    cases looked
  have found : start.voices[t.voice]? = some s := by
    have looked := h.voices t.voice
    rwa [if_neg fresh, present, eq_comm] at looked
  simp only [sweep, drop, present]
  refine ⟨fun id => ?_, fun key id => ?_, h.schedule, h.nextId, fun id => ?_, ?_⟩
  · rw [Std.ExtTreeMap.getElem?_erase, h.voices]
    by_cases this : t.voice = id
    · simp [this]
    · simp [this, Ne.symm this]
  · -- Only the key it was struck on can hold the voice.
    have own : ∀ {key}, start.Holds key t.voice → s.key = key := by
      intro key holds
      obtain ⟨other, there, same⟩ := matched key _ holds
      rw [found] at there
      cases there
      exact same
    have before := h.held
    unfold Holds at before own ⊢
    simp only [List.mem_append, List.mem_singleton, not_or]
    split
    · next holds =>
        rw [Std.ExtTreeMap.getElem?_erase]
        by_cases same : s.key = key
        · subst same
          have here := ((before s.key t.voice).1 holds).1
          simp only [Std.LawfulEqCmp.compare_eq_iff_eq, ↓reduceIte, reduceCtorEq, false_iff]
          rintro ⟨holds', -, other⟩
          exact other (Option.some.inj (holds'.symm.trans here))
        · have apart : start.held[key]? = some id → id ≠ t.voice := by
            rintro holds' rfl
            exact same (own holds')
          simp only [Std.LawfulEqCmp.compare_eq_iff_eq, same, ↓reduceIte, before]
          tauto
    · next free =>
        have apart : start.held[key]? = some id → id ≠ t.voice := by
          rintro holds rfl
          have here := own holds
          subst here
          exact free ((before _ _).2 ⟨holds, fresh⟩)
        rw [before]
        tauto
  · have there : t.voice ∈ start.voices := (Std.ExtTreeMap.getElem?_eq_some_iff.1 found).1
    simp only [List.mem_append, List.mem_singleton, h.mem_removed]
    constructor
    · rintro (⟨mem, present⟩ | rfl)
      · exact ⟨.inl mem, present⟩
      · exact ⟨.inr rfl, there⟩
    · rintro ⟨mem | rfl, present⟩
      · exact .inl ⟨mem, present⟩
      · exact .inr rfl
  · refine List.nodup_append.2 ⟨h.nodup_removed, List.nodup_singleton _, ?_⟩
    rintro id mem _ last rfl
    rw [List.mem_singleton] at last
    subst last
    exact fresh ((h.mem_removed _).1 mem).1

theorem Swept.sweep (h : Swept start named state) (matched : Matched start) (t : Teardown α) :
    Swept start (named ++ [t.voice]) (sweep state t) := by
  cases found : state.1.voices[t.voice]? with
  | none => exact h.of_absent matched found
  | some s => exact h.of_present matched found

theorem Swept.foldl (h : Swept start named state) (matched : Matched start)
    (due : List (Teardown α)) :
    Swept start (named ++ due.map (·.voice)) (due.foldl Keyboard.sweep state) := by
  induction due generalizing named state with
  | nil => simpa using h
  | cons t rest ih =>
      have next := ih (h.sweep matched t)
      rwa [List.append_assoc] at next

end Sweep

/-! ## What can happen -/

variable [Scalar α]

/-- The keyboard after something has happened to it. -/
def act (k : Keyboard α) : Action α → Keyboard α
  | .noteOn note draws => (k.noteOn note draws).1
  | .noteOff key when => (k.noteOff key when).1
  | .advance now => (k.advance now).1
  | .tweak name value draws => (k.tweak name value draws).1
  | .panic => k.panic

/-- The numbers that are given out: one if a note is struck and its voice can be built. -/
def given (k : Keyboard α) : Action α → List Nat
  | .noteOn note draws => (k.noteOn note draws).2.toOption.toList
  | _ => []

/-- The numbers of the voices that are removed. -/
def removed (k : Keyboard α) : Action α → List Nat
  | .advance now => (k.advance now).2
  | .panic => k.voices.keys
  | _ => []

/-- The keyboard after a row of things has happened to it. -/
def play (k : Keyboard α) (actions : List (Action α)) : Keyboard α :=
  actions.foldl act k

/-! ## Letting go -/

/-- A key that holds no voice is let go of in vain. -/
theorem release_of_free {k : Keyboard α} {key : UInt8} (free : k.held[key]? = none) (when : α) :
    k.release key when = (k, none) := by
  simp only [release, free]

/-- The voice that a key holds is released, and its teardown is scheduled. -/
theorem release_of_holds {k : Keyboard α} {key : UInt8} {id : Nat} {s : Sounding α}
    (holds : k.Holds key id) (found : k.voices[id]? = some s) (when : α) :
    k.release key when =
      ({ k with
          held := k.held.erase key
          voices := k.voices.insert id { s with voice := (s.voice.release when).1 }
          schedule := k.schedule.push ⟨(s.voice.release when).2, id⟩ },
        some (s.voice.release when).2) := by
  have holds : k.held[key]? = some id := holds
  simp only [release, holds, found]

/-- Letting go of a key does nothing if it holds no voice, frees the key if the voice it holds is
gone, and otherwise releases the voice and schedules its teardown. -/
theorem release_cases (k : Keyboard α) (key : UInt8) (when : α) :
    (k.held[key]? = none ∧ (k.release key when).1 = k) ∨
    (∃ id, k.Holds key id ∧ k.voices[id]? = none ∧
      (k.release key when).1 = { k with held := k.held.erase key }) ∨
    ∃ id s, k.Holds key id ∧ k.voices[id]? = some s ∧
      (k.release key when).1 = { k with
        held := k.held.erase key
        voices := k.voices.insert id { s with voice := (s.voice.release when).1 }
        schedule := k.schedule.push ⟨(s.voice.release when).2, id⟩ } := by
  cases holds : k.held[key]? with
  | none => exact .inl ⟨rfl, by rw [release_of_free holds]⟩
  | some id =>
      cases found : k.voices[id]? with
      | none => exact .inr (.inl ⟨id, holds, found, by simp only [release, holds, found]⟩)
      | some s => exact .inr (.inr ⟨id, s, holds, found, by rw [release_of_holds holds found]⟩)

/-! ## Striking -/

/-- The voice of a note without a duration sounds on; that of a note with one is released at once,
as of its end. -/
theorem strike_cases {k : Keyboard α} {note : Note α} {draws : Nat → Draws α} {voice : Voice α}
    {due : Option α} (h : k.strike note draws = .ok (voice, due)) :
    ∃ built, Voice.build k.rack k.patch note.values draws = .ok built ∧
      ((note.duration = none ∧ voice = built.start note.when none note.bend ∧ due = none) ∨
        ∃ duration released, note.duration = some duration ∧
          (built.start note.when (some duration) note.bend).release (note.when + duration) =
            released ∧
          voice = released.1 ∧ due = some released.2) := by
  obtain ⟨built, made, h⟩ := Outcome.bind_eq_ok_iff.1 h
  refine ⟨built, made, ?_⟩
  cases given : note.duration with
  | none =>
      rw [given] at h
      cases h
      exact .inl ⟨rfl, rfl, rfl⟩
  | some duration =>
      rw [given] at h
      cases h
      exact .inr ⟨duration, _, rfl, rfl, rfl, rfl⟩

/-- Striking a note lets go of its key; then the voice is put on it, or it cannot be built and
nothing else happens. -/
theorem noteOn_cases (k : Keyboard α) (note : Note α) (draws : Nat → Draws α) :
    (∃ e, (k.release note.key note.when).1.strike note draws = .error e ∧
      k.noteOn note draws = ((k.release note.key note.when).1, .error e)) ∨
    ∃ voice due, (k.release note.key note.when).1.strike note draws = .ok (voice, due) ∧
      k.noteOn note draws =
        ((k.release note.key note.when).1.hold note.key voice due, .ok k.nextId) := by
  cases built : (k.release note.key note.when).1.strike note draws with
  | error e => exact .inl ⟨e, rfl, by simp only [noteOn, built]⟩
  | ok made => exact .inr ⟨made.1, made.2, rfl, by simp only [noteOn, built, nextId_release]⟩

/-! ## Tweaking -/

/-- A parameter that is changed is changed on every voice, and nothing else happens. -/
theorem tweak_eq (k : Keyboard α) (name : String) (value : α) (draws : Nat → Nat → Draws α) :
    (k.tweak name value draws).1 =
      { k with voices := k.voices.map fun id s => retune name value (draws id) s } :=
  rfl

/-! ## Removing what is due -/

/-- The voices that a teardown names which is due. -/
def dueVoices (k : Keyboard α) (now : α) : List Nat :=
  (k.schedule.drain now).1.map (·.voice)

/-- Exactly the voices that a due teardown names are removed, and exactly their keys are freed. -/
theorem swept_advance {k : Keyboard α} (matched : Matched k) (now : α) :
    Swept { k with schedule := (k.schedule.drain now).2 } (k.dueVoices now) (k.advance now) := by
  let start : Keyboard α := { k with schedule := (k.schedule.drain now).2 }
  have begun : Swept start [] (start, []) :=
    ⟨by simp, by simp, rfl, rfl, by simp, List.nodup_nil⟩
  exact begun.foldl matched (k.schedule.drain now).1

/-! ## A patch to play -/

/-- A patch that takes a second to rise, a second to fall back and a second to die away. -/
def swellSource : String :=
  "@synth swell\n@end\nSAW-OSC:osc\nVCA:amp\nADSR:env\nosc.out -> amp.in\namp.out -> audio.in\n" ++
    "env.out -> amp.level\nenv.attack = 1\nenv.decay = 1\nenv.release = 1\n"

end Keyboard
end SynthPatch
