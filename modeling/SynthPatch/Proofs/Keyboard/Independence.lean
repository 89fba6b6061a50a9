import SynthPatch.Proofs.Keyboard.Refusal
import SynthPatch.Proofs.Keyboard.Removal
import SynthPatch.Proofs.Tables
/-!
# Keys do not interfere

What is done to different keys may be done in either order.  Each key holds a voice of its own, and
teardowns of different voices stand in the same order whichever of them was added first.  A new
voice takes the same number in both orders, and it is the same voice as long as the patch draws
nothing at random.

Main results:

- Theorem {lit}`Schedule.Sorted.push_comm`: teardowns of different voices may be added in either
  order.
- Theorem {lit}`Keyboard.release_comm`: different keys may be let go of in either order.
- Theorem {lit}`Keyboard.release_hold`: a key may be let go of before or after another one takes a
  voice.
- Theorem {lit}`Keyboard.keysIndependent_play`: the keys of a keyboard that was played do not
  interfere.
-/

namespace SynthPatch

/-! ## Teardowns in either order -/

namespace Schedule

/-- Of the teardowns of two voices exactly one comes first. -/
theorem goesBefore_total {t u : Teardown Double} (apart : t.voice ≠ u.voice) :
    goesBefore t u = true ∧ goesBefore u t = false ∨
      goesBefore u t = true ∧ goesBefore t u = false := by
  simp only [← Bool.not_eq_true, goesBefore_iff]
  omega

namespace Sorted

variable {s : Schedule Double} (h : Sorted s) {t u : Teardown Double}

include h

/-- Two teardowns, the first of which comes first, take the same places in either order. -/
theorem pending_push_push (first : goesBefore t u = true) (behind : goesBefore u t = false) :
    ((s.push t).push u).pending = ((s.push u).push t).pending := by
  have before : ∀ x, goesBefore x t = true → goesBefore x u = true := by
    intro x early
    rw [goesBefore_iff] at first early ⊢
    omega
  -- What goes before the first also goes before the second.
  have early (x : Teardown Double) :
      (goesBefore x u && goesBefore x t) = goesBefore x t := by
    cases hx : goesBefore x t with
    | true => simp [before x hx]
    | false => simp
  have late (x : Teardown Double) : (!goesBefore x u && !goesBefore x t) = !goesBefore x u := by
    cases hx : goesBefore x t with
    | true => simp [before x hx]
    | false => simp
  have none (x : Teardown Double) : (!goesBefore x u && goesBefore x t) = false := by
    cases hx : goesBefore x t with
    | true => simp [before x hx]
    | false => simp
  rw [(h.push t).pending_push u, (h.push u).pending_push t, h.pending_push t, h.pending_push u]
  simp only [List.filter_append, List.filter_cons, List.filter_filter, first, behind, early, late,
    none, Bool.and_comm (goesBefore _ t) _, Bool.and_comm (!goesBefore _ t) _]
  simp

/-- Teardowns of different voices may be added in either order. -/
theorem push_comm (apart : t.voice ≠ u.voice) : (s.push t).push u = (s.push u).push t := by
  suffices same : ((s.push t).push u).pending = ((s.push u).push t).pending by
    exact congrArg Schedule.mk same
  rcases goesBefore_total apart with ⟨first, behind⟩ | ⟨first, behind⟩
  · exact h.pending_push_push first behind
  · exact (h.pending_push_push first behind).symm

end Sorted

end Schedule

/-! ## Voices of which nothing is drawn -/

namespace Voice

variable {α : Type} [Scalar α]

/-- What would be drawn does not bear on the voice of a patch that draws nothing, and not on the
reason why it cannot be built. -/
theorem build_of_calm {rack : Rack α} {patch : Patch α}
    (calm : ∀ t ∈ patch.tweaks, t.value.isRandom = false) (overrides : Named α)
    (draws others : Nat → Draws α) :
    build rack patch overrides draws = build rack patch overrides others := by
  unfold build
  split
  · rfl
  · cases ready : untweaked rack patch overrides with
    | error e => rfl
    | ok base =>
        have set : base.settings base.values draws (fun _ => true) =
            base.settings base.values others fun _ => true := by
          refine Outcome.mapM_congr fun t mem => ?_
          have tweak : t.1 ∈ patch.tweaks := by
            rw [← (untweaked_eq_ok ready).1]
            exact List.fst_mem_of_mem_zipIdx (List.mem_filter.1 mem).1
          rw [setting, setting, evaluate, evaluate, Postfix.evaluate_of_calm (calm t.1 tweak)]
        simp only [bind, Except.bind, set]

end Voice

namespace Keyboard

variable {k : Keyboard Double} {key other : UInt8}

/-! ## Letting go -/

/-- A key holds nothing, or a voice that is there and was struck on it. -/
theorem Consistent.free_or_holds {α : Type} {k : Keyboard α} (consistent : Consistent k)
    (key : UInt8) :
    k.held[key]? = none ∨
      ∃ id s, k.Holds key id ∧ k.voices[id]? = some s ∧ s.key = key := by
  cases holds : k.held[key]? with
  | none => exact .inl rfl
  | some id =>
      obtain ⟨s, found, same⟩ := consistent.matched key id holds
      exact .inr ⟨id, s, holds, found, same⟩

/-- Another key holds what it held. -/
theorem held_release_of_ne {α : Type} [Scalar α] {k : Keyboard α} (apart : key ≠ other) (when : α) :
    (k.release key when).1.held[other]? = k.held[other]? := by
  rw [held_release, if_neg apart]

/-- Different keys may be let go of in either order. -/
theorem release_comm (consistent : Consistent k) (sorted : k.schedule.Sorted)
    (apart : key ≠ other) (when later : Double) :
    ((k.release key when).1.release other later).1 =
        ((k.release other later).1.release key when).1 ∧
      ((k.release key when).1.release other later).2 = (k.release other later).2 := by
  rcases consistent.free_or_holds other with free | ⟨j, r, holdsOther, foundOther, keyOther⟩
  · have freeToo := (held_release_of_ne (k := k) apart when).trans free
    rw [release_of_free free, release_of_free freeToo]
    exact ⟨rfl, rfl⟩
  · rcases consistent.free_or_holds key with free | ⟨i, s, holds, found, keyHere⟩
    · have freeToo := (held_release_of_ne (k := k) apart.symm later).trans free
      rw [release_of_free free, release_of_free freeToo]
      exact ⟨rfl, rfl⟩
    · have voices : i ≠ j := by
        rintro rfl
        rw [found] at foundOther
        cases foundOther
        exact apart (keyHere.symm.trans keyOther)
      have holdsToo : (k.release key when).1.Holds other j :=
        (held_release_of_ne apart when).trans holdsOther
      have holdsHere : (k.release other later).1.Holds key i :=
        (held_release_of_ne apart.symm later).trans holds
      rw [release_of_holds holds found] at holdsToo ⊢
      rw [release_of_holds holdsOther foundOther] at holdsHere ⊢
      rw [release_of_holds holdsToo (s := r) (by simp [Std.ExtTreeMap.getElem?_insert, voices,
        foundOther]),
        release_of_holds holdsHere (s := s) (by simp [Std.ExtTreeMap.getElem?_insert, voices.symm,
          found])]
      refine ⟨?_, rfl⟩
      simp only [Table.erase_comm k.held (a := key), Table.insert_comm k.voices voices,
        sorted.push_comm (t := ⟨(s.voice.release when).2, i⟩)
          (u := ⟨(r.voice.release later).2, j⟩) voices]

/-- A key may be let go of before or after another one takes a voice. -/
theorem release_hold (consistent : Consistent k) (sorted : k.schedule.Sorted)
    (apart : key ≠ other) (voice : Voice Double) (due : Option Double) (later : Double) :
    (k.hold key voice due).release other later =
      ((k.release other later).1.hold key voice due, (k.release other later).2) := by
  have heldToo : (k.hold key voice due).held[other]? = k.held[other]? := by
    simp [hold, Std.ExtTreeMap.getElem?_insert, apart]
  rcases consistent.free_or_holds other with free | ⟨j, r, holds, found, -⟩
  · rw [release_of_free free, release_of_free (heldToo.trans free)]
  · have fresh : k.nextId ≠ j := (consistent.heldBelow holds).ne'
    have foundToo : (k.hold key voice due).voices[j]? = some r := by
      simp [hold, Std.ExtTreeMap.getElem?_insert, fresh, found]
    rw [release_of_holds holds found, release_of_holds (heldToo.trans holds) foundToo]
    cases due with
    | none =>
        simp only [hold, Table.insert_erase_comm k.held apart, Table.insert_comm k.voices fresh]
    | some due =>
        simp only [hold, Table.insert_erase_comm k.held apart, Table.insert_comm k.voices fresh,
          sorted.push_comm (t := ⟨due, k.nextId⟩) (u := ⟨(r.voice.release later).2, j⟩) fresh]

/-! ## Striking -/

/-- What is struck depends on the rack and the patch of a keyboard only. -/
theorem strike_congr {α : Type} [Scalar α] {k l : Keyboard α} (same : k.setup = l.setup)
    (note : Note α) (draws : Nat → Draws α) : k.strike note draws = l.strike note draws := by
  simp only [setup, Prod.mk.injEq] at same
  rw [strike, strike, same.1, same.2]

section NoteOn

variable {α : Type} [Scalar α] {k : Keyboard α} {note : Note α} {draws : Nat → Draws α}

/-- A note whose voice cannot be built lets go of its key. -/
theorem noteOn_of_strike_error {e : VoiceError α} (failed : k.strike note draws = .error e) :
    k.noteOn note draws = ((k.release note.key note.when).1, .error e) := by
  rw [← strike_congr (k.setup_release note.key note.when)] at failed
  simp only [noteOn, failed]

/-- A voice that can be built takes the key that was let go of. -/
theorem noteOn_of_strike_ok {voice : Voice α} {due : Option α}
    (struck : k.strike note draws = .ok (voice, due)) :
    k.noteOn note draws =
      ((k.release note.key note.when).1.hold note.key voice due, .ok k.nextId) := by
  rw [← strike_congr (k.setup_release note.key note.when)] at struck
  simp only [noteOn, struck, nextId_release]

/-- What would be drawn does not bear on a note of a patch that draws nothing. -/
theorem noteOn_of_calm (calm : ∀ t ∈ k.patch.tweaks, t.value.isRandom = false) (note : Note α)
    (draws others : Nat → Draws α) : k.noteOn note draws = k.noteOn note others := by
  have same : k.strike note draws = k.strike note others := by
    rw [strike, strike, Voice.build_of_calm calm note.values draws others]
  cases struck : k.strike note draws with
  | error e =>
      rw [noteOn_of_strike_error struck, noteOn_of_strike_error (same.symm.trans struck)]
  | ok made =>
      rw [noteOn_of_strike_ok struck, noteOn_of_strike_ok (same.symm.trans struck)]

end NoteOn

/-- Two calls come to the same in either order. -/
structure Interchange {β γ : Type} (k : Keyboard Double)
    (call : Keyboard Double → Keyboard Double × β)
    (next : Keyboard Double → Keyboard Double × γ) : Prop where
  /-- The first call gives what it gives when it comes second. -/
  first : (call k).2 = (call (next k).1).2
  /-- The second call gives what it gives when it comes first. -/
  second : (next (call k).1).2 = (next k).2
  /-- All tables of the keyboard are the same in the end. -/
  after : (next (call k).1).1 = (call (next k).1).1

/-- Different keys may be let go of in either order. -/
theorem interchange_noteOff (consistent : Consistent k) (sorted : k.schedule.Sorted)
    (apart : key ≠ other) (when later : Double) :
    Interchange k (noteOff · key when) (noteOff · other later) := by
  obtain ⟨same, second⟩ := release_comm consistent sorted apart when later
  obtain ⟨-, first⟩ := release_comm consistent sorted apart.symm later when
  exact ⟨first.symm, second, same⟩

/-- A key may be let go of before or after a note is struck on another, whether or not its voice can
be built. -/
theorem interchange_noteOn (consistent : Consistent k) (sorted : k.schedule.Sorted)
    {note : Note Double} (apart : key ≠ note.key) (when : Double) (draws : Nat → Draws Double) :
    Interchange k (noteOff · key when) (noteOn · note draws) := by
  obtain ⟨same, first⟩ := release_comm consistent sorted apart.symm note.when when
  have struckToo : (k.release key when).1.strike note draws = k.strike note draws :=
    strike_congr (k.setup_release key when) note draws
  cases struck : k.strike note draws with
  | error e =>
      rw [struck] at struckToo
      constructor <;>
        simp only [noteOff, noteOn_of_strike_error struck, noteOn_of_strike_error struckToo, same,
          first]
  | ok made =>
      rw [struck] at struckToo
      have released := release_hold (consistent.release note.key note.when)
        (sorted_act consistent sorted (.noteOff note.key note.when)) apart.symm
      constructor <;>
        simp only [noteOff, noteOn_of_strike_ok struck, noteOn_of_strike_ok struckToo, same, first,
          released, nextId_release]

/-! ## What a call leaves alone -/

/-- Letting go of a key leaves every voice alone that the key does not hold. -/
theorem voices_noteOff (consistent : Consistent k) (when : Double) {id : Nat}
    (free : ¬ k.Holds key id) : (k.noteOff key when).1.voices[id]? = k.voices[id]? :=
  (consistent.refused_release { key, when }).others id free

/-- Striking a note leaves every voice alone that its key does not hold, but for the one that it
makes. -/
theorem voices_noteOn (consistent : Consistent k) {note : Note Double} (draws : Nat → Draws Double)
    {id : Nat} (free : ¬ k.Holds note.key id) (old : (k.noteOn note draws).2 ≠ .ok id) :
    (k.noteOn note draws).1.voices[id]? = k.voices[id]? := by
  have left := (consistent.refused_release note).others id free
  obtain ⟨e, -, after⟩ | ⟨voice, due, -, after⟩ := k.noteOn_cases note draws
  · rw [after]
    exact left
  · rw [after] at old ⊢
    have apart : k.nextId ≠ id := fun same => old (congrArg Except.ok same)
    simpa [hold, Std.ExtTreeMap.getElem?_insert, apart] using left

/-! ## Keys that do not interfere -/

/-- What is done to one key of a keyboard does not bear on what is done to another. -/
structure KeysIndependent (k : Keyboard Double) : Prop where
  /-- Two keys may be let go of in either order. -/
  bothOff : ∀ (key other : UInt8) (when later : Double), key ≠ other →
    Interchange k (noteOff · key when) (noteOff · other later)
  /-- One key may be let go of before or after a note is struck on the other, whether or not a voice
  can be built. -/
  offAndOn : ∀ (key : UInt8) (when : Double) (note : Note Double) (draws : Nat → Draws Double),
    key ≠ note.key → Interchange k (noteOff · key when) (noteOn · note draws)
  /-- A note comes to the same whatever would be drawn for it, be it struck before or after. -/
  drawn : ∀ (key : UInt8) (when : Double) (note : Note Double) (draws others : Nat → Draws Double),
    k.noteOn note draws = k.noteOn note others ∧
      (k.noteOff key when).1.noteOn note draws = (k.noteOff key when).1.noteOn note others
  /-- A key that is let go of changes the voice that it holds only. -/
  released : ∀ (key : UInt8) (when : Double) (id : Nat), ¬ k.Holds key id →
    (k.noteOff key when).1.voices[id]? = k.voices[id]?
  /-- A note that is struck changes the voice that its key holds only, and makes one if it can be
  built. -/
  struck : ∀ (note : Note Double) (draws : Nat → Draws Double) (id : Nat), ¬ k.Holds note.key id →
    (k.noteOn note draws).2 ≠ .ok id → (k.noteOn note draws).1.voices[id]? = k.voices[id]?

/-- However the patch has been played, as long as it draws nothing at random, its keys do not
interfere. -/
theorem keysIndependent_play {rack : Rack Double} {patch : Patch Double}
    (calm : ∀ t ∈ patch.tweaks, t.value.isRandom = false) (actions : List (Action Double)) :
    KeysIndependent ({ rack, patch : Keyboard Double }.play actions) := by
  have begun := consistent_new rack patch
  have consistent := begun.play actions
  have sorted := sorted_play begun List.Pairwise.nil actions
  have kept := setup_play { rack, patch : Keyboard Double } actions
  have calmOf (k : Keyboard Double) (same : k.setup = (rack, patch)) :
      ∀ t ∈ k.patch.tweaks, t.value.isRandom = false := by
    simp only [setup, Prod.mk.injEq] at same
    rwa [same.2]
  exact
    { bothOff := fun _ _ when later apart => interchange_noteOff consistent sorted apart when later
      offAndOn := fun _ when _ draws apart =>
        interchange_noteOn consistent sorted apart when draws
      drawn := fun key when note draws others =>
        have keptToo := (setup_release _ key when).trans kept
        ⟨noteOn_of_calm (calmOf _ kept) note draws others,
          noteOn_of_calm (calmOf _ keptToo) note draws others⟩
      released := fun _ when _ free => voices_noteOff consistent when free
      struck := fun _ draws _ free old => voices_noteOn consistent draws free old }

/-- Two notes that are held. -/
def twoHeld : List (Action Double) :=
  [.noteOn { key := 60, when := 0 } fun _ _ => 0, .noteOn { key := 64, when := 0 } fun _ _ => 0]

/-- The first note is let go of as of two seconds, the second one as of one.  The second one is torn
down first, whichever call comes first. -/
theorem keysIndependent_play_twoHeld :
    ∃ patch rack k, Patch.compile .standard swellSource = .ok patch ∧
      rack = Rack.standard.map Double.ofFloat ∧
      k = { rack, patch := patch.map Double.ofFloat : Keyboard Double }.play twoHeld ∧
      KeysIndependent k ∧
      ((k.noteOff 60 2.0).1.noteOff 64 1).1.schedule.pending.map (·.voice) = [1, 0] ∧
      ((k.noteOff 64 1).1.noteOff 60 2.0).1.schedule.pending.map (·.voice) = [1, 0] := by
  let rack : Rack Double := Rack.standard.map Double.ofFloat
  have played : ((Patch.compile .standard swellSource).toOption.any fun patch =>
      let k := { rack, patch := patch.map Double.ofFloat : Keyboard Double }.play twoHeld
      (patch.map Double.ofFloat).tweaks.all (!·.value.isRandom) &&
        ((k.noteOff 60 2.0).1.noteOff 64 1).1.schedule.pending.map (·.voice) == [1, 0]) = true := by
    decide +kernel
  obtain ⟨patch, compiled, both⟩ := (Option.any_eq_true _ _).1 played
  obtain ⟨calm, pending⟩ := Bool.and_eq_true_iff.1 both
  have calm : ∀ t ∈ (patch.map Double.ofFloat).tweaks, t.value.isRandom = false := by
    simpa using calm
  have pending := beq_iff_eq.1 pending
  have independent : KeysIndependent ({ rack, patch := _ : Keyboard Double }.play twoHeld) :=
    keysIndependent_play calm twoHeld
  have same := (independent.bothOff 60 64 2.0 1 (by decide)).after
  exact ⟨patch, rack, _, Outcome.toOption_eq_some_iff.1 compiled, rfl, rfl, independent, pending,
    (congrArg (·.schedule.pending.map (·.voice)) same).symm.trans pending⟩

end Keyboard
end SynthPatch
