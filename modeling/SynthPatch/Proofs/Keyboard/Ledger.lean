import SynthPatch.Proofs.Keyboard.Playing
import Mathlib.Data.List.TakeWhile
/-!
# The books of a keyboard

Whatever is played, the tables of a keyboard agree with each other: a key holds a voice that is
there, no number is used that has not been given out, and a voice that no key holds is going to be
removed.  Numbers are given out once, and a voice that was removed does not come back.

Main results:

- Structure {lit}`Keyboard.Consistent`: the tables agree with each other.
- Theorem {lit}`Keyboard.Consistent.act`: they still do after anything that can happen.
- Theorem {lit}`Keyboard.Session.accounts_play`: the books of a keyboard that was played.
-/

namespace SynthPatch
namespace Keyboard

variable {α : Type} [Scalar α] {k : Keyboard α}

/-- The tables of a keyboard agree with each other. -/
structure Consistent (k : Keyboard α) : Prop where
  /-- A key holds a voice that is there and was struck on it. -/
  matched : Matched k
  /-- The voices that are there have been given numbers. -/
  voicesBelow : ∀ id ∈ k.voices, id < k.nextId
  /-- The voices that pending teardowns name have been given numbers. -/
  pendingBelow : ∀ id, k.Awaits id → id < k.nextId
  /-- A voice that is there is held, or will be removed. -/
  kept : ∀ id ∈ k.voices, (∃ key, k.Holds key id) ∨ k.Awaits id

omit [Scalar α] in
/-- A new keyboard has nothing to keep. -/
theorem consistent_new (rack : Rack α) (patch : Patch α) : Consistent { rack, patch } where
  matched := by simp [Matched, Holds]
  voicesBelow := by simp
  pendingBelow := by simp [Awaits]
  kept := by simp

namespace Consistent

omit [Scalar α] in
theorem mem_of_holds (h : Consistent k) {key : UInt8} {id : Nat} (holds : k.Holds key id) :
    id ∈ k.voices := by
  obtain ⟨s, found, -⟩ := h.matched key id holds
  exact (Std.ExtTreeMap.getElem?_eq_some_iff.1 found).1

omit [Scalar α] in
theorem heldBelow (h : Consistent k) {key : UInt8} {id : Nat} (holds : k.Holds key id) :
    id < k.nextId :=
  h.voicesBelow id (h.mem_of_holds holds)

/-- A key that is let go of hands its voice over to the schedule. -/
theorem release (h : Consistent k) (key : UInt8) (when : α) :
    Consistent (k.release key when).1 := by
  obtain ⟨-, same⟩ | ⟨id, holds, missing, -⟩ | ⟨id, s, holds, present, after⟩ :=
    k.release_cases key when
  · rw [same]
    exact h
  · obtain ⟨s, found, -⟩ := h.matched key id holds
    rw [missing] at found
    cases found
  · rw [after]
    have below : id < k.nextId := h.heldBelow holds
    have stays : ∀ {other : Nat}, other ≠ id → ∀ {key' : UInt8}, k.Holds key' other →
        key ≠ key' := by
      rintro other apart key' holds' rfl
      exact apart (Option.some.inj (holds'.symm.trans holds))
    refine ⟨?_, ?_, ?_, ?_⟩
    · intro key' other holds'
      have holds' : (k.held.erase key)[key']? = some other := holds'
      rw [Std.ExtTreeMap.getElem?_erase] at holds'
      split at holds'
      · cases holds'
      · obtain ⟨s', found, same⟩ := h.matched key' other holds'
        by_cases this : id = other
        · subst this
          rw [present] at found
          cases found
          exact ⟨_, Std.ExtTreeMap.getElem?_insert_self, same⟩
        · refine ⟨s', ?_, same⟩
          simpa [Std.ExtTreeMap.getElem?_insert, this] using found
    · intro other mem
      rcases Std.ExtTreeMap.mem_insert.1 mem with this | mem
      · rwa [Std.LawfulEqCmp.compare_eq_iff_eq.1 this] at below
      · exact h.voicesBelow other mem
    · rintro other ⟨t, mem, rfl⟩
      rcases Schedule.mem_push.1 mem with rfl | mem
      · exact below
      · exact h.pendingBelow _ ⟨t, mem, rfl⟩
    · intro other mem
      by_cases this : id = other
      · subst this
        exact .inr ⟨_, Schedule.mem_push.2 (.inl rfl), rfl⟩
      · have mem : other ∈ k.voices := by
          simpa [Std.ExtTreeMap.mem_insert, this] using mem
        rcases h.kept other mem with ⟨key', holds'⟩ | ⟨t, pending, names⟩
        · refine .inl ⟨key', ?_⟩
          have apart := stays (Ne.symm this) holds'
          simpa [Holds, Std.ExtTreeMap.getElem?_erase, apart] using holds'
        · exact .inr ⟨t, Schedule.mem_push.2 (.inr pending), names⟩

/-- A new voice takes a key that holds none. -/
theorem hold (h : Consistent k) {key : UInt8} (free : ∀ id, ¬ k.Holds key id) (voice : Voice α)
    (due : Option α) : Consistent (k.hold key voice due) := by
  have unheld : ∀ {other : Nat} {key' : UInt8}, k.Holds key' other → key ≠ key' := by
    rintro other key' holds rfl
    exact free other holds
  have waits : ∀ {other : Nat}, (k.hold key voice due).Awaits other → other = k.nextId ∨
      k.Awaits other := by
    rintro other ⟨t, mem, rfl⟩
    cases due with
    | none => exact .inr ⟨t, mem, rfl⟩
    | some due =>
        rcases Schedule.mem_push.1 mem with rfl | mem
        · exact .inl rfl
        · exact .inr ⟨t, mem, rfl⟩
  have awaits : ∀ {other : Nat}, k.Awaits other → (k.hold key voice due).Awaits other := by
    rintro other ⟨t, mem, names⟩
    cases due with
    | none => exact ⟨t, mem, names⟩
    | some due => exact ⟨t, Schedule.mem_push.2 (.inr mem), names⟩
  refine ⟨?_, ?_, ?_, ?_⟩
  · intro key' other holds
    have holds : (k.held.insert key k.nextId)[key']? = some other := holds
    rw [Std.ExtTreeMap.getElem?_insert] at holds
    split at holds
    · next this =>
        cases holds
        exact ⟨_, Std.ExtTreeMap.getElem?_insert_self, Std.LawfulEqCmp.compare_eq_iff_eq.1 this⟩
    · obtain ⟨s, found, same⟩ := h.matched key' other holds
      have apart : k.nextId ≠ other := Nat.ne_of_gt (h.heldBelow holds)
      refine ⟨s, ?_, same⟩
      simpa [Keyboard.hold, Std.ExtTreeMap.getElem?_insert, apart] using found
  · intro other mem
    rcases Std.ExtTreeMap.mem_insert.1 mem with this | mem
    · rw [← Std.LawfulEqCmp.compare_eq_iff_eq.1 this]
      exact Nat.lt_succ_self k.nextId
    · exact Nat.lt_succ_of_lt (h.voicesBelow other mem)
  · intro other waiting
    rcases waits waiting with rfl | waiting
    · exact Nat.lt_succ_self k.nextId
    · exact Nat.lt_succ_of_lt (h.pendingBelow other waiting)
  · intro other mem
    by_cases this : k.nextId = other
    · subst this
      exact .inl ⟨key, Std.ExtTreeMap.getElem?_insert_self⟩
    · have mem : other ∈ k.voices := by
        simpa [Keyboard.hold, Std.ExtTreeMap.mem_insert, this] using mem
      rcases h.kept other mem with ⟨key', holds⟩ | waiting
      · refine .inl ⟨key', ?_⟩
        simpa [Holds, Keyboard.hold, Std.ExtTreeMap.getElem?_insert, unheld holds] using holds
      · exact .inr (awaits waiting)

omit [Scalar α] in
/-- A voice that is left alone keeps its key. -/
theorem map (h : Consistent k) {f : Nat → Sounding α → Sounding α}
    (keeps : ∀ id s, (f id s).key = s.key) : Consistent { k with voices := k.voices.map f } where
  matched := by
    intro key id holds
    obtain ⟨s, found, same⟩ := h.matched key id holds
    exact ⟨f id s, by simp [found], by rw [keeps, same]⟩
  voicesBelow := by
    intro id mem
    exact h.voicesBelow id (Std.ExtTreeMap.mem_map.1 mem)
  pendingBelow := h.pendingBelow
  kept := by
    intro id mem
    exact h.kept id (Std.ExtTreeMap.mem_map.1 mem)

/-- Of the voices that are left after a while, none has a teardown that was due. -/
theorem advance (h : Consistent k) (now : α) : Consistent (k.advance now).1 := by
  have swept := swept_advance h.matched now
  refine ⟨?_, ?_, ?_, ?_⟩
  · intro key id holds
    obtain ⟨held, unnamed⟩ := (swept.held key id).1 holds
    obtain ⟨s, found, same⟩ := h.matched key id held
    exact ⟨s, by rw [swept.voices, if_neg unnamed, found], same⟩
  · intro id mem
    rw [swept.nextId]
    exact h.voicesBelow id ((swept.mem_voices id).1 mem).1
  · rintro id ⟨t, mem, names⟩
    rw [swept.schedule] at mem
    rw [swept.nextId]
    exact h.pendingBelow id ⟨t, (Schedule.mem_pending_iff now).2 (.inr mem), names⟩
  · intro id mem
    obtain ⟨present, unnamed⟩ := (swept.mem_voices id).1 mem
    rcases h.kept id present with ⟨key, holds⟩ | ⟨t, waiting, rfl⟩
    · exact .inl ⟨key, (swept.held key id).2 ⟨holds, unnamed⟩⟩
    · rcases (Schedule.mem_pending_iff now).1 waiting with due | waiting
      · exact absurd (List.mem_map.2 ⟨t, due, rfl⟩) unnamed
      · refine .inr ⟨t, ?_, rfl⟩
        rwa [swept.schedule]

/-- The tables agree with each other whatever happens to the keyboard. -/
theorem act (h : Consistent k) (a : Action α) : Consistent (k.act a) := by
  cases a with
  | noteOn note draws =>
      have released := h.release note.key note.when
      obtain ⟨e, -, after⟩ | ⟨voice, due, -, after⟩ := k.noteOn_cases note draws
      · simpa only [Keyboard.act, after] using released
      · simp only [Keyboard.act, after]
        refine released.hold ?_ voice due
        intro id
        simp [Holds, held_release]
  | noteOff key when => exact h.release key when
  | advance now => exact h.advance now
  | tweak name value draws => exact h.map fun id s => key_retune name value (draws id) s
  | panic =>
      have new := consistent_new k.rack k.patch
      refine ⟨new.matched, ?_, ?_, new.kept⟩
      · intro id mem
        exact absurd mem Std.ExtTreeMap.not_mem_empty
      · rintro id ⟨t, mem, -⟩
        cases mem

/-- They agree with each other whatever happens to a keyboard, however often. -/
theorem play (h : Consistent k) (actions : List (Action α)) : Consistent (k.play actions) := by
  induction actions generalizing k with
  | nil => exact h
  | cons a rest ih => exact ih (h.act a)

end Consistent

/-! ## Numbers -/

section Numbers

variable (h : Consistent k) {a : Action α} {id : Nat}

theorem nodup_given (k : Keyboard α) (a : Action α) : (k.given a).Nodup := by
  cases a with
  | noteOn note draws =>
      simp only [given]
      cases (k.noteOn note draws).2 with
      | error e => exact List.nodup_nil
      | ok id => exact List.nodup_singleton id
  | _ => exact List.nodup_nil

/-- The number that is given out is the next one, and another will be the next one then. -/
theorem eq_nextId_of_given (given : id ∈ k.given a) :
    id = k.nextId ∧ (k.act a).nextId = k.nextId + 1 := by
  cases a with
  | noteOn note draws =>
      obtain ⟨e, -, after⟩ | ⟨voice, due, -, after⟩ := k.noteOn_cases note draws
      · simp only [Keyboard.given, after] at given
        cases given
      · simp only [Keyboard.given, after, Except.toOption, Option.toList_some,
          List.mem_singleton] at given
        simp only [act, after, hold, nextId_release]
        exact ⟨given, trivial⟩
  | _ => cases given

include h

/-- The next number never becomes smaller. -/
theorem nextId_le_act (a : Action α) : k.nextId ≤ (k.act a).nextId := by
  cases a with
  | noteOn note draws =>
      obtain ⟨e, -, after⟩ | ⟨voice, due, -, after⟩ := k.noteOn_cases note draws
      · simp only [act, after, nextId_release, Nat.le_refl]
      · simp only [act, after, hold, nextId_release, Nat.le_succ]
  | noteOff key when => exact Nat.le_of_eq (k.nextId_release key when).symm
  | advance now => exact Nat.le_of_eq (swept_advance h.matched now).nextId.symm
  | tweak name value draws => exact Nat.le_refl k.nextId
  | panic => exact Nat.le_refl k.nextId

/-- Letting go of a key makes and removes no voice. -/
theorem mem_voices_release {key : UInt8} {when : α} :
    id ∈ (k.release key when).1.voices ↔ id ∈ k.voices := by
  obtain ⟨-, same⟩ | ⟨held, holds, -, after⟩ | ⟨held, s, holds, present, after⟩ :=
    k.release_cases key when
  · rw [same]
  · rw [after]
  · rw [after]
    have there := h.mem_of_holds holds
    by_cases this : held = id
    · subst this
      simp [there]
    · simp [Std.ExtTreeMap.mem_insert, this]

/-- A voice that is there was there before, or has just been given its number. -/
theorem mem_voices_of_act (mem : id ∈ (k.act a).voices) : id ∈ k.voices ∨ id ∈ k.given a := by
  cases a with
  | noteOn note draws =>
      obtain ⟨e, -, after⟩ | ⟨voice, due, -, after⟩ := k.noteOn_cases note draws
      · simp only [act, after] at mem
        exact .inl ((mem_voices_release h).1 mem)
      · simp only [act, after, hold, nextId_release] at mem
        rcases Std.ExtTreeMap.mem_insert.1 mem with this | mem
        · refine .inr ?_
          simp [given, after, Except.toOption, Std.LawfulEqCmp.compare_eq_iff_eq.1 this]
        · exact .inl ((mem_voices_release h).1 mem)
  | noteOff key when => exact .inl ((mem_voices_release h).1 mem)
  | advance now => exact .inl (((swept_advance h.matched now).mem_voices id).1 mem).1
  | tweak name value draws => exact .inl (Std.ExtTreeMap.mem_map.1 mem)
  | panic => exact absurd mem Std.ExtTreeMap.not_mem_empty

theorem nodup_removed (a : Action α) : (k.removed a).Nodup := by
  cases a with
  | advance now => exact (swept_advance h.matched now).nodup_removed
  | panic => exact Std.ExtTreeMap.nodup_keys
  | _ => exact List.nodup_nil

/-- A voice that is removed was there, and is not there any more. -/
theorem mem_voices_of_removed (gone : id ∈ k.removed a) :
    id ∈ k.voices ∧ id ∉ (k.act a).voices := by
  cases a with
  | advance now =>
      have swept := swept_advance h.matched now
      obtain ⟨named, present⟩ := (swept.mem_removed id).1 gone
      exact ⟨present, fun there => ((swept.mem_voices id).1 there).2 named⟩
  | panic => exact ⟨Std.ExtTreeMap.mem_keys.1 gone, Std.ExtTreeMap.not_mem_empty⟩
  | _ => cases gone

end Numbers

/-! ## The books -/

/-- A keyboard that is played, with all numbers it has given out and those of all voices it has
removed. -/
structure Session (α : Type) where
  keyboard : Keyboard α
  given : List Nat := []
  removed : List Nat := []

namespace Session

/-- The books after something has happened to the keyboard. -/
def act (s : Session α) (a : Action α) : Session α where
  keyboard := s.keyboard.act a
  given := s.given ++ s.keyboard.given a
  removed := s.removed ++ s.keyboard.removed a

/-- The books after a row of things has happened to the keyboard. -/
def play (s : Session α) (actions : List (Action α)) : Session α :=
  actions.foldl act s

/-- The books and the tables agree with each other. -/
structure Balanced (s : Session α) : Prop where
  consistent : s.keyboard.Consistent
  givenBelow : ∀ id ∈ s.given, id < s.keyboard.nextId
  givenOnce : s.given.Nodup
  removedBelow : ∀ id ∈ s.removed, id < s.keyboard.nextId
  removedOnce : s.removed.Nodup
  /-- A voice that was removed is not there. -/
  absent : ∀ id ∈ s.removed, id ∉ s.keyboard.voices

/-- What is numbered after an action was so before, or has the number that was the next one. -/
theorem Balanced.act {s : Session α} (h : Balanced s) (a : Action α) : Balanced (s.act a) := by
  have grows := nextId_le_act h.consistent a
  have present {id : Nat} (gone : id ∈ s.keyboard.removed a) :=
    mem_voices_of_removed h.consistent gone
  refine ⟨h.consistent.act a, ?_, ?_, ?_, ?_, ?_⟩
  · intro id mem
    rcases List.mem_append.1 mem with mem | mem
    · exact Nat.lt_of_lt_of_le (h.givenBelow id mem) grows
    · obtain ⟨rfl, next⟩ := eq_nextId_of_given mem
      exact next ▸ Nat.lt_succ_self _
  · refine List.nodup_append.2 ⟨h.givenOnce, nodup_given _ a, ?_⟩
    rintro id old _ new rfl
    obtain ⟨next, -⟩ := eq_nextId_of_given new
    exact absurd (h.givenBelow id old) (next ▸ Nat.lt_irrefl _)
  · intro id mem
    rcases List.mem_append.1 mem with mem | mem
    · exact Nat.lt_of_lt_of_le (h.removedBelow id mem) grows
    · exact Nat.lt_of_lt_of_le (h.consistent.voicesBelow id (present mem).1) grows
  · refine List.nodup_append.2 ⟨h.removedOnce, nodup_removed h.consistent a, ?_⟩
    rintro id old _ new rfl
    exact h.absent id old (present new).1
  · intro id mem there
    rcases List.mem_append.1 mem with mem | mem
    · rcases mem_voices_of_act h.consistent there with there | new
      · exact h.absent id mem there
      · obtain ⟨next, -⟩ := eq_nextId_of_given new
        exact absurd (h.removedBelow id mem) (next ▸ Nat.lt_irrefl _)
    · exact (present mem).2 there

theorem Balanced.play {s : Session α} (h : Balanced s) (actions : List (Action α)) :
    Balanced (s.play actions) := by
  induction actions generalizing s with
  | nil => exact h
  | cons a rest ih => exact ih (h.act a)

/-- What the books of a keyboard say. -/
structure Accounts (s : Session α) : Prop where
  /-- A key holds a voice that is there and was struck on it. -/
  held : ∀ key id, s.keyboard.Holds key id → ∃ v, s.keyboard.voices[id]? = some v ∧ v.key = key
  /-- Every number in use has been given out. -/
  below : ∀ id, (∃ key, s.keyboard.Holds key id) ∨ id ∈ s.keyboard.voices ∨ s.keyboard.Awaits id →
    id < s.keyboard.nextId
  /-- No number has been given out twice. -/
  givenOnce : s.given.Nodup
  /-- A voice that no key holds awaits its teardown. -/
  kept : ∀ id ∈ s.keyboard.voices, (∀ key, ¬ s.keyboard.Holds key id) → s.keyboard.Awaits id
  /-- Once all teardowns are due, the voices are left that are held and await none. -/
  swept : ∀ now, (∀ t ∈ s.keyboard.schedule.pending, t.due ≤ now) → ∀ id v,
    (s.keyboard.advance now).1.voices[id]? = some v ↔
      s.keyboard.voices[id]? = some v ∧ (∃ key, s.keyboard.Holds key id) ∧ ¬ s.keyboard.Awaits id
  /-- A voice that was removed is not there, and its number is neither given out nor removed
  again, whatever happens next. -/
  gone : ∀ id ∈ s.removed, id ∉ s.keyboard.voices ∧ (∀ key, ¬ s.keyboard.Holds key id) ∧
    ∀ a, id ∉ s.keyboard.given a ∧ id ∉ s.keyboard.removed a
  /-- No voice has been removed twice. -/
  removedOnce : s.removed.Nodup

/-- Once all teardowns are due, the voices that await one are removed and no others. -/
theorem Balanced.swept {s : Session α} (h : Balanced s) {now : α}
    (due : ∀ t ∈ s.keyboard.schedule.pending, t.due ≤ now) (id : Nat) (v : Sounding α) :
    (s.keyboard.advance now).1.voices[id]? = some v ↔
      s.keyboard.voices[id]? = some v ∧ (∃ key, s.keyboard.Holds key id) ∧
        ¬ s.keyboard.Awaits id := by
  have all : (s.keyboard.schedule.drain now).1 = s.keyboard.schedule.pending :=
    List.takeWhile_eq_self_iff.2 fun t mem => decide_eq_true (due t mem)
  have named : id ∈ s.keyboard.dueVoices now ↔ s.keyboard.Awaits id := by
    rw [dueVoices, all, List.mem_map]
    rfl
  have left := (swept_advance h.consistent.matched now).voices id
  rw [left]
  by_cases waiting : s.keyboard.Awaits id
  · simp [named, waiting]
  · have held : s.keyboard.voices[id]? = some v → ∃ key, s.keyboard.Holds key id := by
      intro found
      have there := (Std.ExtTreeMap.getElem?_eq_some_iff.1 found).1
      exact (h.consistent.kept id there).resolve_right waiting
    simp only [named, waiting, if_false, not_false_eq_true, and_true]
    exact ⟨fun found => ⟨found, held found⟩, fun both => both.1⟩

theorem Balanced.accounts {s : Session α} (h : Balanced s) : Accounts s where
  held := h.consistent.matched
  below := by
    rintro id (⟨key, holds⟩ | there | waiting)
    · exact h.consistent.heldBelow holds
    · exact h.consistent.voicesBelow id there
    · exact h.consistent.pendingBelow id waiting
  givenOnce := h.givenOnce
  kept := by
    intro id there free
    exact (h.consistent.kept id there).resolve_left fun ⟨key, holds⟩ => free key holds
  swept := by
    intro now due id v
    exact h.swept due id v
  gone := by
    intro id mem
    have absent := h.absent id mem
    refine ⟨absent, fun key holds => absent (h.consistent.mem_of_holds holds), fun a => ⟨?_, ?_⟩⟩
    · intro new
      obtain ⟨next, -⟩ := eq_nextId_of_given new
      exact absurd (h.removedBelow id mem) (next ▸ Nat.lt_irrefl _)
    · intro again
      exact absent (mem_voices_of_removed h.consistent again).1
  removedOnce := h.removedOnce

omit [Scalar α] in
/-- Nothing is in the books of a new keyboard. -/
theorem balanced_new (rack : Rack α) (patch : Patch α) :
    Balanced { keyboard := { rack, patch } } where
  consistent := consistent_new rack patch
  givenBelow := by simp
  givenOnce := List.nodup_nil
  removedBelow := by simp
  removedOnce := List.nodup_nil
  absent := by simp

/-- The books of a keyboard are in order whatever is played on it. -/
theorem accounts_play (rack : Rack α) (patch : Patch α) (actions : List (Action α)) :
    Accounts (Session.play { keyboard := { rack, patch } } actions) :=
  ((balanced_new rack patch).play actions).accounts

end Session
end Keyboard
end SynthPatch
