import SynthPatch.Patch.Basic
import SynthPatch.Proofs.Keyboard.Ledger
/-!
# When voices stop and when they are removed

A voice that is released stops at the time of its teardown.  If it is released again it stops at
another time, and the teardown of the first release stays in the schedule: the voice is removed by
whichever teardown falls due first, but sounds until the one that was scheduled last.  A note with
a duration is released as soon as it is struck and stays on its key, so it can be released again;
any other voice is released once, and is not removed before it has stopped.

Main results:

- Theorem {lit}`Keyboard.Timed.play`: a voice that awaits a teardown stops when one of its teardowns
  is due.
- Theorem {lit}`Keyboard.Single.play`: without durations no voice awaits two teardowns.
- Theorem {lit}`Keyboard.stopsAt_of_mem_advance`: when the voices that are removed stop.
-/

namespace SynthPatch

variable {α : Type}

/-! ## Stopped voices -/

namespace Voice

/-- Every module of the voice stops at a time. -/
def StopsAt (v : Voice α) (time : α) : Prop :=
  ∀ (id : String) (m : Instance Endpoint α), v.modules[id]? = some m → m.stopped = some time

/-- Changing a property stops nothing, and lets nothing go on. -/
theorem StopsAt.modify {v : Voice α} {time : α} (h : v.StopsAt time) (target : Endpoint)
    (f : Timeline α → Timeline α) : (v.modify target f).StopsAt time := by
  intro id m found
  simp only [Voice.modify, Std.ExtTreeMap.getElem?_modify] at found
  split at found
  · next this =>
      obtain ⟨before, there, rfl⟩ := Option.map_eq_some_iff.1 found
      exact h target.module before there
  · exact h id m found

theorem StopsAt.assign {v : Voice α} {time : α} (h : v.StopsAt time)
    (settings : List (Endpoint × α)) : (v.assign settings).StopsAt time := by
  induction settings generalizing v with
  | nil => exact h
  | cons s rest ih => exact ih (h.modify s.1 (·.setValue s.2))

variable [Scalar α]

theorem StopsAt.tweak {v w : Voice α} {time : α} (h : v.StopsAt time) {name : String} {value : α}
    {draws : Nat → Draws α} (tweaked : v.tweak name value draws = .ok w) : w.StopsAt time := by
  unfold Voice.tweak at tweaked
  split at tweaked
  · obtain ⟨settings, -, tweaked⟩ := Outcome.bind_eq_ok_iff.1 tweaked
    cases tweaked
    exact StopsAt.assign (v := { v with values := v.values.insert name value }) h settings
  · cases tweaked
    exact h

theorem stopsAt_release (v : Voice α) (when : α) :
    (v.release when).1.StopsAt (v.release when).2 :=
  fun _ _ found => stopped_release found

end Voice

namespace Keyboard

variable [Scalar α] {k : Keyboard α}

/-! ## The teardown a voice stops at -/

/-- A voice that awaits a teardown stops when one of its teardowns is due. -/
def Timed (k : Keyboard α) : Prop :=
  ∀ id s, k.voices[id]? = some s → k.Awaits id →
    ∃ last, ⟨last, id⟩ ∈ k.schedule.pending ∧ s.voice.StopsAt last

namespace Timed

omit [Scalar α] in
theorem of_voices_empty (none : k.voices = ∅) : Timed k := by
  intro id s found
  simp [none] at found

/-- Releasing a voice moves its end, and a teardown moves along. -/
theorem release (h : Timed k) (key : UInt8) (when : α) : Timed (k.release key when).1 := by
  obtain ⟨-, same⟩ | ⟨id, -, -, after⟩ | ⟨id, sounding, -, -, after⟩ := k.release_cases key when
  · rw [same]
    exact h
  · rw [after]
    exact h
  · rw [after]
    intro other s found waiting
    simp only [Std.ExtTreeMap.getElem?_insert, Std.LawfulEqCmp.compare_eq_iff_eq] at found
    split at found
    · next this =>
        subst this
        cases found
        exact ⟨_, Schedule.mem_push.2 (.inl rfl), sounding.voice.stopsAt_release when⟩
    · next this =>
        obtain ⟨t, mem, names⟩ := waiting
        rcases Schedule.mem_push.1 mem with rfl | mem
        · exact absurd names this
        · obtain ⟨last, mem, stops⟩ := h other s found ⟨t, mem, names⟩
          exact ⟨last, Schedule.mem_push.2 (.inr mem), stops⟩

/-- A new voice awaits a teardown only if it stops then. -/
theorem hold (h : Timed k) (consistent : Consistent k) {voice : Voice α} {due : Option α}
    (stops : ∀ time, due = some time → voice.StopsAt time) (key : UInt8) :
    Timed (k.hold key voice due) := by
  intro id s found waiting
  have fresh : ¬ k.Awaits k.nextId := fun waiting =>
    Nat.lt_irrefl _ (consistent.pendingBelow _ waiting)
  simp only [Keyboard.hold, Std.ExtTreeMap.getElem?_insert,
    Std.LawfulEqCmp.compare_eq_iff_eq] at found
  cases due with
  | none =>
      split at found
      · next this => exact absurd waiting (this ▸ fresh)
      · exact h id s found waiting
  | some time =>
      split at found
      · next this =>
          subst this
          cases found
          exact ⟨time, Schedule.mem_push.2 (.inl rfl), stops time rfl⟩
      · next this =>
          obtain ⟨t, mem, names⟩ := waiting
          rcases Schedule.mem_push.1 mem with rfl | mem
          · exact absurd names this
          · obtain ⟨last, mem, stops⟩ := h id s found ⟨t, mem, names⟩
            exact ⟨last, Schedule.mem_push.2 (.inr mem), stops⟩

/-- Of a voice that is left no teardown has been taken out of the schedule. -/
theorem advance (h : Timed k) (consistent : Consistent k) (now : α) :
    Timed (k.advance now).1 := by
  have swept := swept_advance consistent.matched now
  intro id s found ⟨t, mem, names⟩
  rw [swept.schedule] at mem
  rw [swept.voices] at found
  split at found
  · cases found
  · next unnamed =>
      have before := (Schedule.mem_pending_iff now).2 (.inr mem)
      obtain ⟨last, mem, stops⟩ := h id s found ⟨t, before, names⟩
      refine ⟨last, ?_, stops⟩
      rw [swept.schedule]
      exact ((Schedule.mem_pending_iff now).1 mem).resolve_left fun due =>
        unnamed (List.mem_map.2 ⟨_, due, rfl⟩)

/-- A parameter can be changed on a voice that was released; it stops when it did. -/
theorem tweak (h : Timed k) (name : String) (value : α) (draws : Nat → Nat → Draws α) :
    Timed (k.tweak name value draws).1 := by
  rw [tweak_eq]
  intro id s found waiting
  rw [Std.ExtTreeMap.getElem?_map] at found
  obtain ⟨before, there, rfl⟩ := Option.map_eq_some_iff.1 found
  obtain ⟨last, mem, stops⟩ := h id before there waiting
  refine ⟨last, mem, ?_⟩
  unfold retune
  split
  · next tweaked => exact stops.tweak tweaked
  · exact stops

theorem act (h : Timed k) (consistent : Consistent k) (a : Action α) : Timed (k.act a) := by
  cases a with
  | noteOn note draws =>
      have released := h.release note.key note.when
      obtain ⟨e, -, after⟩ | ⟨voice, due, struck, after⟩ := k.noteOn_cases note draws
      · simpa only [Keyboard.act, after] using released
      · simp only [Keyboard.act, after]
        refine released.hold (consistent.release note.key note.when) ?_ note.key
        rintro time rfl
        obtain ⟨built, -, ⟨-, -, none⟩ | ⟨duration, made, -, rfl, rfl, same⟩⟩ := strike_cases struck
        · cases none
        · cases same
          exact Voice.stopsAt_release _ _
  | noteOff key when => exact h.release key when
  | advance now => exact h.advance consistent now
  | tweak name value draws => exact h.tweak name value draws
  | panic => exact of_voices_empty rfl

theorem play (h : Timed k) (consistent : Consistent k) (actions : List (Action α)) :
    Timed (k.play actions) := by
  induction actions generalizing k with
  | nil => exact h
  | cons a rest ih => exact ih (h.act consistent a) (consistent.act a)

end Timed

/-! ## Voices that are released once -/

/-- A note that is struck is held until its key is let go of. -/
def Action.IsOpen : Action α → Prop
  | .noteOn note _ => note.duration = none
  | _ => True

/-- No voice awaits two teardowns, and a voice that is held awaits none. -/
structure Single (k : Keyboard α) : Prop where
  held : ∀ key id, k.Holds key id → ¬ k.Awaits id
  once : ∀ t ∈ k.schedule.pending, ∀ u ∈ k.schedule.pending, t.voice = u.voice → t = u

namespace Single

omit [Scalar α] in
/-- If less is held and less is pending, no voice awaits more. -/
theorem of_subset {l : Keyboard α} (h : Single k)
    (held : ∀ key id, l.Holds key id → k.Holds key id)
    (pending : ∀ t ∈ l.schedule.pending, t ∈ k.schedule.pending) : Single l where
  held := by
    rintro key id holds ⟨t, mem, names⟩
    exact h.held key id (held key id holds) ⟨t, pending t mem, names⟩
  once t mem u mem' same := h.once t (pending t mem) u (pending u mem') same

/-- The voice that a key is let go of awaits a teardown from then on, and is not held. -/
theorem release (h : Single k) (consistent : Consistent k) (key : UInt8) (when : α) :
    Single (k.release key when).1 := by
  have fewer : ∀ key' id, (k.release key when).1.Holds key' id → key ≠ key' ∧ k.Holds key' id := by
    intro key' id holds
    unfold Holds at holds
    rw [held_release] at holds
    split at holds
    · cases holds
    · next apart => exact ⟨apart, holds⟩
  obtain ⟨-, same⟩ | ⟨id, -, -, after⟩ | ⟨id, s, holds, present, after⟩ := k.release_cases key when
  · rw [same]
    exact h
  · refine h.of_subset (fun key' id holds => (fewer key' id holds).2) ?_
    rw [after]
    exact fun t mem => mem
  · have pending : ∀ {t : Teardown α}, t ∈ (k.release key when).1.schedule.pending →
        t = ⟨(s.voice.release when).2, id⟩ ∨ t ∈ k.schedule.pending := by
      intro t mem
      rw [after] at mem
      exact Schedule.mem_push.1 mem
    have unawaited : ∀ t ∈ k.schedule.pending, t.voice ≠ id :=
      fun t mem names => h.held key id holds ⟨t, mem, names⟩
    refine ⟨?_, ?_⟩
    · rintro key' other holds' ⟨t, mem, names⟩
      obtain ⟨apart, before⟩ := fewer key' other holds'
      rcases pending mem with rfl | mem
      · -- A voice is on the key it was struck on, so no two keys hold it.
        cases names
        obtain ⟨s', found, rfl⟩ := consistent.matched key' id before
        obtain ⟨s'', found', rfl⟩ := consistent.matched key id holds
        rw [found] at found'
        cases found'
        exact apart rfl
      · exact h.held key' other before ⟨t, mem, names⟩
    · intro t mem u mem' same
      rcases pending mem with rfl | mem
      · rcases pending mem' with rfl | mem'
        · rfl
        · exact absurd same.symm (unawaited u mem')
      · rcases pending mem' with rfl | mem'
        · exact absurd same (unawaited t mem)
        · exact h.once t mem u mem' same

/-- A voice that is held until its key is let go of awaits nothing. -/
theorem hold (h : Single k) (consistent : Consistent k) (key : UInt8) (voice : Voice α) :
    Single (k.hold key voice none) := by
  refine ⟨?_, h.once⟩
  intro key' id holds waiting
  have holds : (k.held.insert key k.nextId)[key']? = some id := holds
  rw [Std.ExtTreeMap.getElem?_insert] at holds
  split at holds
  · cases holds
    exact Nat.lt_irrefl _ (consistent.pendingBelow _ waiting)
  · exact h.held key' id holds waiting

theorem act (h : Single k) (consistent : Consistent k) {a : Action α} (opened : a.IsOpen) :
    Single (k.act a) := by
  cases a with
  | noteOn note draws =>
      have released := h.release consistent note.key note.when
      obtain ⟨e, -, after⟩ | ⟨voice, due, struck, after⟩ := k.noteOn_cases note draws
      · simpa only [Keyboard.act, after] using released
      · simp only [Keyboard.act, after]
        obtain ⟨built, -, ⟨-, -, rfl⟩ | ⟨duration, -, given, -⟩⟩ := strike_cases struck
        · exact released.hold (consistent.release note.key note.when) note.key voice
        · have without : note.duration = none := opened
          rw [without] at given
          cases given
  | noteOff key when => exact h.release consistent key when
  | advance now =>
      have swept := swept_advance consistent.matched now
      refine h.of_subset (fun key id holds => ((swept.held key id).1 holds).1) ?_
      intro t mem
      have left : (k.act (.advance now)).schedule = (k.schedule.drain now).2 := swept.schedule
      rw [left] at mem
      exact (Schedule.mem_pending_iff now).2 (.inr mem)
  | tweak name value draws => exact ⟨h.held, h.once⟩
  | panic =>
      refine ⟨?_, ?_⟩
      · rintro key id holds ⟨t, mem, -⟩
        cases mem
      · intro t mem
        cases mem

theorem play (h : Single k) (consistent : Consistent k) {actions : List (Action α)}
    (opened : ∀ a ∈ actions, a.IsOpen) : Single (k.play actions) := by
  induction actions generalizing k with
  | nil => exact h
  | cons a rest ih =>
      exact ih (h.act consistent (opened a List.mem_cons_self)) (consistent.act a)
        fun b mem => opened b (List.mem_cons_of_mem a mem)

end Single

/-! ## Removed voices -/

/-- A voice is removed if it is there and a teardown of it is due. -/
theorem exists_due_of_mem_advance (consistent : Consistent k) {now : α} {id : Nat}
    (gone : id ∈ (k.advance now).2) :
    (∃ s, k.voices[id]? = some s) ∧ ∃ t ∈ k.schedule.pending, t.voice = id ∧ t.due ≤ now := by
  obtain ⟨named, there⟩ := ((swept_advance consistent.matched now).mem_removed id).1 gone
  obtain ⟨t, mem, names⟩ := List.mem_map.1 named
  have present : ∃ s, k.voices[id]? = some s := ⟨_, Std.ExtTreeMap.getElem?_eq_some_getElem there⟩
  have pending := (Schedule.mem_pending_iff now).2 (.inl mem)
  exact ⟨present, t, pending, names, Schedule.due_of_mem_drain mem⟩

/-- All modules of a voice that is removed stop at one time, at which a teardown of the voice was
due.  They have stopped by then unless the voice was removed by a teardown scheduled for another
time; that can happen only if a note with a duration was struck. -/
theorem stopsAt_of_mem_advance (rack : Rack α) (patch : Patch α) {actions : List (Action α)}
    {now : α} {id : Nat}
    (gone : id ∈ (({ rack, patch : Keyboard α }.play actions).advance now).2) :
    ∃ s last, ({ rack, patch : Keyboard α }.play actions).voices[id]? = some s ∧
      s.voice.StopsAt last ∧
      ⟨last, id⟩ ∈ ({ rack, patch : Keyboard α }.play actions).schedule.pending ∧
      (last ≤ now ∨ ∃ t ∈ ({ rack, patch : Keyboard α }.play actions).schedule.pending,
        t.voice = id ∧ t.due ≤ now ∧ t.due ≠ last) ∧
      ((∀ a ∈ actions, a.IsOpen) → last ≤ now) := by
  have begun := consistent_new rack patch
  have consistent := begun.play actions
  obtain ⟨⟨s, found⟩, t, mem, names, due⟩ := exists_due_of_mem_advance consistent gone
  have timed : Timed ({ rack, patch : Keyboard α }.play actions) :=
    (Timed.of_voices_empty rfl).play begun actions
  obtain ⟨last, pending, stops⟩ := timed id s found ⟨t, mem, names⟩
  refine ⟨s, last, found, stops, pending, ?_, fun opened => ?_⟩
  · by_cases same : t.due = last
    · exact .inl (same ▸ due)
    · exact .inr ⟨t, mem, names, due, same⟩
  · have new : Single { rack, patch : Keyboard α } := ⟨by simp [Holds], by simp⟩
    have same := (new.play begun opened).once t mem ⟨last, id⟩ pending names
    rw [same] at due
    exact due

/-- A note that is held for a second. -/
def heldNote : List (Action Float) :=
  [.noteOn { key := 60, when := 0 } fun _ _ => 0, .noteOff 60 1]

/-- A held note is removed once it has died away. -/
theorem stopsAt_of_mem_advance_heldNote :
    ∃ patch, Patch.compile .standard swellSource = .ok patch ∧
      0 ∈ (({ rack := .standard, patch : Keyboard Float }.play heldNote).advance 2).2 ∧
      ∃ s last, ({ rack := .standard, patch : Keyboard Float }.play heldNote).voices[0]? = some s ∧
        s.voice.StopsAt last ∧ last ≤ 2 := by
  have played : ((Patch.compile .standard swellSource).toOption.any fun patch =>
      (({ rack := .standard, patch : Keyboard Float }.play heldNote).advance 2).2.contains 0) =
        true := by
    decide +kernel
  obtain ⟨patch, compiled, gone⟩ := (Option.any_eq_true _ _).1 played
  have compiled := Outcome.toOption_eq_some_iff.1 compiled
  have gone := List.contains_iff_mem.1 gone
  obtain ⟨s, last, found, stops, -, -, inTime⟩ := stopsAt_of_mem_advance .standard patch gone
  have opened : ∀ a ∈ heldNote, a.IsOpen := by simp [heldNote, Action.IsOpen]
  exact ⟨patch, compiled, gone, s, last, found, stops, inTime opened⟩

/-- A note of one second that is let go of half a second after its end. -/
def lateRelease : List (Action Float) :=
  [.noteOn { key := 60, when := 0, duration := some 1 } fun _ _ => 0, .noteOff 60 1.5]

/-- It is removed when its first release has died away, though its modules sound on. -/
theorem lateRelease_cut_off :
    ∃ patch, Patch.compile .standard swellSource = .ok patch ∧
      0 ∈ (({ rack := .standard, patch : Keyboard Float }.play lateRelease).advance 2).2 ∧
      ∃ s m stop,
        ({ rack := .standard, patch : Keyboard Float }.play lateRelease).voices[0]? = some s ∧
        s.voice.modules["osc"]? = some m ∧ m.stopped = some stop ∧ ¬ stop ≤ 2 := by
  have played : ((Patch.compile .standard swellSource).toOption.any fun patch =>
      (({ rack := .standard, patch : Keyboard Float }.play lateRelease).advance 2).2.contains 0 &&
      ({ rack := .standard, patch : Keyboard Float }.play lateRelease).voices[0]?.any fun s =>
        s.voice.modules["osc"]?.any fun m => m.stopped.any fun stop => !decide (stop ≤ 2)) =
          true := by
    decide +kernel
  obtain ⟨patch, compiled, both⟩ := (Option.any_eq_true _ _).1 played
  obtain ⟨gone, late⟩ := Bool.and_eq_true_iff.1 both
  obtain ⟨s, found, late⟩ := (Option.any_eq_true _ _).1 late
  obtain ⟨m, there, late⟩ := (Option.any_eq_true _ _).1 late
  obtain ⟨stop, stopped, late⟩ := (Option.any_eq_true _ _).1 late
  have compiled := Outcome.toOption_eq_some_iff.1 compiled
  have gone := List.contains_iff_mem.1 gone
  have late : ¬ stop ≤ 2 := by simpa using late
  exact ⟨patch, compiled, gone, s, m, stop, found, there, stopped, late⟩

end Keyboard
end SynthPatch
