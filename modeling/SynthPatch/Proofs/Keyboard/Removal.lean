import SynthPatch.Patch.Basic
import SynthPatch.Conversion
import SynthPatch.Proofs.Double.Order
import SynthPatch.Proofs.Keyboard.Ledger
/-!
# What time does to a keyboard

The pending teardowns stand in the order they are queued in, so letting time go on takes out exactly
those that are due.  Each voice that one of them names and that is still there is removed, in the
order of the first teardown of each; everything else is as it was.  It makes no difference whether
time goes on at once or by and by.

Main results:

- Theorems {lit}`Schedule.Sorted.pending_push`, {lit}`Schedule.Sorted.push`: where a teardown is
  added, and that teardowns stay in order then.
- Theorem {lit}`Schedule.Sorted.drain_eq`: what is taken out is what is due.
- Theorem {lit}`Keyboard.sorted_play`: the teardowns of a keyboard that was played are in order.
- Theorem {lit}`Keyboard.advance_advance`: time may go on at once or by and by.
- Theorem {lit}`Keyboard.advanced_play`: all that letting time go on does.
-/

namespace SynthPatch

/-! ## Teardowns in order -/

/-- In a row where what has a property comes before what has not, taking from the front takes all
that has it. -/
theorem Queue.takeWhile_eq_filter {β : Type} {p : β → Bool} {l : List β}
    (falling : l.Pairwise fun a b => p b = true → p a = true) :
    l.takeWhile p = l.filter p ∧ l.dropWhile p = l.filter (!p ·) := by
  induction l with
  | nil => exact ⟨rfl, rfl⟩
  | cons a rest ih =>
      obtain ⟨first, falling⟩ := List.pairwise_cons.1 falling
      obtain ⟨taken, left⟩ := ih falling
      cases ha : p a with
      | true => simp [ha, taken, left]
      | false =>
          have none : ∀ b ∈ rest, p b = false := by
            intro b mem
            by_contra has
            rw [first b mem (by simpa using has)] at ha
            cases ha
          have all : rest.filter (!p ·) = rest := List.filter_eq_self.2 (by simpa using none)
          simp [ha, all, List.filter_eq_nil_iff.2 (by simpa using none)]

namespace Schedule

theorem goesBefore_iff {a b : Teardown Double} : goesBefore a b = true ↔
    a.due.rank < b.due.rank ∨ a.due.rank = b.due.rank ∧ a.voice ≤ b.voice := by
  change ((compare a.due.rank b.due.rank).then (compare a.voice b.voice)).isLE = true ↔ _
  rcases Int.lt_trichotomy a.due.rank b.due.rank with below | same | above
  · simp [Int.compare_eq_lt.2 below, below]
  · simp [same, Nat.isLE_compare]
  · simp [Int.compare_eq_gt.2 above]
    omega

/-- The pending teardowns stand in the order they are queued in. -/
def Sorted (s : Schedule Double) : Prop :=
  s.pending.Pairwise fun a b => goesBefore a b = true

namespace Sorted

variable {s : Schedule Double} (h : Sorted s)

include h

/-- A teardown is added behind those that go before it, and in front of all others. -/
theorem pending_push (t : Teardown Double) : (s.push t).pending =
    s.pending.filter (goesBefore · t) ++ t :: s.pending.filter (!goesBefore · t) := by
  have falling : s.pending.Pairwise fun a b => goesBefore b t = true → goesBefore a t = true := by
    refine h.imp fun {a b} first => ?_
    rw [goesBefore_iff] at first ⊢
    rw [goesBefore_iff]
    omega
  obtain ⟨front, back⟩ := Queue.takeWhile_eq_filter falling
  have placed := @Queue.insert_of_split (Teardown Double) (goesBefore · t)
    (s.pending.filter (goesBefore · t)) (s.pending.filter (!goesBefore · t)) t
    (fun a mem => (List.mem_filter.1 mem).2) (fun b mem => by simpa using (List.mem_filter.1 mem).2)
  rwa [← front, ← back, List.takeWhile_append_dropWhile, front, back] at placed

/-- Teardowns stay in order when one is added. -/
theorem push (t : Teardown Double) : Sorted (s.push t) := by
  unfold Sorted
  rw [h.pending_push t]
  refine List.pairwise_append.2 ⟨h.filter _, List.pairwise_cons.2 ⟨?_, h.filter _⟩, ?_⟩
  · intro b mem
    have later : goesBefore b t = false := by simpa using (List.mem_filter.1 mem).2
    rw [← Bool.not_eq_true, goesBefore_iff] at later
    rw [goesBefore_iff]
    omega
  · intro a mem b mem'
    have before := (List.mem_filter.1 mem).2
    rcases List.mem_cons.1 mem' with rfl | mem'
    · exact before
    · have later : goesBefore b t = false := by simpa using (List.mem_filter.1 mem').2
      rw [← Bool.not_eq_true, goesBefore_iff] at later
      rw [goesBefore_iff] at before ⊢
      omega

/-- What is left behind is in order. -/
theorem drain (now : Double) : Sorted (s.drain now).2 :=
  List.Pairwise.sublist (List.dropWhile_sublist _) h

/-- What is taken out is what is due, and what is not due yet is left. -/
theorem drain_eq (defined : ∀ t ∈ s.pending, t.due.isUndefined = false) {now : Double}
    (known : now.isUndefined = false) :
    (s.drain now).1 = s.pending.filter (fun t => t.due ≤ now) ∧
      (s.drain now).2.pending = s.pending.filter (fun t => now < t.due) := by
  have falling : s.pending.Pairwise fun a b =>
      decide (b.due ≤ now) = true → decide (a.due ≤ now) = true := by
    refine h.imp_of_mem fun {a b} ha hb first => ?_
    have order : a.due.rank ≤ b.due.rank := by
      rw [goesBefore_iff] at first
      omega
    have place := Double.place_le_of_rank_le (defined a ha) (defined b hb) order
    simp only [decide_eq_true_eq, Double.le_iff (defined a ha) known,
      Double.le_iff (defined b hb) known]
    omega
  obtain ⟨taken, left⟩ := Queue.takeWhile_eq_filter falling
  refine ⟨taken, left.trans ?_⟩
  refine List.filter_congr fun t mem => ?_
  rw [← decide_not, decide_eq_decide]
  exact Double.not_le_iff (defined t mem) known

end Sorted

/-- What is due by an earlier time is taken out first, and then what is due by a later one. -/
theorem drain_drain (s : Schedule Double) (defined : ∀ t ∈ s.pending, t.due.isUndefined = false)
    {now later : Double} (known : now.isUndefined = false) (knownToo : later.isUndefined = false)
    (after : now ≤ later) :
    (s.drain later).1 = (s.drain now).1 ++ ((s.drain now).2.drain later).1 ∧
      (s.drain later).2 = ((s.drain now).2.drain later).2 := by
  have due : ∀ t ∈ (s.drain now).1, decide (t.due ≤ later) = true := by
    intro t mem
    have pending := (mem_pending_iff now).2 (.inl mem)
    exact decide_eq_true
      (Double.le_trans (defined t pending) known knownToo (due_of_mem_drain mem) after)
  have parts := s.drain_append now
  unfold drain at parts due ⊢
  constructor
  · conv_lhs => rw [← parts]
    exact List.takeWhile_append_of_pos due
  · simp only [mk.injEq]
    conv_lhs => rw [← parts]
    exact List.dropWhile_append_of_pos due

end Schedule

namespace Keyboard

variable {k : Keyboard Double}

/-! ## The schedule of a keyboard -/

/-- Whatever happens to a keyboard, its teardowns stay in order. -/
theorem sorted_act (consistent : Consistent k) (h : k.schedule.Sorted) (a : Action Double) :
    (k.act a).schedule.Sorted := by
  have released (key : UInt8) (when : Double) : (k.release key when).1.schedule.Sorted := by
    obtain ⟨-, after⟩ | ⟨_, -, -, after⟩ | ⟨_, _, -, -, after⟩ := k.release_cases key when
    · rw [after]
      exact h
    · rw [after]
      exact h
    · rw [after]
      exact h.push _
  cases a with
  | noteOn note draws =>
      obtain ⟨e, -, after⟩ | ⟨voice, due, -, after⟩ := k.noteOn_cases note draws
      · simp only [act, after]
        exact released note.key note.when
      · simp only [act, after]
        cases due with
        | none => exact released note.key note.when
        | some due => exact (released note.key note.when).push _
  | noteOff key when => exact released key when
  | advance now =>
      have left : (k.act (.advance now)).schedule = (k.schedule.drain now).2 :=
        (swept_advance consistent.matched now).schedule
      rw [left]
      exact h.drain now
  | tweak name value draws => exact h
  | panic => exact List.Pairwise.nil

/-- The teardowns of a keyboard are in order however it has been played. -/
theorem sorted_play (consistent : Consistent k) (h : k.schedule.Sorted)
    (actions : List (Action Double)) : (k.play actions).schedule.Sorted := by
  induction actions generalizing k with
  | nil => exact h
  | cons a rest ih => exact ih (consistent.act a) (sorted_act consistent h a)

/-! ## The order of removal -/

/-- The teardown is the first of the voice's that are pending. -/
def First (k : Keyboard Double) (id : Nat) (t : Teardown Double) : Prop :=
  t ∈ k.schedule.pending ∧ t.voice = id ∧
    ∀ u ∈ k.schedule.pending, u.voice = id → Schedule.goesBefore t u = true

/-- The first teardown of one voice comes before that of another; of two at the same time that of
the voice with the smaller number does. -/
def Precedes (k : Keyboard Double) (i j : Nat) : Prop :=
  ∃ t u, k.First i t ∧ k.First j u ∧ ((Scalar.order t.due u.due).then (compare i j)) = .lt

/-- The voices that have been removed stand in the order of their first teardowns, and those have
been dealt with. -/
structure InOrder (k : Keyboard Double) (front : List (Teardown Double)) (removed : List Nat) :
    Prop where
  ordered : removed.Pairwise k.Precedes
  named : ∀ id ∈ removed, ∃ t ∈ front, k.First id t

section InOrder

variable {start : Keyboard Double} {front rest : List (Teardown Double)} {t : Teardown Double}
  {state : Keyboard Double × List Nat}

/-- The voice that the next teardown removes is one that no teardown before names. -/
theorem InOrder.sweep (h : InOrder start front state.2)
    (swept : Swept start (front.map (·.voice)) state) (sorted : start.schedule.Sorted)
    (shape : start.schedule.pending = front ++ t :: rest) :
    InOrder start (front ++ [t]) (Keyboard.sweep state t).2 := by
  have named : ∀ id ∈ state.2, ∃ u ∈ front ++ [t], start.First id u := by
    intro id mem
    obtain ⟨u, there, first⟩ := h.named id mem
    exact ⟨u, List.mem_append_left _ there, first⟩
  cases found : state.1.voices[t.voice]? with
  | none =>
      have same : Keyboard.sweep state t = state := by simp only [Keyboard.sweep, drop, found]
      rw [same]
      exact ⟨h.ordered, named⟩
  | some s =>
      have added : (Keyboard.sweep state t).2 = state.2 ++ [t.voice] := by
        simp only [Keyboard.sweep, drop, found]
      have fresh : t.voice ∉ front.map (·.voice) := by
        intro mem
        have gone := swept.voices t.voice
        rw [if_pos mem, found] at gone
        cases gone
      unfold Schedule.Sorted at sorted
      rw [shape] at sorted
      obtain ⟨-, behind, across⟩ := List.pairwise_append.1 sorted
      have first : start.First t.voice t := by
        refine ⟨by simp [shape], rfl, ?_⟩
        intro u mem names
        rw [shape] at mem
        rcases List.mem_append.1 mem with mem | mem
        · exact absurd (List.mem_map.2 ⟨u, mem, names⟩) fresh
        · rcases List.mem_cons.1 mem with rfl | mem
          · exact Schedule.goesBefore_iff.2 (.inr ⟨rfl, Nat.le_refl _⟩)
          · exact (List.pairwise_cons.1 behind).1 u mem
      rw [added]
      refine ⟨List.pairwise_append.2 ⟨h.ordered, List.pairwise_singleton _ _, ?_⟩, ?_⟩
      · intro i mem j last
        rw [List.mem_singleton.1 last]
        obtain ⟨u, there, firstToo⟩ := h.named i mem
        refine ⟨u, t, firstToo, first, ?_⟩
        have before := Schedule.goesBefore_iff.1 (across u there t List.mem_cons_self)
        have apart : i ≠ t.voice := by
          rintro rfl
          exact fresh (List.mem_map.2 ⟨u, there, firstToo.2.1⟩)
        rw [firstToo.2.1] at before
        change (compare u.due.rank t.due.rank).then (compare i t.voice) = .lt
        rcases before with earlier | ⟨same, smaller⟩
        · rw [Int.compare_eq_lt.2 earlier]
          rfl
        · rw [Int.compare_eq_eq.2 same, Nat.compare_eq_lt.2 (by omega)]
          rfl
      · intro id mem
        rcases List.mem_append.1 mem with mem | mem
        · exact named id mem
        · rw [List.mem_singleton.1 mem]
          exact ⟨t, by simp, first⟩

theorem InOrder.foldl (h : InOrder start front state.2)
    (swept : Swept start (front.map (·.voice)) state) (matched : Matched start)
    (sorted : start.schedule.Sorted) (due : List (Teardown Double))
    (shape : start.schedule.pending = front ++ (due ++ rest)) :
    InOrder start (front ++ due) (due.foldl Keyboard.sweep state).2 := by
  induction due generalizing front state with
  | nil => simpa using h
  | cons t more ih =>
      have next := h.sweep swept sorted shape
      have sweptNext : Swept start ((front ++ [t]).map (·.voice)) (Keyboard.sweep state t) := by
        simpa using swept.sweep matched t
      have all := ih next sweptNext (by simpa using shape)
      rwa [List.append_assoc] at all

end InOrder

/-! ## Letting time go on -/

section Resume

variable {α : Type} [Scalar α]

/-- The same keyboard with another schedule, after other voices have been removed. -/
def resume (schedule : Schedule α) (before : List Nat) (state : Keyboard α × List Nat) :
    Keyboard α × List Nat :=
  ({ state.1 with schedule }, before ++ state.2)

omit [Scalar α] in
/-- What a teardown does depends neither on the schedule nor on what was removed before. -/
theorem sweep_resume (schedule : Schedule α) (before : List Nat) (state : Keyboard α × List Nat)
    (t : Teardown α) :
    sweep (resume schedule before state) t = resume schedule before (sweep state t) := by
  cases found : state.1.voices[t.voice]? with
  | none => simp only [sweep, drop, resume, found]
  | some s =>
      simp only [sweep, drop, resume, found, List.append_assoc]
      rfl

omit [Scalar α] in
theorem foldl_sweep_resume (schedule : Schedule α) (before : List Nat) (due : List (Teardown α))
    (state : Keyboard α × List Nat) :
    due.foldl sweep (resume schedule before state) =
      resume schedule before (due.foldl sweep state) :=
  List.foldl_hom (resume schedule before) fun state t => sweep_resume schedule before state t

end Resume

/-- What there is after time has gone on to a point, and the voices that were removed. -/
structure Advanced (k : Keyboard Double) (now : Double) (after : Keyboard Double × List Nat) :
    Prop where
  once : after.2.Nodup
  /-- The voices that are there and have a teardown that is due are removed. -/
  removed : ∀ id, id ∈ after.2 ↔
    id ∈ k.voices ∧ ∃ t ∈ k.schedule.pending, t.voice = id ∧ t.due ≤ now
  ordered : after.2.Pairwise k.Precedes
  /-- Those voices are gone, and the others are as they were. -/
  voices : ∀ id, after.1.voices[id]? = if id ∈ after.2 then none else k.voices[id]?
  /-- The keys that held one of those voices are free, and the others hold what they held. -/
  held : ∀ key id, after.1.Holds key id ↔ k.Holds key id ∧ id ∉ after.2
  pending : after.1.schedule.pending = k.schedule.pending.filter (fun t => now < t.due)
  nextId : after.1.nextId = k.nextId

/-- Letting time go on removes what is due, in the order it is due, and touches nothing else. -/
theorem advanced_advance (consistent : Consistent k) (sorted : k.schedule.Sorted)
    (defined : ∀ t ∈ k.schedule.pending, t.due.isUndefined = false) {now : Double}
    (known : now.isUndefined = false) : Advanced k now (k.advance now) := by
  have swept := swept_advance consistent.matched now
  obtain ⟨due, left⟩ := sorted.drain_eq defined known
  have named : ∀ id, id ∈ k.dueVoices now ↔
      ∃ t ∈ k.schedule.pending, t.voice = id ∧ t.due ≤ now := by
    intro id
    simp only [dueVoices, due, List.mem_map, List.mem_filter, decide_eq_true_eq]
    constructor
    · rintro ⟨t, ⟨mem, past⟩, names⟩
      exact ⟨t, mem, names, past⟩
    · rintro ⟨t, mem, names, past⟩
      exact ⟨t, ⟨mem, past⟩, names⟩
  have removed : ∀ id, id ∈ (k.advance now).2 ↔ id ∈ k.dueVoices now ∧ id ∈ k.voices :=
    swept.mem_removed
  refine ⟨swept.nodup_removed, fun id => ?_, ?_, fun id => ?_, fun key id => ?_, ?_, swept.nextId⟩
  · rw [removed, named, and_comm]
  · have begun : Swept k [] (k, []) := ⟨by simp, by simp, rfl, rfl, by simp, List.nodup_nil⟩
    have shape : k.schedule.pending =
        [] ++ ((k.schedule.drain now).1 ++ (k.schedule.drain now).2.pending) :=
      (k.schedule.drain_append now).symm
    have first : InOrder k [] [] := ⟨List.Pairwise.nil, by simp⟩
    have ordered := (first.foldl begun consistent.matched sorted _ shape).ordered
    have same : k.advance now = resume (k.schedule.drain now).2 []
        ((k.schedule.drain now).1.foldl sweep (k, [])) :=
      foldl_sweep_resume (k.schedule.drain now).2 [] (k.schedule.drain now).1 (k, [])
    rw [same]
    exact ordered
  · rw [swept.voices]
    by_cases there : id ∈ k.voices
    · simp [removed, there]
    · simp [Std.ExtTreeMap.getElem?_eq_none there]
  · rw [swept.held]
    refine and_congr_right fun holds => ?_
    have there : id ∈ k.voices := consistent.mem_of_holds holds
    rw [removed]
    tauto
  · rw [swept.schedule]
    exact left

/-- Whether time goes on at once or by and by makes no difference. -/
theorem advance_advance (consistent : Consistent k)
    (defined : ∀ t ∈ k.schedule.pending, t.due.isUndefined = false) {now later : Double}
    (known : now.isUndefined = false) (knownToo : later.isUndefined = false)
    (after : now ≤ later) :
    (k.advance now).2 ++ ((k.advance now).1.advance later).2 = (k.advance later).2 ∧
      ((k.advance now).1.advance later).1 = (k.advance later).1 := by
  obtain ⟨due, left⟩ := Schedule.drain_drain k.schedule defined known knownToo after
  have schedule : (k.advance now).1.schedule = (k.schedule.drain now).2 :=
    (swept_advance consistent.matched now).schedule
  have last : ((k.advance now).1.advance later).1.schedule = (k.schedule.drain later).2 := by
    have swept := swept_advance (consistent.advance now).matched later
    rw [swept.schedule, schedule, left]
  have parts : k.advance later =
      resume (k.schedule.drain later).2 (k.advance now).2 ((k.advance now).1.advance later) := by
    calc k.advance later
        = (k.schedule.drain later).1.foldl sweep
            ({ k with schedule := (k.schedule.drain later).2 }, []) := rfl
      _ = ((k.advance now).1.schedule.drain later).1.foldl sweep
            ((k.schedule.drain now).1.foldl sweep
              (resume (k.schedule.drain later).2 []
                ({ k with schedule := (k.schedule.drain now).2 }, []))) := by
          rw [due, List.foldl_append, schedule]
          rfl
      _ = ((k.advance now).1.schedule.drain later).1.foldl sweep
            (resume (k.schedule.drain later).2 [] (k.advance now)) := by
          rw [foldl_sweep_resume]
          rfl
      _ = ((k.advance now).1.schedule.drain later).1.foldl sweep
            (resume (k.schedule.drain later).2 (k.advance now).2
              ({ (k.advance now).1 with
                schedule := ((k.advance now).1.schedule.drain later).2 }, [])) := by
          simp only [resume, List.nil_append, List.append_nil]
      _ = _ := foldl_sweep_resume _ _ _ _
  rw [parts]
  simp only [resume, ← last, and_self]

/-- However a keyboard has been played, letting time go on removes exactly the voices that are due,
and by and by as at once. -/
theorem advanced_play (rack : Rack Double) (patch : Patch Double) {actions : List (Action Double)}
    (defined : ∀ t ∈ ({ rack, patch : Keyboard Double }.play actions).schedule.pending,
      t.due.isUndefined = false)
    {now : Double} (known : now.isUndefined = false) :
    Advanced ({ rack, patch : Keyboard Double }.play actions) now
        (({ rack, patch : Keyboard Double }.play actions).advance now) ∧
      ∀ later, later.isUndefined = false → now ≤ later →
        (({ rack, patch : Keyboard Double }.play actions).advance now).2 ++
            ((({ rack, patch : Keyboard Double }.play actions).advance now).1.advance later).2 =
          (({ rack, patch : Keyboard Double }.play actions).advance later).2 ∧
        ((({ rack, patch : Keyboard Double }.play actions).advance now).1.advance later).1 =
          (({ rack, patch : Keyboard Double }.play actions).advance later).1 := by
  have begun := consistent_new rack patch
  have consistent := begun.play actions
  have sorted := sorted_play begun List.Pairwise.nil actions
  exact ⟨advanced_advance consistent sorted defined known,
    fun _ knownToo after => advance_advance consistent defined known knownToo after⟩

/-- Two notes of which the second is let go of first, and a third one on the key of the first. -/
def threeNotes : List (Action Double) :=
  [.noteOn { key := 60, when := 0 } fun _ _ => 0, .noteOn { key := 64, when := 0 } fun _ _ => 0,
    .noteOff 64 0.5, .noteOff 60 1, .noteOn { key := 60, when := 1.5 } fun _ _ => 0]

/-- The second note is removed before the first one, whose key stays with the third. -/
theorem advanced_play_threeNotes :
    ∃ patch rack k, Patch.compile .standard swellSource = .ok patch ∧
      rack = Rack.standard.map Double.ofFloat ∧
      k = { rack, patch := patch.map Double.ofFloat : Keyboard Double }.play threeNotes ∧
      Advanced k 2.0 (k.advance 2.0) ∧ (k.advance 2.0).2 = [1, 0] ∧
      (k.advance 1.5).2 ++ ((k.advance 1.5).1.advance 2.0).2 = [1, 0] := by
  let rack : Rack Double := Rack.standard.map Double.ofFloat
  have played : ((Patch.compile .standard swellSource).toOption.any fun patch =>
      let k := { rack, patch := patch.map Double.ofFloat : Keyboard Double }.play threeNotes
      k.schedule.pending.all (fun t => !t.due.isUndefined) && (k.advance 2.0).2 == [1, 0]) =
        true := by
    decide +kernel
  obtain ⟨patch, compiled, both⟩ := (Option.any_eq_true _ _).1 played
  obtain ⟨defined, gone⟩ := Bool.and_eq_true_iff.1 both
  have defined := by simpa using defined
  have gone := beq_iff_eq.1 gone
  have early : (1.5 : Double).isUndefined = false := by decide +kernel
  have late : (2.0 : Double).isUndefined = false := by decide +kernel
  obtain ⟨advanced, -⟩ := advanced_play rack _ defined late
  obtain ⟨-, byAndBy⟩ := advanced_play rack _ defined early
  have parts := (byAndBy 2.0 late (by decide +kernel)).1
  exact ⟨patch, rack, _, Outcome.toOption_eq_some_iff.1 compiled, rfl, rfl, advanced, gone,
    parts.trans gone⟩

end Keyboard
end SynthPatch
