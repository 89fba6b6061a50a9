import SynthPatch.Proofs.Module.Editing
/-!
# Values between the goals

An automated property is always on its way from one goal to another: from its own value, from a
value it has arrived at or from somewhere on an approach, to the next value or target.  Taken
exactly, it stays between its goals, and it arrives where an event says.

Little of this depends on what the exponential and powers are, so they are left open here as far as
they may be.

Main results:

- Structure {lit}`Curves`: what has to be known of the exponential and of powers.
- Theorem {lit}`Curves.valueAt_mem`: a timeline stays within any interval that holds its goals.
- Theorem {lit}`Chronological.exists_last`: where the last event of a time stands.
- Theorem {lit}`Curves.valueAt_time`: at its own time such an event has arrived.
- Theorem {lit}`Curves.valueAt_edited`: both for every row of edits.
-/

namespace SynthPatch

/-! ## Goals -/

section Goals

variable {α : Type}

/-- The value that an event leads to, or the target that it makes for. -/
def Ramp.goal : Ramp α → α
  | .jump v | .linear v | .exponential v | .approach v _ => v

/-- The value that an event arrives at; an approach never arrives. -/
def Ramp.arrival? : Ramp α → Option α
  | .jump v | .linear v | .exponential v => some v
  | .approach _ _ => none

/-- The value of its own that a timeline has, and what its events lead to. -/
def Timeline.goals (line : Timeline α) : List α :=
  line.value :: line.events.map (·.ramp.goal)

/-- An anchor from which only values of the set are approached. -/
structure Anchor.Within (s : Set α) (a : Anchor α) : Prop where
  value : a.value ∈ s
  target : ∀ pair, a.approach = some pair → pair.1 ∈ s

end Goals

/-! ## Curves -/

/-- An exponential that falls off from one and stays above zero, and powers that lead from a start
to a stop on the same side of zero. -/
structure Curves where
  exp : ℝ → ℝ
  pow : ℝ → ℝ → ℝ
  exp_pos : ∀ {x}, 0 ≤ x → 0 < exp (-x)
  exp_le_one : ∀ {x}, 0 ≤ x → exp (-x) ≤ 1
  pow_mem : ∀ {start stop part}, 0 < start * stop → 0 ≤ part → part < 1 →
    start * pow (stop / start) part ∈ Set.uIcc start stop
  pow_zero : ∀ {start stop}, 0 < start * stop → start * pow (stop / start) 0 = start

/-- A point on the way along a straight line. -/
theorem mem_uIcc_of_part (start stop : ℝ) {part : ℝ} (begun : 0 ≤ part) (ahead : part ≤ 1) :
    start + (stop - start) * part ∈ Set.uIcc start stop := by
  rw [← segment_eq_uIcc]
  refine ⟨1 - part, part, sub_nonneg.2 ahead, begun, sub_add_cancel 1 part, ?_⟩
  simp only [smul_eq_mul]
  ring

namespace Anchor

/-- Once an event has arrived, nothing that came before it matters. -/
theorem pass_of_arrival {α : Type} [Scalar α] (a : Anchor α) {e : Event α} {v : α}
    (arrival : e.ramp.arrival? = some v) : a.pass e = ⟨e.time, v, none⟩ := by
  unfold pass
  cases ramp : e.ramp with
  | approach target constant => simp [ramp, Ramp.arrival?] at arrival
  | jump w | linear w | exponential w =>
      rw [ramp] at arrival
      rw [Option.some.inj arrival]

variable (a : Anchor ℝ) {t endTime : ℝ}

theorem progress_nonneg (t span : ℝ) : 0 ≤ a.progress t span :=
  Scalar.le_nonneg _

/-- Before the time at which it ends, a way is not complete. -/
theorem progress_lt_one (ahead : t < endTime) (lasts : 0 < endTime - a.time) :
    a.progress t (endTime - a.time) < 1 := by
  unfold progress Scalar.nonneg
  split
  · exact (div_lt_one lasts).2 (by linarith)
  · exact one_pos

/-- Where it begins, nothing is done of a way. -/
theorem progress_self (span : ℝ) : a.progress a.time span = 0 := by
  rw [progress, sub_self, zero_div, Scalar.nonneg_of_le le_rfl]

end Anchor

namespace Curves

/-- The real numbers with these curves. -/
@[reducible]
noncomputable def scalar (c : Curves) : Scalar ℝ :=
  { (inferInstance : Scalar ℝ) with
    exp := c.exp
    pow := c.pow }

variable (c : Curves)

/-- The value of a timeline at a time. -/
noncomputable def valueAt (line : Timeline ℝ) (t : ℝ) : ℝ :=
  @Timeline.valueAt ℝ c.scalar line t

/-- A new timeline after a row of edits. -/
noncomputable def edited (value : ℝ) (edits : List (Edit ℝ)) : Timeline ℝ :=
  @Timeline.edited ℝ c.scalar (.constant value) edits

/-- The events that are left of a row of edits, in the order in which they were added. -/
noncomputable def surviving (value : ℝ) (edits : List (Edit ℝ)) : List (Event ℝ) :=
  @Timeline.surviving ℝ c.scalar (.constant value) edits

/-! ## Staying between the goals -/

section Within

variable {s : Set ℝ} [s.OrdConnected] {a : Anchor ℝ} (within : a.Within s) {t : ℝ}

include within

/-- An approach stays between its start and its target. -/
theorem held_mem (t : ℝ) : @Anchor.held ℝ c.scalar a t ∈ s := by
  unfold Anchor.held
  split
  · next target constant approached =>
      have aim : target ∈ s := within.target _ approached
      split
      · next part =>
          have lasts : 0 < constant := part.1
          have later : a.time < t := part.2
          have gone : 0 ≤ (t - a.time) / constant := div_nonneg (by linarith) lasts.le
          have between := mem_uIcc_of_part target a.value
            (c.exp_pos gone).le (c.exp_le_one gone)
          rw [← neg_div] at between
          exact Set.OrdConnected.uIcc_subset ‹_› aim within.value between
      · split
        · exact aim
        · exact within.value
  · exact within.value

theorem linear_mem {endTime endValue : ℝ} (ahead : t < endTime) (aim : endValue ∈ s) :
    @Anchor.linear ℝ c.scalar a t endTime endValue ∈ s := by
  have start := c.held_mem within a.time
  unfold Anchor.linear
  simp only
  split
  · exact aim
  · next lasts =>
      have between := mem_uIcc_of_part (@Anchor.held ℝ c.scalar a a.time) endValue
        (a.progress_nonneg t _) (a.progress_lt_one ahead (not_le.1 lasts)).le
      exact Set.OrdConnected.uIcc_subset ‹_› start aim between

theorem exponential_mem {endTime endValue : ℝ} (ahead : t < endTime) (aim : endValue ∈ s) :
    @Anchor.exponential ℝ c.scalar a t endTime endValue ∈ s := by
  have start := c.held_mem within a.time
  unfold Anchor.exponential
  simp only
  split
  · exact aim
  · next lasts =>
      -- No curve leads from one side of zero to the other; there the anchor holds.
      split
      · exact c.held_mem within t
      · next curved =>
          have between := c.pow_mem (not_le.1 curved) (a.progress_nonneg t _)
            (a.progress_lt_one ahead (not_le.1 lasts))
          exact Set.OrdConnected.uIcc_subset ‹_› start aim between

/-- On the way to an event the value stays within what holds the goals. -/
theorem towards_mem {e : Event ℝ} (ahead : t < e.time) (aim : e.ramp.goal ∈ s) :
    @Anchor.towards ℝ c.scalar a t e ∈ s := by
  cases e with
  | mk time ramp =>
      cases ramp with
      | linear v => exact c.linear_mem within ahead aim
      | exponential v => exact c.exponential_mem within ahead aim
      | jump v | approach target constant => exact c.held_mem within t

/-- So does the next anchor. -/
theorem within_pass {e : Event ℝ} (aim : e.ramp.goal ∈ s) :
    (@Anchor.pass ℝ c.scalar a e).Within s := by
  cases e with
  | mk time ramp =>
      cases ramp with
      | approach target constant =>
          refine ⟨c.held_mem within time, fun pair approached => ?_⟩
          rw [← Option.some.inj approached]
          exact aim
      | jump v | linear v | exponential v => exact ⟨aim, fun _ none => by cases none⟩

/-- The events may come in any order for this: the anchor stays within, whatever is passed. -/
theorem follow_mem {events : List (Event ℝ)} (aims : ∀ e ∈ events, e.ramp.goal ∈ s) :
    @Anchor.follow ℝ c.scalar t a events ∈ s := by
  induction events generalizing a with
  | nil => exact c.held_mem within t
  | cons e rest ih =>
      obtain ⟨aim, others⟩ := List.forall_mem_cons.1 aims
      unfold Anchor.follow
      split
      · next ahead => exact c.towards_mem within ahead aim
      · exact ih (c.within_pass within aim) others

end Within

/-- A timeline stays within any interval that holds its goals. -/
theorem valueAt_mem {s : Set ℝ} [s.OrdConnected] {line : Timeline ℝ}
    (aims : ∀ goal ∈ line.goals, goal ∈ s) (t : ℝ) : c.valueAt line t ∈ s := by
  obtain ⟨own, others⟩ := List.forall_mem_cons.1 aims
  exact c.follow_mem ⟨own, fun _ none => by cases none⟩ (List.forall_mem_map.1 others)

/-- A timeline has a lowest goal and a highest one, and stays between them. -/
theorem exists_bounds (line : Timeline ℝ) : ∃ low high,
    IsLeast {goal | goal ∈ line.goals} low ∧ IsGreatest {goal | goal ∈ line.goals} high ∧
      ∀ t, c.valueAt line t ∈ Set.Icc low high := by
  have nonempty : line.goals.toFinset.Nonempty := ⟨line.value, by simp [Timeline.goals]⟩
  have least := line.goals.toFinset.isLeast_min' nonempty
  have greatest := line.goals.toFinset.isGreatest_max' nonempty
  rw [List.coe_toFinset] at least greatest
  exact ⟨_, _, least, greatest, c.valueAt_mem fun goal mem => ⟨least.2 mem, greatest.2 mem⟩⟩

/-! ## Arriving -/

/-- At its own time an anchor still has its value. -/
theorem held_self (a : Anchor ℝ) : @Anchor.held ℝ c.scalar a a.time = a.value := by
  unfold Anchor.held
  split
  · rw [if_neg fun part => lt_irrefl a.time part.2, if_neg (lt_irrefl a.time)]
  · rfl

theorem linear_self (a : Anchor ℝ) {endTime endValue : ℝ} (ahead : a.time < endTime) :
    @Anchor.linear ℝ c.scalar a a.time endTime endValue = a.value := by
  have begun : @Anchor.progress ℝ c.scalar a a.time (endTime - a.time) = 0 := a.progress_self _
  unfold Anchor.linear
  simp only
  rw [if_neg (sub_pos.2 ahead).not_ge, begun, mul_zero, add_zero, c.held_self]

theorem exponential_self (a : Anchor ℝ) {endTime endValue : ℝ} (ahead : a.time < endTime) :
    @Anchor.exponential ℝ c.scalar a a.time endTime endValue = a.value := by
  have begun : @Anchor.progress ℝ c.scalar a a.time (endTime - a.time) = 0 := a.progress_self _
  unfold Anchor.exponential
  simp only
  rw [if_neg (sub_pos.2 ahead).not_ge, begun, c.held_self]
  split
  · rfl
  · next curved => exact c.pow_zero (not_le.1 curved)

/-- At its own time nothing that comes later bears on an anchor. -/
theorem follow_self (a : Anchor ℝ) {events : List (Event ℝ)}
    (later : ∀ e ∈ events, a.time < e.time) :
    @Anchor.follow ℝ c.scalar a.time a events = a.value := by
  cases events with
  | nil => exact c.held_self a
  | cons e rest =>
      have ahead := later e List.mem_cons_self
      refine (@Anchor.follow_cons_of_lt ℝ c.scalar _ _ ahead a rest).trans ?_
      unfold Anchor.towards
      split
      · exact c.linear_self a ahead
      · exact c.exponential_self a ahead
      · exact c.held_self a
      · exact c.held_self a

/-- The real numbers can all be compared. -/
theorem comparable : @Scalar.Comparable ℝ c.scalar fun _ => True :=
  @Scalar.Comparable.mk ℝ c.scalar _ (fun _ _ _ => le_trans) (fun _ _ => not_le)
    (fun _ _ => le_of_lt) fun _ => trivial

variable {c} in
/-- At its own time the last event of that time has arrived, whatever comes next. -/
theorem valueAt_time {scheduled : List (Event ℝ)} {line : Timeline ℝ}
    (h : @Chronological ℝ c.scalar (fun _ => True) scheduled line.events)
    {before after : List (Event ℝ)} {e : Event ℝ} (row : scheduled = before ++ e :: after)
    (last : ∀ later ∈ after, later.time ≠ e.time) {v : ℝ} (arrival : e.ramp.arrival? = some v) :
    c.valueAt line e.time = v := by
  have apart (later : Event ℝ) (mem : later ∈ after) :
      @Event.isAt ℝ c.scalar e.time later = false := by
    refine Bool.eq_false_iff.2 fun there => last later mem ?_
    obtain ⟨low, high⟩ := (@Event.isAt_iff ℝ c.scalar e.time later).1 there
    exact le_antisymm low high
  obtain ⟨front, back, events, early, late⟩ :=
    @Chronological.exists_last ℝ c.scalar _ _ _ c.comparable h _ _ _ row apart
  have passed : ∀ x ∈ front ++ [e], ¬ e.time < x.time :=
    List.forall_mem_append.2
      ⟨fun x mem => (early x mem).not_gt, List.forall_mem_singleton.2 (lt_irrefl _)⟩
  have reached (a : Anchor ℝ) : @Anchor.pass ℝ c.scalar a e = ⟨e.time, v, none⟩ :=
    @Anchor.pass_of_arrival ℝ c.scalar a e v arrival
  unfold valueAt Timeline.valueAt
  rw [events, List.append_cons, @Anchor.follow_append ℝ c.scalar _ _ passed, List.foldl_append,
    List.foldl_cons, List.foldl_nil, reached]
  exact c.follow_self ⟨e.time, v, none⟩ fun x mem => not_le.1 (late x mem)

/-! ## Both -/

/-- A part of the way from one to a ratio, by powers. -/
theorem rpow_mem_uIcc {ratio part : ℝ} (positive : 0 < ratio) (begun : 0 ≤ part)
    (ahead : part ≤ 1) : ratio ^ part ∈ Set.uIcc 1 ratio := by
  rcases le_total 1 ratio with grows | shrinks
  · rw [Set.uIcc_of_le grows]
    refine ⟨Real.one_le_rpow grows begun, ?_⟩
    exact (Real.rpow_le_rpow_of_exponent_le grows ahead).trans_eq (Real.rpow_one ratio)
  · rw [Set.uIcc_of_ge shrinks]
    refine ⟨?_, Real.rpow_le_one positive.le shrinks begun⟩
    exact (Real.rpow_one ratio).symm.trans_le
      (Real.rpow_le_rpow_of_exponent_ge positive shrinks ahead)

/-- The exponential and the powers of the real numbers. -/
noncomputable def real : Curves where
  exp := Real.exp
  pow x y := x ^ y
  exp_pos _ := Real.exp_pos _
  exp_le_one h := Real.exp_le_one_iff.2 (neg_nonpos.2 h)
  pow_mem := by
    intro start stop part same begun ahead
    have nonzero : start ≠ 0 := left_ne_zero_of_mul same.ne'
    have ratio : 0 < stop / start := by
      rw [← mul_div_mul_left stop start nonzero]
      exact div_pos same (mul_self_pos.2 nonzero)
    have scaled := Set.mem_image_of_mem (start * ·) (rpow_mem_uIcc ratio begun ahead.le)
    rwa [Set.image_const_mul_uIcc, mul_one, mul_div_cancel₀ stop nonzero] at scaled
  pow_zero _ := by rw [Real.rpow_zero, mul_one]

/-- With these curves the value of a timeline is the one in exact arithmetic. -/
theorem valueAt_real (line : Timeline ℝ) (t : ℝ) : real.valueAt line t = line.valueAt t :=
  rfl

/-- A new timeline after any row of edits.  At every time its value is between its lowest and its
highest goal, and at the time of a jump or a ramp that is the last event scheduled for it the value
is the one it arrives at, whatever comes next. -/
theorem valueAt_edited (value : ℝ) (edits : List (Edit ℝ)) :
    (∃ low high, IsLeast {goal | goal ∈ (c.edited value edits).goals} low ∧
      IsGreatest {goal | goal ∈ (c.edited value edits).goals} high ∧
        ∀ t, c.valueAt (c.edited value edits) t ∈ Set.Icc low high) ∧
      ∀ before e after v, c.surviving value edits = before ++ e :: after →
        (∀ later ∈ after, later.time ≠ e.time) → e.ramp.arrival? = some v →
          c.valueAt (c.edited value edits) e.time = v := by
  refine ⟨c.exists_bounds _, fun before e after v row last arrival => ?_⟩
  have h := @Timeline.chronological_edited ℝ c.scalar _ (.constant value) c.comparable rfl edits
    fun _ _ _ _ => trivial
  exact valueAt_time h row last arrival

/-- Ramps to the same time, and an approach that begins later. -/
noncomputable def steepRamps : List (Event ℝ) :=
  [⟨2.0, .linear 3.0⟩, ⟨1, .jump 1⟩, ⟨2.0, .exponential 4.0⟩, ⟨3.0, .approach 0 0.5⟩]

/-- Of the two ramps the one that was scheduled last decides. -/
theorem valueAt_edited_steepRamps :
    (∃ low high,
      IsLeast {goal | goal ∈ (real.edited 0 (steepRamps.map Edit.ofEvent)).goals} low ∧
      IsGreatest {goal | goal ∈ (real.edited 0 (steepRamps.map Edit.ofEvent)).goals} high ∧
        ∀ t, real.valueAt (real.edited 0 (steepRamps.map Edit.ofEvent)) t ∈ Set.Icc low high) ∧
      (real.edited 0 (steepRamps.map Edit.ofEvent)).valueAt 2.0 = 4.0 := by
  obtain ⟨bounds, arrives⟩ := valueAt_edited real 0 (steepRamps.map Edit.ofEvent)
  have left : real.surviving 0 (steepRamps.map Edit.ofEvent) = steepRamps :=
    @Timeline.surviving_scheduled ℝ real.scalar _ _
  have arrived := arrives [⟨2.0, .linear 3.0⟩, ⟨1, .jump 1⟩] ⟨2.0, .exponential 4.0⟩
    [⟨3.0, .approach 0 0.5⟩] 4.0 left (by norm_num) rfl
  exact ⟨bounds, (valueAt_real _ _).symm.trans arrived⟩

end Curves
end SynthPatch
