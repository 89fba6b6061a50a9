import SynthPatch.Proofs.Module.Exact
import SynthPatch.Proofs.Voice.Changing
import SynthPatch.Proofs.Voice.Twins
/-!
# Bending a voice

A voice that is started with a bend lets the pitches of its oscillators glide.  Each of them begins
where it is when the voice is started and moves by the same interval as all others, so that the
intervals between them are kept at every point of time.  Nothing else is changed.

Main results:

- Theorem {lit}`Voice.valueAt_glide`: a pitch that glides is what it was, times the interval of the
  glide.
- Theorem {lit}`Voice.start_bent`: a voice that is started with a bend against the same voice that
  is started without it.
-/

namespace SynthPatch

/-! ## The interval of a glide -/

/-- The interval by which a glide over a time has moved a pitch after a while; it moves it by a
ratio in the end. -/
noncomputable def Bend.interval (time ratio elapsed : ℝ) : ℝ :=
  if elapsed < time then ratio ^ (elapsed / time) else ratio

namespace Bend

variable {time ratio elapsed : ℝ} (lasts : 0 < time)
include lasts

theorem interval_zero : interval time ratio 0 = 1 := by
  rw [interval, if_pos lasts, zero_div, Real.rpow_zero]

theorem interval_of_le (way : elapsed ≤ time) :
    interval time ratio elapsed = ratio ^ (elapsed / time) := by
  rcases way.eq_or_lt with rfl | way
  · rw [interval, if_neg (lt_irrefl _), div_self lasts.ne', Real.rpow_one]
  · rw [interval, if_pos way]

omit lasts in
theorem interval_of_ge (past : time ≤ elapsed) : interval time ratio elapsed = ratio :=
  if_neg past.not_gt

end Bend

namespace Voice

/-- A pitch that glides is what it was when the glide began, times the interval of the glide. -/
theorem valueAt_glide (line : Timeline ℝ) {when time source goal t : ℝ} (lasts : 0 < time)
    (positive : 0 < source) (high : 0 < goal) (begun : when ≤ t) :
    (glide when time source goal line).valueAt t =
      line.valueAt when * Bend.interval time (goal / source) (t - when) := by
  have ratio : 0 < goal / source := div_pos high positive
  rw [glide, line.valueAt_schedule_holdAt when _ (by linarith) begun]
  rcases lt_or_ge t (when + time) with ahead | past
  · rw [Bend.interval_of_le lasts (by linarith)]
    by_cases silent : line.valueAt when = 0
    · -- There is no curve from zero, and zero is held.
      rw [Anchor.follow_cons_of_lt ahead]
      simp [Anchor.towards, Anchor.exponential, Anchor.held, silent, lasts.not_ge]
    · have square : line.valueAt when * (line.valueAt when * goal / source) =
          line.valueAt when * line.valueAt when * (goal / source) := by ring
      have alike : 0 < line.valueAt when * (line.valueAt when * goal / source) := by
        rw [square]
        exact mul_pos (mul_self_pos.2 silent) ratio
      have quotient : line.valueAt when * goal / source / line.valueAt when = goal / source := by
        field_simp
      rw [Anchor.follow_exponential begun ahead alike, quotient]
  · rw [Bend.interval_of_ge (by linarith), Anchor.follow_cons_of_not_lt past.not_gt,
      ← mul_div_assoc]
    rfl

/-! ## Bent voices -/

section Bend

variable {α : Type}

/-- The pitch that a voice has of itself. -/
def pitch [Scalar α] (v : Voice α) : α :=
  v.values["pitch"]?.getD 0

/-- The property is the pitch of an oscillator. -/
def IsPitch (v : Voice α) (target : Endpoint) : Prop :=
  target.port = "pitch" ∧ ∃ m, v.modules[target.module]? = some m ∧ m.kind.isOscillator = true

variable [Scalar α] {v : Voice α} {when : α} {duration : Option α} {b : Bend α}

/-- A bend of which it is not known how long it takes is left out. -/
theorem bend_of_timeless (timeless : v.bendTime? duration b = none) :
    v.bend when duration b = v := by
  rw [bend, timeless]

/-- A bend of a voice whose pitch is not above zero is left out. -/
theorem bend_of_low (low : v.pitch ≤ 0) : v.bend when duration b = v := by
  unfold bend
  split
  · rfl
  · exact if_pos low

/-- A bend changes the pitch of each oscillator and nothing else. -/
theorem bend_of_time {time : α} (timed : v.bendTime? duration b = some time)
    (positive : ¬ v.pitch ≤ 0) :
    v.bend when duration b = { v with modules := v.modules.map fun _ m =>
      if m.kind.isOscillator then m.modify "pitch" (glide when time v.pitch b.goal) else m } := by
  rw [bend, timed]
  exact if_neg positive

/-- The pitch of an oscillator glides. -/
theorem property?_bend_of_isPitch {time : α} (timed : v.bendTime? duration b = some time)
    (positive : ¬ v.pitch ≤ 0) {target : Endpoint} (isPitch : v.IsPitch target) :
    (v.bend when duration b).property? target =
      (v.property? target).map (glide when time v.pitch b.goal) := by
  obtain ⟨port, m, found, isOscillator⟩ := isPitch
  rw [bend_of_time timed positive]
  simp [property?, Std.ExtTreeMap.getElem?_map, found, isOscillator, port, Instance.modify]

/-- Any other property is left as it is. -/
theorem property?_bend_of_not_isPitch (target : Endpoint) (other : ¬ v.IsPitch target) :
    (v.bend when duration b).property? target = v.property? target := by
  obtain same | ⟨time, pitch, bent⟩ := v.bend_cases when duration b
  · rw [same]
  rw [bent, property?, property?, Std.ExtTreeMap.getElem?_map]
  cases found : v.modules[target.module]? with
  | none => rfl
  | some m =>
      cases isOscillator : m.kind.isOscillator with
      | false => simp [isOscillator]
      | true =>
          have apart : "pitch" ≠ target.port := fun port =>
            other ⟨port.symm, m, found, isOscillator⟩
          simp [isOscillator, Instance.modify, Std.ExtTreeMap.getElem?_modify, apart]

/-- A bend leaves everything of an instance but its properties. -/
theorem bare_bend (id : String) :
    (v.bend when duration b).modules[id]?.map Instance.bare = v.modules[id]?.map Instance.bare := by
  obtain same | ⟨time, pitch, bent⟩ := v.bend_cases when duration b
  · rw [same]
  rw [bent, Std.ExtTreeMap.getElem?_map, Option.map_map]
  congr 1
  funext m
  simp only [Function.comp_apply]
  split <;> rfl

/-! ## Starting with a bend -/

/-- A bend takes the time that it is given, or else a part of the note's duration. -/
theorem bendTime?_eq_some_iff {time : α} : v.bendTime? duration b = some time ↔
    b.time = some time ∨ b.time = none ∧ ∃ d, duration = some d ∧ time = d * v.bendFraction := by
  rw [bendTime?]
  cases b.time with
  | some given => simp
  | none => cases duration <;> simp [eq_comm]

/-- Starting a voice leaves the part of a note that a bend takes. -/
theorem bendFraction_start_none :
    (v.start when duration none).bendFraction = v.bendFraction := by
  have struck (cables : List Cable) (u : Voice α) :
      (cables.foldl (strike when duration) u).bendFraction = u.bendFraction := by
    induction cables generalizing u with
    | nil => rfl
    | cons c rest ih => exact (ih _).trans (bendFraction_strike u c)
  exact struck v.patch.envelopes v

theorem pitch_start_none : (v.start when duration none).pitch = v.pitch := by
  rw [pitch, (alike_start v when duration none).values, pitch]

end Bend

/-- A voice that was started with a bend, against the voice that was started without it.  The bend
takes a time and moves every pitch by a ratio in the end. -/
structure Bent (plain bent : Voice ℝ) (when time ratio : ℝ) (interval : ℝ → ℝ) : Prop where
  /-- The interval by which pitches have moved is none at the beginning. -/
  begins : interval when = 1
  /-- It grows exponentially while the bend lasts. -/
  grows : ∀ t, when ≤ t → t ≤ when + time → interval t = ratio ^ ((t - when) / time)
  /-- From then on it is the whole ratio. -/
  arrives : ∀ t, when + time ≤ t → interval t = ratio
  /-- The pitch of each oscillator is what it was at the beginning, times the interval. -/
  pitches : ∀ target line, plain.IsPitch target → plain.property? target = some line →
    ∃ glided, bent.property? target = some glided ∧
      ∀ t, when ≤ t → glided.valueAt t = line.valueAt when * interval t
  /-- All other properties are the same. -/
  others : ∀ target, ¬ plain.IsPitch target → bent.property? target = plain.property? target
  /-- All own values are the same. -/
  own : ∀ target, bent.own? target = plain.own? target
  /-- Everything else of the modules is the same, the times they were started among it. -/
  bare : ∀ id : String, bent.modules[id]?.map Instance.bare = plain.modules[id]?.map Instance.bare
  patch : bent.patch = plain.patch
  values : bent.values = plain.values

/-- A bend keeps every interval between the pitches of the oscillators at every point of time, and
changes nothing else.  It is left out if it is not known how long it takes, or if the pitch of the
voice is not above zero. -/
theorem start_bent (v : Voice ℝ) (when : ℝ) (duration : Option ℝ) (b : Bend ℝ) :
    (∀ time, (b.time = some time ∨
        b.time = none ∧ ∃ d, duration = some d ∧ time = d * v.bendFraction) →
      0 < time → 0 < v.pitch → 0 < b.goal →
        Bent (v.start when duration none) (v.start when duration (some b)) when time
          (b.goal / v.pitch) fun t => Bend.interval time (b.goal / v.pitch) (t - when)) ∧
      ((b.time = none ∧ duration = none) ∨ v.pitch ≤ 0 →
        v.start when duration (some b) = v.start when duration none) := by
  have split : v.start when duration (some b) =
      (v.start when duration none).bend when duration b := rfl
  have pitch : (v.start when duration none).pitch = v.pitch := pitch_start_none
  rw [split]
  constructor
  · intro time given lasts positive high
    have timed : (v.start when duration none).bendTime? duration b = some time := by
      rw [bendTime?_eq_some_iff, bendFraction_start_none]
      exact given
    have bends : ¬ (v.start when duration none).pitch ≤ 0 := by
      rw [pitch]
      exact positive.not_ge
    have alike := alike_bend (v.start when duration none) when duration b
    constructor
    case begins => rw [sub_self, Bend.interval_zero lasts]
    case grows => exact fun t _ way => Bend.interval_of_le lasts (by linarith)
    case arrives => exact fun t past => Bend.interval_of_ge (by linarith)
    case pitches =>
      intro target line isPitch found
      refine ⟨glide when time v.pitch b.goal line, ?_,
        fun t begun => valueAt_glide line lasts positive high begun⟩
      rw [property?_bend_of_isPitch timed bends isPitch, found, pitch]
      rfl
    case others => exact property?_bend_of_not_isPitch
    case own => exact alike.own
    case bare => exact bare_bend
    case patch => exact alike.patch
    case values => exact alike.values
  · rintro (⟨timeless, held⟩ | low)
    · exact bend_of_timeless (by rw [bendTime?, timeless, held]; rfl)
    · exact bend_of_low (pitch ▸ low)

/-- An oscillator with a pitch of its own. -/
noncomputable def oscillator (kind : Kind) (pitch : ℝ) : Instance Endpoint ℝ where
  kind
  ports := kind.standardPorts
  properties := .ofList [("pitch", Timeline.constant pitch), ("detune", Timeline.constant 0)]
  role := .oscillator .sine

/-- A voice with two oscillators an octave apart, and one that is too slow to be heard. -/
noncomputable def octave (pitch : ℝ) : Voice ℝ where
  patch := Patch.bare ⟨8.18, 12543.85, pitch, 0, 1, 0.8⟩
  modules := .ofList [("low", oscillator .sine pitch), ("high", oscillator .saw (pitch + pitch)),
    ("slow", oscillator .lfo 1)]
  values := (∅ : Named ℝ).insert "pitch" pitch
  bendFraction := 0.75

/-- The octave glides up by an octave in two seconds: both oscillators move alike, and the slow one
stays. -/
theorem start_bent_octave :
    ∃ low high,
      ((octave 220).start 0 none (some ⟨440, some 2⟩)).property? ⟨"low", "pitch"⟩ = some low ∧
      ((octave 220).start 0 none (some ⟨440, some 2⟩)).property? ⟨"high", "pitch"⟩ = some high ∧
      (∀ t, 0 ≤ t → low.valueAt t = 220 * Bend.interval 2 2 (t - 0) ∧
        high.valueAt t = 440 * Bend.interval 2 2 (t - 0)) ∧
      ((octave 220).start 0 none (some ⟨440, some 2⟩)).property? ⟨"slow", "pitch"⟩ =
        some (.constant 1) := by
  have pitch : (octave 220).pitch = 220 := rfl
  have lowPitch : ((octave 220).start 0 none none).property? ⟨"low", "pitch"⟩ =
      some (.constant 220) :=
    rfl
  have highPitch : ((octave 220).start 0 none none).property? ⟨"high", "pitch"⟩ =
      some (.constant (220 + 220)) :=
    rfl
  have bent := (start_bent (octave 220) 0 none ⟨440, some 2⟩).1 2 (.inl rfl) (by norm_num)
    (by rw [pitch]; norm_num) (by norm_num)
  have ratio : (440 : ℝ) / (octave 220).pitch = 2 := by rw [pitch]; norm_num
  rw [ratio] at bent
  obtain ⟨low, foundLow, lowGlides⟩ := bent.pitches _ _ ⟨rfl, _, rfl, rfl⟩ lowPitch
  obtain ⟨high, foundHigh, highGlides⟩ := bent.pitches _ _ ⟨rfl, _, rfl, rfl⟩ highPitch
  have above : (Timeline.constant (220 + 220 : ℝ)).valueAt 0 = 440 := by
    change (220 + 220 : ℝ) = 440
    norm_num
  rw [above] at highGlides
  refine ⟨low, high, foundLow, foundHigh,
    fun t begun => ⟨lowGlides t begun, highGlides t begun⟩, ?_⟩
  refine (bent.others _ ?_).trans rfl
  rintro ⟨-, m, found, isOscillator⟩
  cases found
  cases isOscillator

end Voice
end SynthPatch
