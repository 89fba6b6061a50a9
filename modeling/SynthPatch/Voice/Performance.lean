import SynthPatch.Voice.Basic
/-!
# Playing a voice

A voice is started, tweaked while it sounds, and released.  At the start the envelopes are applied
to what they are patched into, and the pitches of all oscillators may begin to bend.  A release
tells when the last envelope has died away, and everything stops then.

Main results:

- Theorem {lit}`Voice.tweak_of_not_mutable`: a parameter that is not mutable cannot be tweaked.
- Theorem {lit}`Voice.stopped_stop`: stopping a voice stops each of its modules.
- Theorem {lit}`Voice.stopped_release`: every module of a released voice stops at the teardown.
-/

namespace SynthPatch

/-- A glide of the pitch. -/
structure Bend (α : Type) where
  /-- The pitch to arrive at. -/
  goal : α
  /-- How long the glide takes. -/
  time : Option α
deriving DecidableEq, Repr

namespace Voice

variable {α : Type}

/-! ## Stopping -/

/-- Stop every module. -/
def stop (v : Voice α) (when : α) : Voice α :=
  { v with modules := v.modules.map fun _ m => m.stop when }

/-- Stopping a voice stops each of its modules. -/
theorem stopped_stop (v : Voice α) (when : α) (id : String) :
    (v.stop when).modules[id]? = v.modules[id]?.map (·.stop when) := by
  simp [stop]

variable [Scalar α]

/-! ## Starting -/

/-- Apply the envelope that a cable comes from to the property it goes to; nothing happens where
there is no such envelope or property. -/
def strike (when : α) (duration : Option α) (v : Voice α) (c : Cable) : Voice α :=
  match v.modules[c.source.module]?, v.property? c.target with
  | some m, some _ =>
    let (envelope, change) := m.drive c.target when duration
    { v with modules := v.modules.insert c.source.module envelope }.modify c.target change
  | _, _ => v

/-- How long a bend takes: as long as it says, or a part of the note's duration. -/
def bendTime? (v : Voice α) (duration : Option α) (bend : Bend α) : Option α :=
  bend.time.or (duration.map (· * v.bendFraction))

/-- Let a pitch glide by the interval between two others. -/
def glide (when time source goal : α) (line : Timeline α) : Timeline α :=
  (line.holdAt when).schedule (when + time)
    (.exponential (line.valueAt when * goal / source))

@[simp]
theorem value_glide (when time source goal : α) (line : Timeline α) :
    (glide when time source goal line).value = line.value := by
  simp only [glide, Timeline.value_schedule, Timeline.value_holdAt]

/-- Let the pitches of all oscillators glide by the interval from the voice's own pitch.  Nothing
happens if it is not known how long, or if the pitch of the voice is not above zero. -/
def bend (v : Voice α) (when : α) (duration : Option α) (b : Bend α) : Voice α :=
  match v.bendTime? duration b with
  | none => v
  | some time =>
    let pitch := v.values["pitch"]?.getD 0
    if pitch ≤ 0 then v
    else { v with modules := v.modules.map fun _ m =>
      if m.kind.isOscillator then m.modify "pitch" (glide when time pitch b.goal) else m }

/-- A bend is left out, or it lets the pitch of each oscillator glide. -/
theorem bend_cases (v : Voice α) (when : α) (duration : Option α) (b : Bend α) :
    v.bend when duration b = v ∨
      ∃ time pitch, v.bend when duration b =
        { v with modules := v.modules.map fun _ m =>
          if m.kind.isOscillator then m.modify "pitch" (glide when time pitch b.goal) else m } := by
  unfold bend
  split
  · exact .inl rfl
  · next time _ =>
      dsimp only
      split
      · exact .inl rfl
      · exact .inr ⟨time, _, rfl⟩

/-- Start a voice; without a duration it is held until it is released. -/
def start (v : Voice α) (when : α) (duration : Option α) (b : Option (Bend α)) : Voice α :=
  let driven := v.patch.envelopes.foldl (strike when duration) v
  let started := { driven with modules := driven.modules.map fun _ m => m.start when }
  match b with
  | none => started
  | some b => started.bend when duration b

/-! ## Tweaking -/

/-- Change a mutable parameter, and with it every property whose tweak refers to it.  If one of
these tweaks fails nothing changes; a parameter that is not mutable stays as it is. -/
def tweak (v : Voice α) (name : String) (value : α) (draws : Nat → Draws α) :
    Except (VoiceError α) (Voice α) := do
  if v.patch.isMutable name then
    let values := v.values.insert name value
    let settings ← v.settings values draws (·.value.references name)
    return { v with values }.assign settings
  else return v

/-- A parameter that is not mutable cannot be tweaked. -/
theorem tweak_of_not_mutable {v : Voice α} {name : String}
    (h : v.patch.isMutable name = false) (value : α) (draws : Nat → Draws α) :
    v.tweak name value draws = .ok v := by
  simp [tweak, h, pure, Except.pure]

/-! ## Releasing -/

/-- Release one module: an envelope lets go of every property it drives. -/
def letGo (when : α) (v : Voice α) (id : String) : Voice α :=
  match v.modules[id]? with
  | none => v
  | some m =>
    let (released, change) := m.release when
    m.driven.foldl (fun v target => v.modify target change)
      { v with modules := v.modules.insert id released }

/-- The longer of a time and the one for which an instance goes on after its release. -/
def longer (longest : α) (m : Instance Endpoint α) : α :=
  match m.releaseTime? with
  | some time => Scalar.larger longest time
  | none => longest

/-- How long the slowest envelope goes on after its release. -/
def tail (v : Voice α) : α :=
  v.modules.values.foldl longer 0

/-- Release a voice: the voice after that, and when it is torn down. -/
def release (v : Voice α) (when : α) : Voice α × α :=
  let released := v.modules.keys.foldl (letGo when) v
  let teardown := when + released.tail
  (released.stop teardown, teardown)

/-- Every module of a released voice stops at the teardown. -/
theorem stopped_release {v : Voice α} {when : α} {id : String} {m : Instance Endpoint α}
    (h : (v.release when).1.modules[id]? = some m) : m.stopped = some (v.release when).2 := by
  rw [release, stopped_stop] at h
  obtain ⟨n, _, rfl⟩ := Option.map_eq_some_iff.1 h
  rfl

end Voice
end SynthPatch
