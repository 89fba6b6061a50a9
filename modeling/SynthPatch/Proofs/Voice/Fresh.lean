import SynthPatch.Proofs.Outcome
import SynthPatch.Voice.Basic
/-!
# Fresh voices

Nothing is scheduled on a voice that has just been built, and its envelopes drive nothing yet.

Main results:

- Structure {lit}`Instance.Fresh`: an instance that nothing has happened to.
- Theorem {lit}`Voice.every_build`: what all instances of a voice that has been built have in
  common.
- Theorem {lit}`Voice.fresh_build`: all instances of a voice that has been built are fresh.
-/

namespace SynthPatch

variable {ρ α : Type}

/-! ## Instances -/

namespace Instance

/-- Nothing has happened to the instance. -/
structure Fresh (m : Instance ρ α) : Prop where
  /-- It drives nothing. -/
  driven : m.driven = []
  /-- Nothing is scheduled for its properties. -/
  unscheduled : ∀ (name : String) line, m.properties[name]? = some line → line.events = []
  /-- A four-stage envelope plays the part of one. -/
  stages : m.kind = .adsr → m.role = .stages []

/-- An own value can be set without scheduling anything. -/
theorem Fresh.setValue {m : Instance ρ α} (h : m.Fresh) (name : String) (x : α) :
    (m.modify name (·.setValue x)).Fresh := by
  refine ⟨h.driven, ?_, h.stages⟩
  intro other line found
  simp only [modify, Std.ExtTreeMap.getElem?_modify] at found
  split at found
  · obtain ⟨before, there, rfl⟩ := Option.map_eq_some_iff.1 found
    exact h.unscheduled name before there
  · exact h.unscheduled other line found

variable [Scalar α]

/-- No kind offers a property twice. -/
theorem distinct_freshProperties (kind : Kind) :
    ((freshProperties (α := α) kind).map fun p => (p.1, Timeline.constant p.2)).Pairwise
      fun a b => ¬ compare a.1 b.1 = .eq := by
  cases kind <;> simp [freshProperties]

/-- Nothing is scheduled for the properties that a kind offers. -/
theorem events_of_freshProperties {kind : Kind} {name : String} {line : Timeline α}
    (found : (Std.ExtTreeMap.ofList ((freshProperties kind).map fun p =>
      (p.1, Timeline.constant p.2)) : Named (Timeline α))[name]? = some line) :
    line.events = [] := by
  have offered : name ∈ (Std.ExtTreeMap.ofList ((freshProperties kind).map fun p =>
      (p.1, Timeline.constant p.2)) : Named (Timeline α)) :=
    (Std.ExtTreeMap.getElem?_eq_some_iff.1 found).1
  rw [Std.ExtTreeMap.mem_ofList, List.contains_iff_mem, List.mem_map] at offered
  obtain ⟨⟨_, other⟩, mem, rfl⟩ := offered
  have same := Std.ExtTreeMap.getElem?_ofList_of_mem Std.ReflCmp.compare_self
    (distinct_freshProperties kind) mem
  rw [found] at same
  cases same
  obtain ⟨p, -, made⟩ := List.mem_map.1 mem
  cases made
  rfl

/-- An instance that is made for a voice is fresh. -/
theorem fresh_create {rack : Rack α} {kind : Kind} {table : Option (Wavetable α)}
    {m : Instance ρ α} (h : rack.create kind table = .ok m) : m.Fresh := by
  obtain ⟨ports, role, -, plays, rfl⟩ := Rack.create_eq_ok_iff.1 h
  refine ⟨?_, fun name line => events_of_freshProperties, ?_⟩
  · cases kind with
    | custom =>
        obtain ⟨t, -, rfl⟩ := Option.map_eq_some_iff.1 plays
        rfl
    | _ =>
        cases plays
        rfl
  · rintro rfl
    cases plays
    rfl

end Instance

namespace Voice

/-! ## Voices -/

/-- All instances are fresh. -/
def AllFresh (modules : Named (Instance Endpoint α)) : Prop :=
  ∀ (id : String) (m : Instance Endpoint α), modules[id]? = some m → m.Fresh

/-- All instances of the voice are fresh. -/
def Fresh (v : Voice α) : Prop :=
  AllFresh v.modules

/-- Something holds of all instances. -/
def Every (P : Instance Endpoint α → Prop) (modules : Named (Instance Endpoint α)) : Prop :=
  ∀ (id : String) (m : Instance Endpoint α), modules[id]? = some m → P m

section Every

variable {P : Instance Endpoint α → Prop}

theorem Every.insert {modules : Named (Instance Endpoint α)} (h : Every P modules) {id : String}
    {m : Instance Endpoint α} (new : P m) : Every P (modules.insert id m) := by
  intro other n found
  rw [Std.ExtTreeMap.getElem?_insert] at found
  split at found
  · cases found
    exact new
  · exact h other n found

/-- What setting a value keeps assigning values keeps. -/
theorem Every.assign {v : Voice α} (h : Every P v.modules)
    (modify : ∀ m name x, P m → P (m.modify name (·.setValue x)))
    (settings : List (Endpoint × α)) : Every P (v.assign settings).modules := by
  induction settings generalizing v with
  | nil => exact h
  | cons s rest ih =>
      apply ih
      intro id m found
      simp only [Voice.modify, Std.ExtTreeMap.getElem?_modify] at found
      split at found
      · obtain ⟨before, there, rfl⟩ := Option.map_eq_some_iff.1 found
        exact modify before s.1.port s.2 (h _ before there)
      · exact h id m found

variable [Scalar α] {rack : Rack α} {patch : Patch α} {overrides : Named α}
  (create : ∀ {kind table} {m : Instance Endpoint α}, rack.create kind table = .ok m → P m)
  (connect : ∀ m wires, P m → P { m with wires })

include create connect

theorem every_untweaked {v : Voice α} (h : untweaked rack patch overrides = .ok v) :
    Every P v.modules := by
  obtain ⟨made, equipped, h⟩ := Outcome.bind_eq_ok_iff.1 h
  obtain ⟨modules, connected, h⟩ := Outcome.bind_eq_ok_iff.1 h
  cases h
  have bare : Every P made := by
    refine Outcome.of_foldlM (P := Every P) (by simp [Every]) ?_ equipped
    intro modules decl next all installed
    obtain ⟨m, created, done⟩ := Outcome.bind_eq_ok_iff.1 installed
    cases done
    exact all.insert (create (Outcome.mapError_eq_ok_iff.1 created))
  refine Outcome.of_foldlM (P := Every P) bare ?_ connected
  intro modules c next all plugged
  unfold plug at plugged
  split at plugged
  · cases plugged
  · split at plugged
    · cases plugged
    · next m found =>
        obtain ⟨wired, accepted, done⟩ := Outcome.bind_eq_ok_iff.1 plugged
        cases done
        obtain ⟨-, rfl⟩ := Instance.connect_eq_ok_iff.1 (Outcome.mapError_eq_ok_iff.1 accepted)
        exact all.insert (connect m _ (all _ m found))

/-- What holds of instances as they are made, and is kept when cables are connected and values are
set, holds of every instance of a voice that has been built. -/
theorem every_build (modify : ∀ m name x, P m → P (m.modify name (·.setValue x)))
    {draws : Nat → Draws α} {v : Voice α} (h : build rack patch overrides draws = .ok v) :
    Every P v.modules := by
  unfold build at h
  split at h
  · cases h
  · obtain ⟨base, ready, h⟩ := Outcome.bind_eq_ok_iff.1 h
    obtain ⟨settings, -, h⟩ := Outcome.bind_eq_ok_iff.1 h
    cases h
    exact (every_untweaked create connect ready).assign modify settings

end Every

/-- A voice that has been built is fresh. -/
theorem fresh_build [Scalar α] {rack : Rack α} {patch : Patch α} {overrides : Named α}
    {draws : Nat → Draws α} {v : Voice α} (h : build rack patch overrides draws = .ok v) :
    v.Fresh :=
  every_build Instance.fresh_create
    (fun _ _ before => ⟨before.driven, before.unscheduled, before.stages⟩)
    (fun _ name x before => before.setValue name x) h

end Voice
end SynthPatch
