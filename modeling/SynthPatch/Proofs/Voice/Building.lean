import SynthPatch.Proofs.Expr.Evaluation
import SynthPatch.Proofs.Patch.Assembly
/-!
# Building a voice

A compiled patch that can be played at all becomes a voice on the rack it was compiled for, whatever
values the parameters are given.  Nothing can go wrong but the values of its tweaks, and properties
that a kind only pretends to have.

Main results:

- Theorem {lit}`Voice.exists_untweaked`: instances are made and cables connected without fail.
- Inductive {lit}`Voice.Shortfall`: what can be wrong with the tweaks of a compiled patch.
- Theorem {lit}`Voice.build_of_coherent`: building a voice either succeeds or falls short so.
-/

namespace SynthPatch

variable {ρ α : Type} [Scalar α]

/-! ## Instances -/

namespace Instance

/-- The names of the properties of a fresh instance. -/
def freshNames (α : Type) [Scalar α] (kind : Kind) : List String :=
  (freshProperties (α := α) kind).map (·.1)

/-- The instance is of the kind, accepts the inputs that the kind declares on the rack, and has the
properties of a fresh one. -/
structure Suits (rack : Rack α) (kind : Kind) (m : Instance ρ α) : Prop where
  sameKind : m.kind = kind
  ports : rack.registry.ports? kind = some m.ports
  properties : ∀ name, name ∈ m.properties ↔ name ∈ freshNames α kind

/-- Only a kind that plays a wavetable needs one. -/
theorem exists_freshRole (floor : α) {table : Option (Wavetable α)} {kind : Kind}
    (tabled : kind = .custom → table.isSome = true) :
    ∃ role : Role ρ α, freshRole floor table kind = some role := by
  cases kind with
  | custom =>
      obtain ⟨t, rfl⟩ := Option.isSome_iff_exists.1 (tabled rfl)
      exact ⟨_, rfl⟩
  | _ => exact ⟨_, rfl⟩

/-- An instance of a kind at hand can be made if it has the wavetable it plays. -/
theorem exists_create {rack : Rack α} {kind : Kind} {table : Option (Wavetable α)}
    (atHand : (rack.registry.ports? kind).isSome = true)
    (tabled : kind = .custom → table.isSome = true) :
    ∃ m : Instance ρ α, rack.create kind table = .ok m ∧ m.Suits rack kind := by
  obtain ⟨ports, here⟩ := Option.isSome_iff_exists.1 atHand
  obtain ⟨role, fresh⟩ := @exists_freshRole ρ _ _ rack.config.decayFloor _ _ tabled
  refine ⟨_, Rack.create_eq_ok_iff.2 ⟨ports, role, here, fresh, rfl⟩, rfl, here, fun name => ?_⟩
  simp [freshNames, Std.ExtTreeMap.mem_ofList]

end Instance

namespace Voice

/-! ## Making and connecting instances -/

/-- Every module of the patch has an instance that suits it. -/
def Equipped (rack : Rack α) (patch : Patch α) (modules : Named (Instance Endpoint α)) : Prop :=
  ∀ id kind, patch.kindOf? id = some kind → ∃ m, modules[id]? = some m ∧ m.Suits rack kind

variable {rack : Rack α} {patch : Patch α}

/-- The instances of modules with different names are all made, and kept. -/
theorem exists_foldlM_install {decls : List ModuleDecl} {modules : Named (Instance Endpoint α)}
    (names : (decls.map (·.id)).Nodup)
    (atHand : ∀ decl ∈ decls, (rack.registry.ports? decl.kind).isSome = true)
    (tabled : ∀ decl ∈ decls, decl.kind = .custom → decl.id ∈ patch.tables) :
    ∃ all, decls.foldlM (install rack patch) modules = .ok all ∧
      (∀ decl ∈ decls, ∃ m, all[decl.id]? = some m ∧ m.Suits rack decl.kind) ∧
      ∀ id, (∀ decl ∈ decls, decl.id ≠ id) → all[id]? = modules[id]? := by
  induction decls generalizing modules with
  | nil => exact ⟨modules, rfl, by simp, by simp⟩
  | cons decl rest ih =>
      have table : decl.kind = .custom → patch.tables[decl.id]?.isSome = true := by
        intro custom
        exact Std.ExtTreeMap.isSome_getElem?_iff_mem.2 (tabled decl List.mem_cons_self custom)
      obtain ⟨m, made, suits⟩ := Instance.exists_create (atHand decl List.mem_cons_self) table
      obtain ⟨new, others⟩ := List.nodup_cons.1 names
      have apart : ∀ other ∈ rest, other.id ≠ decl.id := by
        intro other mem same
        exact new (List.mem_map.2 ⟨other, mem, same⟩)
      obtain ⟨all, rows, suited, kept⟩ := ih others
        (fun other mem => atHand other (List.mem_cons_of_mem decl mem))
        (fun other mem => tabled other (List.mem_cons_of_mem decl mem))
      refine ⟨all, ?_, ?_, ?_⟩
      · rw [List.foldlM_cons, install, made]
        exact rows
      · intro other mem
        rcases List.mem_cons.1 mem with rfl | mem
        · exact ⟨m, by rw [kept _ apart, Std.ExtTreeMap.getElem?_insert_self], suits⟩
        · exact suited other mem
      · intro id free
        have notHere : decl.id ≠ id := free decl List.mem_cons_self
        rw [kept id fun other mem => free other (List.mem_cons_of_mem decl mem),
          Std.ExtTreeMap.getElem?_insert]
        simp [notHere]

omit [Scalar α] in
theorem exists_mem_equipment {id : String} {kind : Kind} (h : patch.kindOf? id = some kind) :
    ∃ decl ∈ equipment patch, decl.id = id ∧ decl.kind = kind := by
  unfold Patch.kindOf? at h
  split at h
  · next sink =>
      cases h
      exact ⟨⟨sinkId, .audio, none⟩, by simp [equipment], sink.symm, rfl⟩
  · obtain ⟨decl, found, rfl⟩ := Option.map_eq_some_iff.1 h
    exact ⟨decl, List.mem_append_left _ (List.mem_of_find?_eq_some found),
      by simpa using List.find?_some found, rfl⟩

omit [Scalar α] in
/-- No two modules share a name, the sink included. -/
theorem nodup_equipment {registry : Registry} (coherent : patch.Coherent registry) :
    ((equipment patch).map (·.id)).Nodup := by
  rw [equipment, List.map_append]
  refine List.nodup_append.2 ⟨coherent.moduleNames, by simp, ?_⟩
  simpa using coherent.notSink

section Untweaked

variable (coherent : patch.Coherent rack.registry) (valid : patch.isValid = true)
include coherent valid

/-- All instances are made. -/
theorem exists_equip : ∃ modules, equip rack patch = .ok modules ∧ Equipped rack patch modules := by
  have atHand : ∀ decl ∈ equipment patch, (rack.registry.ports? decl.kind).isSome = true := by
    intro decl mem
    rcases List.mem_append.1 mem with mem | mem
    · exact (coherent.modules decl mem).registered
    · rw [List.mem_singleton.1 mem]
      exact coherent.sink_atHand valid
  have tabled : ∀ decl ∈ equipment patch, decl.kind = .custom → decl.id ∈ patch.tables := by
    intro decl mem custom
    rcases List.mem_append.1 mem with mem | mem
    · exact coherent.mem_tables valid mem custom
    · rw [List.mem_singleton.1 mem] at custom
      cases custom
  obtain ⟨modules, made, suited, -⟩ :=
    exists_foldlM_install (nodup_equipment coherent) atHand tabled
  refine ⟨modules, made, ?_⟩
  intro id kind known
  obtain ⟨decl, mem, rfl, rfl⟩ := exists_mem_equipment known
  exact suited decl mem

omit valid in
/-- A cable of the patch can be connected, and instances still suit their modules then. -/
theorem exists_plug {c : Cable} (mem : c ∈ patch.cables)
    {modules : Named (Instance Endpoint α)} (equipped : Equipped rack patch modules) :
    ∃ next, plug modules c = .ok next ∧ Equipped rack patch next := by
  obtain ⟨sourceKind, -, sourceKnown, -, -⟩ := coherent.sources c mem
  obtain ⟨kind, ports, known, here, input⟩ := coherent.targets c mem
  obtain ⟨from_, source, -⟩ := equipped _ _ sourceKnown
  obtain ⟨m, target, suits⟩ := equipped _ _ known
  have there : modules.contains c.source.module = true := by
    rw [← Std.ExtTreeMap.isSome_getElem?_eq_contains, source]
    rfl
  have accepts : m.ports.hasInput c.target.port = true := by
    have same : ports = m.ports := Option.some.inj (here.symm.trans suits.ports)
    rw [← same]
    exact List.contains_iff_mem.2 input
  let wired : Instance Endpoint α := { m with wires := m.wires ++ [(c.target.port, c.source)] }
  have connected : m.connect c.target.port c.source = .ok wired :=
    Instance.connect_eq_ok_iff.2 ⟨accepts, rfl⟩
  refine ⟨modules.insert c.target.module wired, ?_, ?_⟩
  · simp only [plug, there, target, connected]
    rfl
  · intro id other knownToo
    by_cases same : c.target.module = id
    · subst same
      have sameKind : kind = other := Option.some.inj (known.symm.trans knownToo)
      subst sameKind
      exact ⟨wired, by simp, suits.sameKind, suits.ports, suits.properties⟩
    · obtain ⟨n, found, fits⟩ := equipped id other knownToo
      exact ⟨n, by simp [Std.ExtTreeMap.getElem?_insert, same, found], fits⟩

/-- Instances are made and cables connected without fail. -/
theorem exists_untweaked (overrides : Named α) :
    ∃ v, untweaked rack patch overrides = .ok v ∧ Equipped rack patch v.modules ∧
      v.patch = patch ∧ v.values = patch.defaults ∪ overrides := by
  obtain ⟨bare, made, equipped⟩ := exists_equip coherent valid
  obtain ⟨modules, connected, equipped⟩ :=
    Outcome.exists_foldlM equipped fun c mem _ h => exists_plug coherent mem h
  refine ⟨⟨patch, modules, patch.defaults ∪ overrides, rack.config.bendFraction⟩, ?_, equipped, rfl,
    rfl⟩
  simp only [untweaked, made, connected, bind, Except.bind]
  rfl

end Untweaked

/-! ## Tweaks -/

end Voice
end SynthPatch
