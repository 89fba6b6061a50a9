import SynthPatch.Patch.Basic
import SynthPatch.Conversion
import SynthPatch.Proofs.Language.Soundness
/-!
# Compiled patches

What the checker found out about the statements of a patch still holds of their parts once they are
sorted, and in every arithmetic the patch is carried over into.

Main results:

- Structure {lit}`Patch.Coherent`: the parts of a patch fit each other and the kinds at hand.
- Theorem {lit}`Patch.coherent_of_compile`: the parts of every compiled patch do.
- Theorem {lit}`Patch.Coherent.map`: they do in every arithmetic.
-/

namespace SynthPatch
namespace Patch

variable {α β : Type}

/-- The endpoint names an entry of the ports that its module has on the registry. -/
def Has (registry : Registry) (p : Patch α) (e : Endpoint) (entries : Ports → List String) : Prop :=
  ∃ kind ports, p.kindOf? e.module = some kind ∧ registry.ports? kind = some ports ∧
    e.port ∈ entries ports

/-- The parts of a patch fit each other and the kinds at hand. -/
structure Coherent (registry : Registry) (p : Patch α) : Prop where
  /-- No two modules share a name. -/
  moduleNames : (p.modules.map (·.id)).Nodup
  /-- No module has the name of the sink. -/
  notSink : ∀ decl ∈ p.modules, decl.id ≠ sinkId
  /-- Modules are of kinds at hand, and have a table exactly if they play one. -/
  modules : ∀ decl ∈ p.modules, Statement.ModuleFits registry decl
  /-- Cables come from outputs of the modules of the patch. -/
  sources : ∀ c ∈ p.cables, p.Has registry c.source (·.outputs)
  /-- Cables go to inputs of the modules of the patch. -/
  targets : ∀ c ∈ p.cables, p.Has registry c.target (·.inputs)
  /-- Tweaks set properties of the modules of the patch. -/
  properties : ∀ t ∈ p.tweaks, p.Has registry t.target (·.tweaks)
  /-- The tokens of a tweak make one expression. -/
  shapes : ∀ t ∈ p.tweaks, t.value.checkShape = .ok ()
  /-- Tweaks refer to parameters of the patch. -/
  parameters : ∀ t ∈ p.tweaks, ∀ name, .param name ∈ t.value → name ∈ p.controls
  /-- No property is tweaked twice. -/
  tweaksOnce : (p.tweaks.map (·.target)).Nodup

/-! ## From statements to parts -/

section OfStatements

variable (tables : Wavetables α) (limits : Limits α) {statements : List (Statement α)}

theorem kindOf?_ofStatements (id : String) :
    (ofStatements tables limits statements).kindOf? id = Statement.kindOf? statements id := by
  rw [kindOf?, Statement.kindOf?, modules_ofStatements]

theorem mem_modules_ofStatements {decl : ModuleDecl} :
    decl ∈ (ofStatements tables limits statements).modules ↔ .module decl ∈ statements := by
  rw [modules_ofStatements, Statement.mem_filterMap_module?]

theorem mem_tweaks_ofStatements {t : Tweak α} :
    t ∈ (ofStatements tables limits statements).tweaks ↔ .tweak t ∈ statements := by
  rw [tweaks_ofStatements, Statement.mem_filterMap_tweak?]

theorem mem_cables_ofStatements {c : Cable}
    (mem : c ∈ (ofStatements tables limits statements).cables) : .cable c ∈ statements := by
  have perm := cables_append_envelopes_perm tables limits statements
  exact Statement.mem_filterMap_cable?.1 (perm.mem_iff.1 (List.mem_append_right _ mem))

/-- Every statement keeps the controls that are there. -/
theorem mem_controls_foldl_add (p : Patch α) (name : String) :
    name ∈ (statements.foldl (add tables) p).controls ↔
      name ∈ p.controls ∨ ∃ q, .parameter q ∈ statements ∧ q.name = name := by
  induction statements generalizing p with
  | nil => simp
  | cons s rest ih =>
      rw [List.foldl_cons, ih]
      cases s with
      | parameter q => simp [add, or_assoc, or_left_comm]
      | cable c =>
          simp only [add]
          split <;> simp
      | _ => simp [add]

theorem mem_implicitControls (name : String) :
    name ∈ implicitControls limits ↔ name ∈ implicitParameters := by
  simp only [implicitControls, implicitParameters, Std.ExtTreeMap.mem_insert,
    Std.LawfulEqCmp.compare_eq_iff_eq, Std.ExtTreeMap.not_mem_empty, List.mem_cons,
    List.not_mem_nil, or_false]
  rw [or_comm, eq_comm, eq_comm (a := "level")]

/-- The controls of a patch are those of the parameters its statements can refer to. -/
theorem mem_controls_ofStatements (name : String) :
    name ∈ (ofStatements tables limits statements).controls ↔
      Statement.Offers statements name := by
  rw [ofStatements, mem_controls_foldl_add]
  constructor
  · rintro (implicit | ⟨q, mem, rfl⟩)
    · exact .implicit ((mem_implicitControls limits name).1 implicit)
    · exact .declared mem
  · intro offered
    cases offered with
    | implicit mem => exact .inl ((mem_implicitControls limits name).2 mem)
    | declared mem => exact .inr ⟨_, mem, rfl⟩

/-- What the statements provide the patch has. -/
theorem has_ofStatements {registry : Registry} (agree : Statement.WellFormed registry statements)
    {e : Endpoint} {entries : Ports → List String}
    (provided : ∃ kind ports, Statement.Provides statements e.module kind ∧
      registry.ports? kind = some ports ∧ e.port ∈ entries ports) :
    (ofStatements tables limits statements).Has registry e entries := by
  obtain ⟨kind, ports, known, here, entry⟩ := provided
  refine ⟨kind, ports, ?_, here, entry⟩
  rw [kindOf?_ofStatements, agree.kindOf?_of_provides known]

/-- The parts of statements that agree with each other fit each other. -/
theorem coherent_ofStatements {registry : Registry}
    (agree : Statement.WellFormed registry statements) :
    Coherent registry (ofStatements tables limits statements) where
  moduleNames := by
    rw [modules_ofStatements]
    exact agree.moduleNames
  notSink := by
    intro decl mem
    exact agree.notSink decl ((mem_modules_ofStatements tables limits).1 mem)
  modules := by
    intro decl mem
    exact agree.modules decl ((mem_modules_ofStatements tables limits).1 mem)
  sources := by
    intro c mem
    have fits := agree.cableFits (mem_cables_ofStatements tables limits mem)
    exact has_ofStatements tables limits agree fits.output
  targets := by
    intro c mem
    have fits := agree.cableFits (mem_cables_ofStatements tables limits mem)
    exact has_ofStatements tables limits agree fits.input
  properties := by
    intro t mem
    have fits := agree.tweakFits ((mem_tweaks_ofStatements tables limits).1 mem)
    exact has_ofStatements tables limits agree fits.property
  shapes := by
    intro t mem
    exact (agree.tweakFits ((mem_tweaks_ofStatements tables limits).1 mem)).shape
  parameters := by
    intro t mem name used
    have fits := agree.tweakFits ((mem_tweaks_ofStatements tables limits).1 mem)
    exact (mem_controls_ofStatements tables limits name).2 (fits.parameters name used)
  tweaksOnce := by
    rw [tweaks_ofStatements]
    exact agree.targets

end OfStatements

/-- The parts of every compiled patch fit each other. -/
theorem coherent_of_compile {rack : Rack Float} {source : String} {p : Patch Float}
    (h : compile rack source = .ok p) : Coherent rack.registry p := by
  obtain ⟨statements, parsed, rfl⟩ := Outcome.map_eq_ok_iff.1 h
  exact coherent_ofStatements _ _ (Checker.wellFormed_of_parse parsed)

/-! ## Defaults -/

/-- Values for all parameters replace all defaults. -/
theorem defaults_union_of_complete {p : Patch α} {values : Named α}
    (complete : ∀ name ∈ p.defaults, name ∈ values) : p.defaults ∪ values = values := by
  refine Std.ExtTreeMap.ext_getElem? fun {name} => ?_
  rw [Std.ExtTreeMap.getElem?_union]
  cases found : values[name]? with
  | some x => rfl
  | none =>
      have missing : name ∉ p.defaults := by
        intro mem
        have there := Std.ExtTreeMap.mem_iff_isSome_getElem?.1 (complete name mem)
        rw [found] at there
        cases there
      rw [Std.ExtTreeMap.getElem?_eq_none missing]
      rfl

/-! ## What can be played -/

section Valid

variable {registry : Registry} {p : Patch α} (h : Coherent registry p) (valid : p.isValid = true)
include h valid

/-- The sink is at hand, since a cable of the patch goes there. -/
theorem Coherent.sink_atHand : (registry.ports? .audio).isSome = true := by
  obtain ⟨-, fed, -⟩ := isValid_iff.1 valid
  obtain ⟨c, mem, toSink⟩ := List.any_eq_true.1 fed
  have toSink : c.target = sinkInput := by simpa using toSink
  obtain ⟨kind, ports, known, here, -⟩ := h.targets c mem
  have audio : kind = .audio := by simpa [toSink, sinkInput, kindOf?, eq_comm] using known
  rw [← audio, here]
  rfl

/-- Every module that plays a wavetable has it. -/
theorem Coherent.mem_tables {decl : ModuleDecl} (mem : decl ∈ p.modules)
    (custom : decl.kind = .custom) : decl.id ∈ p.tables := by
  obtain ⟨-, -, unknown⟩ := isValid_iff.1 valid
  obtain ⟨table, named⟩ := Option.isSome_iff_exists.1 ((h.modules decl mem).table.2 custom)
  have found := List.filterMap_eq_nil_iff.1 unknown decl mem
  rw [named] at found
  simpa using found

end Valid

/-! ## Another arithmetic -/

section Map

variable (f : α → β) {p : Patch α}

theorem mem_controls_map (name : String) : name ∈ (p.map f).controls ↔ name ∈ p.controls := by
  simp [map]

/-- The parts of a patch fit each other in every arithmetic. -/
theorem Coherent.map {registry : Registry} (h : Coherent registry p) :
    Coherent registry (p.map f) where
  moduleNames := h.moduleNames
  notSink := h.notSink
  modules := h.modules
  sources := h.sources
  targets := h.targets
  properties := by
    intro t mem
    obtain ⟨original, here, rfl⟩ := List.mem_map.1 mem
    exact h.properties original here
  shapes := by
    intro t mem
    obtain ⟨original, here, rfl⟩ := List.mem_map.1 mem
    exact Postfix.checkShape_map f (h.shapes original here)
  parameters := by
    intro t mem name used
    obtain ⟨original, here, rfl⟩ := List.mem_map.1 mem
    rw [mem_controls_map]
    exact h.parameters original here name ((Postfix.param_mem_map f).1 used)
  tweaksOnce := by
    simpa [Patch.map, Function.comp_def, Tweak.map] using h.tweaksOnce

end Map
end Patch
end SynthPatch
