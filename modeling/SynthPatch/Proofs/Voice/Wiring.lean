import SynthPatch.Proofs.Patch.Sorting
import SynthPatch.Proofs.Voice.Building
import SynthPatch.Proofs.Voice.Lasting
import SynthPatch.Proofs.Voice.Rebuilding
/-!
# From cables to wires

The cables of a text are sorted once, by the modules that are declared before them.  Since cables
come behind the modules they join, and modules have names of their own, that sorts them by the kinds
that the whole text declares.  Building a voice makes one instance for each module and gives it the
cables that go to it, in the order of the text.

Main results:

- Function {lit}`Statement.wiresOf`: what the text connects to the inputs of a module.
- Theorem {lit}`Patch.split_of_wellFormed`: the cables of a text sorted by the kinds it declares.
- Theorem {lit}`Voice.wiring_build`: the kind and the wires of every instance of a voice.
- Theorem {lit}`Voice.wired_of_build`: no cable is lost, doubled or led astray between text and
  voice.
-/

namespace SynthPatch

/-! ## What the text says -/

/-- What cables connect to the inputs of a module, in their order. -/
def Cable.into (cables : List Cable) (id : String) : List (String × Endpoint) :=
  (cables.filter (·.target.module = id)).map fun c => (c.target.port, c.source)

namespace Statement

variable {α : Type} {statements : List (Statement α)}

/-- The cable carries a signal: its source is declared, and is no envelope. -/
def carries (statements : List (Statement α)) (c : Cable) : Bool :=
  (statements.filterMap module?).any fun decl =>
    decl.id = c.source.module && !decl.kind.isEnvelope

/-- What the cables that carry a signal connect to the inputs of a module, in their order. -/
def wiresOf (statements : List (Statement α)) (id : String) : List (String × Endpoint) :=
  Cable.into ((statements.filterMap cable?).filter (carries statements)) id

/-- A cable that carries no signal is not connected where it goes. -/
theorem not_mem_wiresOf {c : Cable} (silent : carries statements c = false) :
    (c.target.port, c.source) ∉ wiresOf statements c.target.module := by
  intro wired
  obtain ⟨other, mem, sameWire⟩ := List.mem_map.1 wired
  obtain ⟨mem, sameModule⟩ := List.mem_filter.1 mem
  have same : other = c := by
    obtain ⟨source, module, port⟩ := other
    obtain ⟨source', module', port'⟩ := c
    cases sameWire
    cases of_decide_eq_true sameModule
    rfl
  have carried := (List.mem_filter.1 mem).2
  rw [same, silent] at carried
  cases carried

/-- A module of another kind than the sink is known by its declaration. -/
theorem Provides.exists_decl {id : String} {kind : Kind} (known : Provides statements id kind)
    (other : kind ≠ .audio) :
    ∃ decl, .module decl ∈ statements ∧ decl.id = id ∧ decl.kind = kind := by
  cases known with
  | sink => exact absurd rfl other
  | declared mem => exact ⟨_, mem, rfl, rfl⟩

/-- A cable carries a signal if the module it comes from is no envelope. -/
theorem WellFormed.carries_eq {registry : Registry} (agree : WellFormed registry statements)
    {c : Cable} {decl : ModuleDecl} (mem : .module decl ∈ statements)
    (same : decl.id = c.source.module) : carries statements c = !decl.kind.isEnvelope := by
  rw [Bool.eq_iff_iff, carries, List.any_eq_true]
  constructor
  · rintro ⟨d, here, told⟩
    obtain ⟨sameToo, signal⟩ := Bool.and_eq_true_iff.1 told
    have sameToo : d.id = decl.id := by simpa [same] using sameToo
    rwa [agree.eq_of_id_eq (mem_filterMap_module?.1 here) mem sameToo] at signal
  · intro signal
    exact ⟨decl, mem_filterMap_module?.2 mem, by simp [same, signal]⟩

end Statement

namespace Patch

open Statement

variable {α : Type} {tables : Wavetables α} {limits : Limits α} {statements : List (Statement α)}

/-- A cable carries a signal exactly if no envelope drives it: the sink has no outputs, so that the
module it comes from is declared. -/
theorem carries_eq_not_drives (agree : WellFormed .standard statements) {c : Cable}
    (mem : .cable c ∈ statements) : carries statements c = !drives statements c := by
  obtain ⟨-, ⟨kind, ports, known, here, output⟩, -⟩ := agree.cableFits mem
  have other : kind ≠ .audio := by
    rintro rfl
    cases here
    cases output
  obtain ⟨decl, declared, same, -⟩ := known.exists_decl other
  rw [agree.carries_eq declared same, agree.drives_eq declared same]

/-- The cables of a text are sorted by the kinds that the whole text declares. -/
theorem split_of_wellFormed (agree : WellFormed .standard statements) :
    (ofStatements tables limits statements).cables =
        (statements.filterMap cable?).filter (carries statements) ∧
      (ofStatements tables limits statements).envelopes =
        (statements.filterMap cable?).filter (!carries statements ·) := by
  have told : ∀ c ∈ statements.filterMap cable?,
      carries statements c = !drives statements c :=
    fun c mem => carries_eq_not_drives agree (mem_filterMap_cable?.1 mem)
  refine ⟨(split_by_envelopes agree).1.trans (List.filter_congr fun c mem => ?_),
    (split_by_envelopes agree).2.trans (List.filter_congr fun c mem => ?_)⟩
  · rw [told c mem]
  · rw [told c mem, Bool.not_not]

end Patch

/-! ## What becomes of it -/

namespace Instance

variable {ρ α : Type} [Scalar α]

/-- The kind of an instance and what is connected to its inputs. -/
def wiring (m : Instance ρ α) : Kind × List (String × Endpoint) :=
  (m.kind, m.wires)

/-- Nothing that is played changes what an instance is connected to. -/
theorem lasting_wiring : Lasting (wiring (ρ := ρ) (α := α)) where
  modify _ _ _ := rfl
  drive m _ _ _ := by
    unfold Instance.drive
    split <;> rfl
  release m _ := by
    unfold Instance.release
    split <;> rfl
  start m _ := by
    unfold Instance.start
    split <;> rfl
  stop _ _ := rfl

/-- Nothing is connected to an instance that has just been made. -/
theorem wiring_create {rack : Rack α} {kind : Kind} {table : Option (Wavetable α)}
    {m : Instance ρ α} (h : rack.create kind table = .ok m) : m.wiring = (kind, []) := by
  obtain ⟨ports, role, -, -, rfl⟩ := Rack.create_eq_ok_iff.1 h
  rfl

end Instance

namespace Voice

variable {α : Type} [Scalar α] {rack : Rack α} {patch : Patch α}

/-- Making instances of modules with different names gives each its own, and keeps the others. -/
theorem foldlM_install_cases {decls : List ModuleDecl} {modules all : Named (Instance Endpoint α)}
    (names : (decls.map (·.id)).Nodup) (made : decls.foldlM (install rack patch) modules = .ok all)
    (id : String) :
    (∃ decl m, decls.find? (·.id = id) = some decl ∧
      rack.create decl.kind patch.tables[decl.id]? = .ok m ∧ all[id]? = some m) ∨
    (decls.find? (·.id = id) = none ∧ all[id]? = modules[id]?) := by
  induction decls generalizing modules with
  | nil =>
      cases made
      exact .inr ⟨rfl, rfl⟩
  | cons decl rest ih =>
      obtain ⟨new, others⟩ := List.nodup_cons.1 names
      rw [List.foldlM_cons] at made
      obtain ⟨next, installed, made⟩ := Outcome.bind_eq_ok_iff.1 made
      obtain ⟨m, created, done⟩ := Outcome.bind_eq_ok_iff.1 installed
      cases done
      have later := ih others made
      by_cases this : decl.id = id
      · have none : rest.find? (·.id = id) = none := by
          rw [List.find?_eq_none]
          intro other mem same
          refine new (List.mem_map.2 ⟨other, mem, ?_⟩)
          simpa [this] using same
        obtain ⟨_, _, found, -⟩ | ⟨-, kept⟩ := later
        · rw [none] at found
          cases found
        · refine .inl ⟨decl, m, by simp [this], Outcome.mapError_eq_ok_iff.1 created, ?_⟩
          rw [kept, ← this, Std.ExtTreeMap.getElem?_insert_self]
      · simpa [this, Std.ExtTreeMap.getElem?_insert] using later

/-- Every module of a patch gets an instance of its kind, and nothing else does. -/
theorem wiring_equip (coherent : patch.Coherent rack.registry)
    {modules : Named (Instance Endpoint α)} (made : equip rack patch = .ok modules) (id : String) :
    modules[id]?.map Instance.wiring = (patch.kindOf? id).map fun kind => (kind, []) := by
  have known : patch.kindOf? id = ((equipment patch).find? (·.id = id)).map (·.kind) := by
    rw [equipment, List.find?_append, Patch.kindOf?]
    by_cases sink : id = sinkId
    · subst sink
      have none : patch.modules.find? (·.id = sinkId) = none := by
        rw [List.find?_eq_none]
        intro decl mem same
        exact coherent.notSink decl mem (by simpa using same)
      simp [none]
    · simp [sink, Ne.symm sink]
  rw [known]
  obtain ⟨decl, m, found, created, there⟩ | ⟨none, missing⟩ :=
    foldlM_install_cases (nodup_equipment coherent) made id
  · rw [there, found, Option.map_some, Option.map_some, Option.map_some,
      Instance.wiring_create created]
  · rw [missing, none]
    rfl

omit [Scalar α] in
/-- A cable is added to the wires of the module it goes to. -/
theorem getElem?_plug {c : Cable} {modules next : Named (Instance Endpoint α)}
    (plugged : plug modules c = .ok next) (id : String) :
    next[id]? = modules[id]?.map fun m => { m with wires := m.wires ++ Cable.into [c] id } := by
  unfold plug at plugged
  split at plugged
  · cases plugged
  · split at plugged
    · cases plugged
    · next m found =>
        obtain ⟨wired, accepted, done⟩ := Outcome.bind_eq_ok_iff.1 plugged
        cases done
        obtain ⟨-, rfl⟩ := Instance.connect_eq_ok_iff.1 (Outcome.mapError_eq_ok_iff.1 accepted)
        by_cases this : c.target.module = id
        · subst this
          simp [found, Cable.into]
        · simp [Std.ExtTreeMap.getElem?_insert, this, Cable.into]

omit [Scalar α] in
/-- Cables are added to the wires of the modules they go to, in their order. -/
theorem getElem?_foldlM_plug {cables : List Cable} {modules all : Named (Instance Endpoint α)}
    (plugged : cables.foldlM plug modules = .ok all) (id : String) :
    all[id]? = modules[id]?.map fun m => { m with wires := m.wires ++ Cable.into cables id } := by
  induction cables generalizing modules with
  | nil =>
      cases plugged
      simp [Cable.into]
  | cons c rest ih =>
      rw [List.foldlM_cons] at plugged
      obtain ⟨next, one, others⟩ := Outcome.bind_eq_ok_iff.1 plugged
      have parts : Cable.into (c :: rest) id = Cable.into [c] id ++ Cable.into rest id := by
        rw [Cable.into, Cable.into, Cable.into, ← List.map_append, ← List.filter_append]
        rfl
      rw [ih others, getElem?_plug one, Option.map_map, parts]
      simp only [Function.comp_def, List.append_assoc]

omit [Scalar α] in
theorem wiring_foldlM_plug {cables : List Cable} {modules all : Named (Instance Endpoint α)}
    (plugged : cables.foldlM plug modules = .ok all) (id : String) :
    all[id]?.map Instance.wiring =
      (modules[id]?.map Instance.wiring).map fun w => (w.1, w.2 ++ Cable.into cables id) := by
  rw [getElem?_foldlM_plug plugged, Option.map_map, Option.map_map]
  rfl

/-- Every module of a patch has an instance of its kind, to which those cables of the patch are
connected that go there. -/
theorem wiring_build (coherent : patch.Coherent rack.registry) {overrides : Named α}
    {draws : Nat → Draws α} {v : Voice α} (built : build rack patch overrides draws = .ok v)
    (id : String) :
    v.modules[id]?.map Instance.wiring =
      (patch.kindOf? id).map fun kind => (kind, Cable.into patch.cables id) := by
  obtain ⟨valid, base, ready⟩ := exists_untweaked_of_build built
  rw [build_of_untweaked valid ready] at built
  obtain ⟨settings, -, rfl⟩ := Outcome.map_eq_ok_iff.1 built
  obtain ⟨bare, equipped, ready⟩ := Outcome.bind_eq_ok_iff.1 ready
  obtain ⟨modules, plugged, ready⟩ := Outcome.bind_eq_ok_iff.1 ready
  cases ready
  refine (lasting_foldl _ id
    (fun u s => lasting_modify Instance.lasting_wiring u id s.1 (·.setValue s.2)) settings).trans ?_
  rw [wiring_foldlM_plug plugged, wiring_equip coherent equipped, Option.map_map]
  rfl

/-! ## From text to voice -/

/-- The instances of a voice are what a text declares, and are connected as it says. -/
structure Wired (statements : List (Statement Float)) (v : Voice α) : Prop where
  /-- There is an instance of every module that is declared, and of the sink. -/
  instances : ∀ id kind,
    (∃ m, v.modules[id]? = some m ∧ m.kind = kind) ↔ Statement.Provides statements id kind
  /-- The cables that carry a signal are connected where they go, in their order. -/
  wires : ∀ id m, v.modules[id]? = some m → m.wires = Statement.wiresOf statements id
  /-- The others are kept apart, in their order. -/
  envelopes : v.patch.envelopes =
    (statements.filterMap Statement.cable?).filter (!Statement.carries statements ·)
  /-- None of those is connected where it goes. -/
  apart : ∀ c ∈ v.patch.envelopes, ∀ m, v.modules[c.target.module]? = some m →
    (c.target.port, c.source) ∉ m.wires

/-- No cable is lost, doubled or led astray between a text and a voice. -/
theorem wired_of_build {rack : Rack Float} (standard : rack.registry = .standard)
    {source : String} {patch : Patch Float} (compiled : Patch.compile rack source = .ok patch)
    (lift : Float → α) {overrides : Named α} {draws : Nat → Draws α} {v : Voice α}
    (built : build (rack.map lift) (patch.map lift) overrides draws = .ok v) :
    ∃ statements, Checker.parse rack.registry source = .ok statements ∧
      patch.envelopes =
        (statements.filterMap Statement.cable?).filter (!Statement.carries statements ·) ∧
      Wired statements v := by
  obtain ⟨statements, parsed, rfl⟩ := Outcome.map_eq_ok_iff.1 compiled
  have coherent := (Patch.coherent_of_compile compiled).map lift
  have agree := Checker.wellFormed_of_parse parsed
  have agreeStandard := standard ▸ agree
  obtain ⟨cables, envelopes⟩ := @Patch.split_of_wellFormed Float rack.wavetables
    rack.config.limits statements agreeStandard
  have wiring := wiring_build coherent built
  have same := patch_build built
  have told (id : String) : v.modules[id]?.map Instance.wiring =
      (Statement.kindOf? statements id).map
        fun kind => (kind, Statement.wiresOf statements id) := by
    rw [wiring, ← Patch.kindOf?_ofStatements rack.wavetables rack.config.limits, Statement.wiresOf,
      ← cables]
    rfl
  have wires : ∀ id m, v.modules[id]? = some m → m.wires = Statement.wiresOf statements id := by
    intro id m found
    have here := told id
    rw [found, Option.map_some, eq_comm, Option.map_eq_some_iff] at here
    obtain ⟨kind, -, same⟩ := here
    exact (congrArg Prod.snd same).symm
  refine ⟨statements, parsed, envelopes, ?_, wires, ?_, ?_⟩
  · intro id kind
    have known : Statement.kindOf? statements id = some kind ↔
        Statement.Provides statements id kind :=
      ⟨Statement.provides_of_kindOf?, agree.kindOf?_of_provides⟩
    have kinds : v.modules[id]?.map (·.kind) = Statement.kindOf? statements id := by
      have firsts := congrArg (Option.map Prod.fst) (told id)
      simpa only [Option.map_map, Function.comp_def, Instance.wiring, Option.map_id'] using firsts
    rw [← known, ← kinds, Option.map_eq_some_iff]
  · rw [same]
    exact envelopes
  · intro c mem m found
    rw [same] at mem
    have silent := (List.mem_filter.1 (envelopes ▸ mem : c ∈ List.filter _ _)).2
    rw [wires _ _ found]
    exact Statement.not_mem_wiresOf (by simpa using silent)

/-- A patch with an echo that is fed back, and an envelope. -/
def echoSource : String :=
  "@synth echo\n@end\nSAW-OSC:osc\nVCA:amp\nADSR:env\nosc.out -> amp.in\nenv.out -> amp.level\n" ++
    "DELAY:lag\namp.out -> lag.in\nlag.out -> amp.in\namp.out -> audio.in\n"

/-- The echo and the tone go to the same input; the envelope is connected nowhere. -/
theorem wired_of_build_echo :
    ∃ patch v statements, Patch.compile .standard echoSource = .ok patch ∧
      build (Rack.standard.map id) (patch.map id) ∅ (fun _ _ => 0) = .ok v ∧
      Checker.parse .standard echoSource = .ok statements ∧ Wired statements v ∧
      v.modules["amp"]?.map (·.wires) = some [("in", ⟨"osc", "out"⟩), ("in", ⟨"lag", "out"⟩)] ∧
      patch.envelopes = [⟨⟨"env", "out"⟩, ⟨"amp", "level"⟩⟩] := by
  have connected : ((Patch.compile .standard echoSource).toOption.any fun patch =>
      (build (Rack.standard.map id) (patch.map id) ∅ (fun _ _ => 0)).toOption.any fun v =>
        v.modules["amp"]?.map (·.wires) == some [("in", ⟨"osc", "out"⟩), ("in", ⟨"lag", "out"⟩)] &&
        patch.envelopes == [⟨⟨"env", "out"⟩, ⟨"amp", "level"⟩⟩]) = true := by
    decide +kernel
  obtain ⟨patch, compiled, connected⟩ := (Option.any_eq_true _ _).1 connected
  obtain ⟨v, built, connected⟩ := (Option.any_eq_true _ _).1 connected
  obtain ⟨wires, envelopes⟩ := Bool.and_eq_true_iff.1 connected
  have compiled := Outcome.toOption_eq_some_iff.1 compiled
  have built := Outcome.toOption_eq_some_iff.1 built
  obtain ⟨statements, parsed, -, wired⟩ := wired_of_build rfl compiled id built
  exact ⟨patch, v, statements, compiled, built, parsed, wired, beq_iff_eq.1 wires,
    beq_iff_eq.1 envelopes⟩

end Voice
end SynthPatch
