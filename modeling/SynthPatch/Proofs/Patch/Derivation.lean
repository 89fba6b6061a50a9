import SynthPatch.Proofs.Patch.Shuffling
/-!
# What a patch derives from its text

A compiled patch says more than its statements do one by one: whether it can be played, which bounds
hold for which parameter, which wavetable a module plays and of which kind a name is.  All of that
is told by the statements of the text and the rack alone, in whatever order they stand.

Main results:

- Theorem {lit}`Patch.getElem?_controls`: the control of every name.
- Theorem {lit}`Patch.getElem?_tables`: the wavetable of every name.
- Theorem {lit}`Patch.isValid_ofStatements`: the patches that can be played.
- Theorem {lit}`Patch.derived_of_compile`: all of it, for every text that compiles.
-/

namespace SynthPatch
namespace Patch

open Statement

variable {α : Type} {tables : Wavetables α} {limits : Limits α} {registry : Registry}
  {statements : List (Statement α)}

/-! ## Controls -/

/-- A declared parameter has the control that its declaration says, another one the control that
every patch has, if there is one. -/
theorem getElem?_controls (agree : WellFormed registry statements) (name : String) :
    (ofStatements tables limits statements).controls[name]? =
      (((statements.filterMap parameter?).find? (·.name = name)).map controlOf).or
        (implicitControls limits)[name]? := by
  rw [controls_ofStatements]
  exact Keyed.getElem?_foldl_insert agree.parameterNames controlOf _ name

theorem getElem?_controls_declared (agree : WellFormed registry statements) {q : Parameter α}
    (mem : .parameter q ∈ statements) :
    (ofStatements tables limits statements).controls[q.name]? = some (controlOf q) := by
  have found : (statements.filterMap parameter?).find? (·.name = q.name) = some q :=
    (Keyed.find?_eq_some_iff agree.parameterNames).2 ⟨mem_filterMap_parameter?.2 mem, rfl⟩
  rw [getElem?_controls agree, found]
  rfl

theorem getElem?_controls_undeclared (agree : WellFormed registry statements) {name : String}
    (undeclared : ∀ q, .parameter q ∈ statements → q.name ≠ name) :
    (ofStatements tables limits statements).controls[name]? =
      (implicitControls limits)[name]? := by
  have none : (statements.filterMap parameter?).find? (·.name = name) = none := by
    refine List.find?_eq_none.2 fun q mem => ?_
    simpa using undeclared q (mem_filterMap_parameter?.1 mem)
  rw [getElem?_controls agree, none]
  rfl

theorem getElem?_implicitControls_pitch (limits : Limits α) :
    (implicitControls limits)["pitch"]? =
      some ⟨limits.pitchMin, limits.pitchMax, limits.pitchDefault, true⟩ := by
  rw [implicitControls, Std.ExtTreeMap.getElem?_insert, if_neg (by decide),
    Std.ExtTreeMap.getElem?_insert_self]

theorem getElem?_implicitControls_level (limits : Limits α) :
    (implicitControls limits)["level"]? =
      some ⟨limits.levelMin, limits.levelMax, limits.levelDefault, true⟩ := by
  rw [implicitControls, Std.ExtTreeMap.getElem?_insert_self]

/-! ## Wavetables -/

theorem table?_eq_some_iff {s : Statement α} {id : String} {table : Wavetable α} :
    s.table? tables = some (id, table) ↔
      ∃ decl name, s = .module decl ∧ decl.id = id ∧ decl.table = some name ∧
        tables[name]? = some table := by
  simp only [Statement.table?, wavetableOf?, Option.bind_eq_some_iff, Option.map_eq_some_iff,
    module?_eq_some_iff, Prod.mk.injEq]
  constructor
  · rintro ⟨decl, rfl, played, ⟨name, named, known⟩, rfl, rfl⟩
    exact ⟨decl, name, rfl, rfl, named, known⟩
  · rintro ⟨decl, name, rfl, rfl, named, known⟩
    exact ⟨decl, rfl, table, ⟨name, named, known⟩, rfl, rfl⟩

/-- The modules that have a wavetable are those that name one which is known. -/
theorem getElem?_tables (agree : WellFormed registry statements) {id : String}
    {table : Wavetable α} :
    (ofStatements tables limits statements).tables[id]? = some table ↔
      ∃ decl name, .module decl ∈ statements ∧ decl.id = id ∧ decl.table = some name ∧
        tables[name]? = some table := by
  have once := nodup_tables tables agree.moduleNames
  have missing : (∅ : Wavetables α)[id]? = none := Std.ExtTreeMap.getElem?_empty
  rw [tables_ofStatements, Keyed.getElem?_foldl_insert once, missing, Option.or_none,
    Option.map_eq_some_iff]
  constructor
  · rintro ⟨⟨id', table'⟩, found, rfl⟩
    obtain ⟨mem, rfl⟩ := (Keyed.find?_eq_some_iff once).1 found
    obtain ⟨s, here, told⟩ := List.mem_filterMap.1 mem
    obtain ⟨decl, name, rfl, same, named, known⟩ := table?_eq_some_iff.1 told
    exact ⟨decl, name, here, same, named, known⟩
  · rintro ⟨decl, name, here, same, named, known⟩
    have told : Statement.table? tables (.module decl) = some (id, table) :=
      table?_eq_some_iff.2 ⟨decl, name, rfl, same, named, known⟩
    exact ⟨(id, table),
      (Keyed.find?_eq_some_iff once).2 ⟨List.mem_filterMap.2 ⟨_, here, told⟩, rfl⟩, rfl⟩

/-! ## What can be played -/

/-- A cable carries a signal exactly if no module that it may come from is an envelope. -/
theorem mem_cables_iff (agree : WellFormed registry statements) {c : Cable} :
    c ∈ (ofStatements tables limits statements).cables ↔
      .cable c ∈ statements ∧ drives statements c = false := by
  rw [(split_by_envelopes agree).1, List.mem_filter, mem_filterMap_cable?, Bool.not_eq_true']

/-- A signal reaches the sink exactly if a cable goes there from a module that is no envelope. -/
theorem feedsSink_iff (agree : WellFormed registry statements) :
    (ofStatements tables limits statements).feedsSink = true ↔
      ∃ c decl, .cable c ∈ statements ∧ c.target = sinkInput ∧ .module decl ∈ statements ∧
        decl.id = c.source.module ∧ decl.kind.isEnvelope = false := by
  simp only [feedsSink, List.any_eq_true, mem_cables_iff agree, decide_eq_true_eq]
  constructor
  · rintro ⟨c, ⟨mem, silent⟩, toSink⟩
    have fits := agree.cableFits mem
    -- The cable goes to the sink, so it does not come from there.
    have notSink : c.source.module ≠ sinkId := by
      intro same
      exact fits.apart (same.trans (congrArg Endpoint.module toSink).symm)
    obtain ⟨decl, declared, same⟩ := fits.source_cases.resolve_left notSink
    rw [agree.drives_eq declared same] at silent
    exact ⟨c, decl, mem, toSink, declared, same, silent⟩
  · rintro ⟨c, decl, mem, toSink, declared, same, signal⟩
    exact ⟨c, ⟨mem, (agree.drives_eq declared same).trans signal⟩, toSink⟩

/-- No wavetable is missing exactly if every one that is named is known. -/
theorem unknownTables_eq_nil_iff (agree : WellFormed registry statements) :
    (ofStatements tables limits statements).unknownTables = [] ↔
      ∀ decl name, .module decl ∈ statements → decl.table = some name → name ∈ tables := by
  rw [unknownTables, List.filterMap_eq_nil_iff]
  constructor
  · intro known decl name mem named
    have found := known decl ((mem_modules_ofStatements tables limits).2 mem)
    rw [named] at found
    have contained : decl.id ∈ (ofStatements tables limits statements).tables := by
      simpa using found
    obtain ⟨table, played⟩ :=
      Option.isSome_iff_exists.1 (Std.ExtTreeMap.mem_iff_isSome_getElem?.1 contained)
    obtain ⟨other, name', here, same, named', known⟩ := (getElem?_tables agree).1 played
    obtain rfl := agree.eq_of_id_eq here mem same
    cases named.symm.trans named'
    exact Std.ExtTreeMap.mem_iff_isSome_getElem?.2 (by rw [known]; rfl)
  · intro known decl mem
    have mem := (mem_modules_ofStatements tables limits).1 mem
    cases named : decl.table with
    | none => rfl
    | some name =>
        obtain ⟨table, played⟩ := Option.isSome_iff_exists.1
          (Std.ExtTreeMap.mem_iff_isSome_getElem?.1 (known decl name mem named))
        have found : (ofStatements tables limits statements).tables[decl.id]? = some table :=
          (getElem?_tables agree).2 ⟨decl, name, mem, rfl, named, played⟩
        have contained : decl.id ∈ (ofStatements tables limits statements).tables :=
          Std.ExtTreeMap.mem_iff_isSome_getElem?.2 (by rw [found]; rfl)
        simp [contained]

/-- A patch can be played exactly if a signal reaches the sink and every wavetable that is named is
known. -/
theorem isValid_ofStatements (agree : WellFormed registry statements) :
    (ofStatements tables limits statements).isValid = true ↔
      (∃ c decl, .cable c ∈ statements ∧ c.target = sinkInput ∧ .module decl ∈ statements ∧
        decl.id = c.source.module ∧ decl.kind.isEnvelope = false) ∧
      ∀ decl name, .module decl ∈ statements → decl.table = some name → name ∈ tables := by
  rw [isValid_iff, feedsSink_iff agree, unknownTables_eq_nil_iff agree]
  constructor
  · rintro ⟨-, fed, known⟩
    exact ⟨fed, known⟩
  · rintro ⟨fed, known⟩
    obtain ⟨c, decl, -, -, declared, -⟩ := id fed
    exact ⟨List.ne_nil_of_mem ((mem_modules_ofStatements tables limits).2 declared), fed, known⟩

/-! ## All of it -/

/-- What statements and a rack make of a patch. -/
structure Derived (rack : Rack Float) (statements : List (Statement Float)) (p : Patch Float) :
    Prop where
  /-- It can be played exactly if a cable goes to the sink from a module that is no envelope, and
  every wavetable that a module names is on the rack. -/
  valid : p.isValid = true ↔
    (∃ c decl, .cable c ∈ statements ∧ c.target = sinkInput ∧ .module decl ∈ statements ∧
      decl.id = c.source.module ∧ decl.kind.isEnvelope = false) ∧
    ∀ decl name, .module decl ∈ statements → decl.table = some name → name ∈ rack.wavetables
  /-- Then it has a module and a cable that carries a signal. -/
  filled : p.isValid = true → p.modules ≠ [] ∧ p.cables ≠ []
  /-- Bounds, default and mutability are known of the parameters every patch has and of the
  declared ones. -/
  names : ∀ name, name ∈ p.controls ↔
    name ∈ implicitParameters ∨ ∃ q, .parameter q ∈ statements ∧ q.name = name
  /-- A declared parameter has what its declaration says. -/
  declared : ∀ q, .parameter q ∈ statements →
    p.controls[q.name]? = some ⟨q.min, q.max, q.default, q.mutable⟩
  /-- The pitch has the limits of the rack where it is not declared. -/
  pitch : (∀ q, .parameter q ∈ statements → q.name ≠ "pitch") →
    p.controls["pitch"]? = some ⟨rack.config.limits.pitchMin, rack.config.limits.pitchMax,
      rack.config.limits.pitchDefault, true⟩
  /-- The level has the limits of the rack where it is not declared. -/
  level : (∀ q, .parameter q ∈ statements → q.name ≠ "level") →
    p.controls["level"]? = some ⟨rack.config.limits.levelMin, rack.config.limits.levelMax,
      rack.config.limits.levelDefault, true⟩
  /-- Modules that play a wavetable have it if it is on the rack, and no others have one. -/
  tables : ∀ id table, p.tables[id]? = some table ↔
    ∃ decl name, .module decl ∈ statements ∧ decl.id = id ∧ decl.kind = .custom ∧
      decl.table = some name ∧ rack.wavetables[name]? = some table
  /-- A declared module is of the kind it is declared with. -/
  kinds : ∀ decl, .module decl ∈ statements → p.kindOf? decl.id = some decl.kind
  sink : p.kindOf? sinkId = some .audio

/-- A text that compiles has statements, and these and the rack tell all that the patch derives. -/
theorem derived_of_compile {rack : Rack Float} {source : String} {p : Patch Float}
    (h : compile rack source = .ok p) :
    ∃ statements, Checker.parse rack.registry source = .ok statements ∧
      Derived rack statements p := by
  obtain ⟨statements, parsed, rfl⟩ := Outcome.map_eq_ok_iff.1 h
  have agree := Checker.wellFormed_of_parse parsed
  refine ⟨statements, parsed, ?_⟩
  refine
    { valid := isValid_ofStatements agree
      filled := ?_
      names := ?_
      declared := fun q mem => getElem?_controls_declared agree mem
      pitch := fun undeclared =>
        (getElem?_controls_undeclared agree undeclared).trans (getElem?_implicitControls_pitch _)
      level := fun undeclared =>
        (getElem?_controls_undeclared agree undeclared).trans (getElem?_implicitControls_level _)
      tables := ?_
      kinds := ?_
      sink := rfl }
  · intro valid
    obtain ⟨modules, fed, -⟩ := isValid_iff.1 valid
    obtain ⟨c, mem, -⟩ := List.any_eq_true.1 fed
    exact ⟨modules, List.ne_nil_of_mem mem⟩
  · intro name
    rw [mem_controls_ofStatements]
    constructor
    · intro offered
      cases offered with
      | implicit mem => exact .inl mem
      | declared mem => exact .inr ⟨_, mem, rfl⟩
    · rintro (mem | ⟨q, mem, rfl⟩)
      · exact .implicit mem
      · exact .declared mem
  · intro id table
    rw [getElem?_tables agree]
    constructor
    · rintro ⟨decl, name, mem, same, named, known⟩
      have custom : decl.kind = .custom := (agree.modules decl mem).table.1 (by simp [named])
      exact ⟨decl, name, mem, same, custom, named, known⟩
    · rintro ⟨decl, name, mem, same, -, named, known⟩
      exact ⟨decl, name, mem, same, named, known⟩
  · intro decl mem
    rw [kindOf?_ofStatements]
    exact agree.kindOf?_of_provides (.declared mem)

/-- A rack with one wavetable. -/
def organRack : Rack Float :=
  { Rack.standard with wavetables := (∅ : Wavetables Float).insert "organ" ⟨[0, 1], [0, 0]⟩ }

/-- A patch that plays the wavetable and declares its level. -/
def organSource : String :=
  "@synth organ\n@end\n@param level\nmin: 0\nmax: 2\ndefault: 1\n@end\n" ++
    "CUSTOM-OSC:osc TABLE organ\nosc.out -> audio.in"

/-- The organ can be played, with the level that it declares and the wavetable of the rack. -/
theorem derived_of_compile_organ :
    ∃ p statements, compile organRack organSource = .ok p ∧ p.isValid = true ∧
      Checker.parse organRack.registry organSource = .ok statements ∧
      Derived organRack statements p := by
  have playable : (compile organRack organSource).toOption.map isValid = some true := by
    decide +kernel
  obtain ⟨p, compiled, valid⟩ := Option.map_eq_some_iff.1 playable
  have compiled := Outcome.toOption_eq_some_iff.1 compiled
  obtain ⟨statements, parsed, derived⟩ := derived_of_compile compiled
  exact ⟨p, statements, compiled, valid, parsed, derived⟩

end Patch
end SynthPatch
