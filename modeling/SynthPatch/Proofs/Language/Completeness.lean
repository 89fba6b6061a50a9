import SynthPatch.Proofs.Language.Soundness
import SynthPatch.Proofs.Language.Writing
/-!
# What the checker lets through

The checker refuses nothing that may follow the statements before it.  So statements that agree as a
whole, and one of which is a header, are read back from the text they are written as.

Main results:

- Theorem {lit}`Statement.WellFormed.admits`: in statements that agree, each may follow those before
  it.
- Theorem {lit}`Checker.check_eq_ok`: the checker lets through what may follow.
- Theorem {lit}`Checker.parse_source`: statements that agree are read back from their text.
-/

namespace SynthPatch
namespace Statement

variable {α : Type} {registry : Registry}

/-! ## Statements that agree -/

theorem kindOf?_eq_none_iff {statements : List (Statement α)} {id : String} :
    kindOf? statements id = none ↔ ∀ kind, ¬ Provides statements id kind := by
  constructor
  · exact not_provides_of_kindOf?
  · intro unknown
    cases found : kindOf? statements id with
    | none => rfl
    | some kind => exact absurd (provides_of_kindOf? found) (unknown kind)

/-- A name among some others that are all different is not that of any before it. -/
theorem ne_of_nodup_map {β γ : Type} {part : Statement α → Option β} {name : β → γ}
    {before after : List (Statement α)} {s : Statement α} {b : β} (is : part s = some b)
    (unique : (((before ++ s :: after).filterMap part).map name).Nodup) :
    ∀ other ∈ before.filterMap part, name other ≠ name b := by
  intro other mem same
  rw [List.filterMap_append, List.filterMap_cons_some is, List.map_append, List.map_cons] at unique
  exact (List.nodup_append.1 unique).2.2 _ (List.mem_map_of_mem mem) _ (by simp) same

namespace WellFormed

variable {before after : List (Statement α)} {s : Statement α}

/-- In statements that agree, each may follow those before it. -/
theorem admits (h : WellFormed registry (before ++ s :: after)) : Admits registry before s := by
  have sub : before ⊆ before ++ s :: after := List.subset_append_left _ _
  have here : s ∈ before ++ s :: after := by simp
  cases s with
  | header header =>
      refine .header fun other mem => ?_
      have one := h.header
      rw [List.filterMap_append, List.length_append] at one
      have some := List.length_pos_of_mem (mem_filterMap_header?.2 mem)
      simp only [List.filterMap_cons, header?, List.length_cons] at one
      omega
  | parameter p =>
      refine .parameter ?_ ?_
      · intro kind known
        generalize named : p.name = name at known
        cases known with
        | sink => exact h.parameterNotSink p here named
        | @declared decl mem =>
            exact h.noParameter decl (sub mem) (named ▸ .declared here)
      · intro other mem
        exact ne_of_nodup_map (parameter?_eq_some_iff.2 rfl) h.parameterNames other
          (mem_filterMap_parameter?.2 mem)
  | module decl =>
      refine .module (h.modules decl here) ?_ ?_
      · intro kind known
        generalize named : decl.id = id at known
        cases known with
        | sink => exact h.notSink decl here named
        | @declared other mem =>
            exact ne_of_nodup_map (module?_eq_some_iff.2 rfl) h.moduleNames other
              (mem_filterMap_module?.2 mem) named.symm
      · intro offered
        exact h.noParameter decl here (offered.mono sub)
  | cable c =>
      refine .cable (h.cables before c after rfl) ?_
      intro mem
      have unique := h.cablesOnce
      rw [← List.map_id (List.filterMap _ _)] at unique
      exact ne_of_nodup_map (cable?_eq_some_iff.2 rfl) unique c (mem_filterMap_cable?.2 mem) rfl
  | tweak t =>
      refine .tweak (h.tweaks before t after rfl) ?_
      intro other mem
      exact ne_of_nodup_map (tweak?_eq_some_iff.2 rfl) h.targets other
        (mem_filterMap_tweak?.2 mem)
  | comment text => exact .comment

end WellFormed
end Statement

namespace Checker

open Statement

variable {registry : Registry} {before : List (Statement Float)} {place : List Char}

/-! ## What may follow is let through -/

theorem foldlM_setHeaderField {h : Header} {fields : List (Located Attribute)}
    (same : fields.map (·.item) = h.lines.map Line.field) :
    fields.foldlM setHeaderField { shortname := h.shortname } = .ok h := by
  simp only [Header.lines, Line.field, List.map_cons, List.map_nil, List.map_eq_cons_iff,
    List.map_eq_nil_iff] at same
  obtain ⟨longname, _, rfl, h1, version, _, rfl, h2, author, _, rfl, h3, doc, _, rfl, h4, type, _,
    rfl, h5, rfl⟩ := same
  simp [setHeaderField, h1, h2, h3, h4, h5, bind, Except.bind]
  rfl

/-- The draft of a parameter is known whole when its lines are through. -/
theorem foldlM_setParameterField {p : Parameter Float} {fields : List (Located Attribute)}
    (writable : (Statement.parameter p).Writable)
    (same : fields.map (·.item) = p.lines.map Line.field) :
    fields.foldlM setParameterField {} = .ok {
      type := p.type, mutable := p.mutable, step := p.step, min := some p.min,
      max := some p.max, default := some p.default, doc := p.doc } := by
  obtain ⟨-, width, low, high, initial, -⟩ := writable
  simp only [Parameter.lines, Line.field, List.map_cons, List.map_nil, List.map_eq_cons_iff,
    List.map_eq_nil_iff] at same
  obtain ⟨type, _, rfl, h1, mutable, _, rfl, h2, step, _, rfl, h3, min, _, rfl, h4, max, _, rfl,
    h5, default, _, rfl, h6, doc, _, rfl, h7, rfl⟩ := same
  have typed (d : Draft) : setParameterField d type = .ok { d with type := p.type } := by
    rw [setParameterField, h1]
    cases p.type <;> rfl
  have switched (d : Draft) :
      setParameterField d mutable = .ok { d with mutable := p.mutable } := by
    rw [setParameterField, h2]
    cases p.mutable <;> rfl
  have stepped (d : Draft) : setParameterField d step = .ok { d with step := p.step } := by
    simp [setParameterField, numberField, h3, width.reads, Except.map]
  have bounded (d : Draft) : setParameterField d min = .ok { d with min := some p.min } := by
    simp [setParameterField, numberField, h4, low.reads, Except.map]
  have bounded' (d : Draft) : setParameterField d max = .ok { d with max := some p.max } := by
    simp [setParameterField, numberField, h5, high.reads, Except.map]
  have started (d : Draft) :
      setParameterField d default = .ok { d with default := some p.default } := by
    simp [setParameterField, numberField, h6, initial.reads, Except.map]
  have described (d : Draft) : setParameterField d doc = .ok { d with doc := p.doc } := by
    rw [setParameterField, h7]
    rfl
  simp only [List.foldlM_cons, typed, switched, stepped, bounded, bounded', started, described]
  rfl

theorem checkHeader_eq_ok {h : Header} {fields : List (Located Attribute)}
    (first : ∀ other, .header other ∉ before)
    (same : fields.map (·.item) = h.lines.map Line.field) :
    checkHeader before place h.shortname fields = .ok h := by
  have none : hasHeader before = false := by
    rw [Bool.eq_false_iff]
    intro some
    obtain ⟨other, mem⟩ := hasHeader_iff.1 some
    exact first other mem
  exact Outcome.bind_eq_ok_iff.2 ⟨(), require_eq_ok_iff.2 (by simp [none]),
    foldlM_setHeaderField same⟩

theorem checkParameter_eq_ok {p : Parameter Float} {fields : List (Located Attribute)}
    (writable : (Statement.parameter p).Writable)
    (noModule : ∀ kind, ¬ Provides before p.name kind)
    (fresh : ∀ other, .parameter other ∈ before → other.name ≠ p.name)
    (same : fields.map (·.item) = p.lines.map Line.field) :
    checkParameter before place p.name fields = .ok p := by
  have unknown := kindOf?_eq_none_iff.2 noModule
  have undeclared : declaresParameter before p.name = false := by
    rw [Bool.eq_false_iff]
    intro declared
    obtain ⟨other, mem, named⟩ := declaresParameter_iff.1 declared
    exact fresh other mem named
  refine Outcome.bind_eq_ok_iff.2 ⟨(), require_eq_ok_iff.2 (by simp [unknown]), ?_⟩
  refine Outcome.bind_eq_ok_iff.2 ⟨(), require_eq_ok_iff.2 (by simp [undeclared]), ?_⟩
  exact Outcome.bind_eq_ok_iff.2 ⟨_, foldlM_setParameterField writable same, rfl⟩

theorem checkModule_eq_ok {decl : ModuleDecl} (fits : ModuleFits registry decl)
    (fresh : ∀ kind, ¬ Provides before decl.id kind) (noParameter : ¬ Offers before decl.id) :
    checkModule registry before place decl.kind.tag decl.id decl.table = .ok decl := by
  have known : declaredKind? registry decl.kind.tag = some decl.kind := by
    simp [declaredKind?, Kind.ofTag?_tag, fits.declarable, fits.registered]
  have unknown := kindOf?_eq_none_iff.2 fresh
  have unoffered : knowsParameter before decl.id = false := by
    rw [Bool.eq_false_iff]
    exact fun offered => noParameter (knowsParameter_iff.1 offered)
  have plays : decl.kind.takesWavetable = decl.table.isSome := by
    rw [Bool.eq_iff_iff, fits.table]
    cases decl.kind <;> decide
  have needed : (!decl.kind.takesWavetable || decl.table.isSome) = true := by
    rw [plays]
    cases decl.table <;> rfl
  have allowed : (decl.kind.takesWavetable || decl.table.isNone) = true := by
    rw [plays]
    cases decl.table <;> rfl
  unfold checkModule
  rw [known]
  refine Outcome.bind_eq_ok_iff.2 ⟨(), require_eq_ok_iff.2 (by simp [unknown]), ?_⟩
  refine Outcome.bind_eq_ok_iff.2 ⟨(), require_eq_ok_iff.2 (by simp [unoffered]), ?_⟩
  refine Outcome.bind_eq_ok_iff.2 ⟨(), require_eq_ok_iff.2 needed, ?_⟩
  exact Outcome.bind_eq_ok_iff.2 ⟨(), require_eq_ok_iff.2 allowed, rfl⟩

section Agreeing

variable (agree : WellFormed registry before)
include agree

theorem portsOf_eq_ok_of_provides {id : String} {kind : Kind} {ports : Ports}
    (known : Provides before id kind) (here : registry.ports? kind = some ports) :
    portsOf registry before place id = .ok ports := by
  simp [portsOf, agree.kindOf?_of_provides known, here]

theorem checkCable_eq_ok {c : Cable} (fits : CableFits registry before c)
    (fresh : .cable c ∉ before) : checkCable registry before place c = .ok c := by
  obtain ⟨apart, ⟨k, outPorts, known, here, output⟩, ⟨k', inPorts, known', here', input⟩⟩ := fits
  have unlaid : lays before c = false := by
    rw [Bool.eq_false_iff]
    exact fun laid => fresh (lays_iff.1 laid)
  refine Outcome.bind_eq_ok_iff.2 ⟨_, portsOf_eq_ok_of_provides agree known here, ?_⟩
  refine Outcome.bind_eq_ok_iff.2 ⟨_, portsOf_eq_ok_of_provides agree known' here', ?_⟩
  refine Outcome.bind_eq_ok_iff.2 ⟨(), require_eq_ok_iff.2 (by simp [apart]), ?_⟩
  refine Outcome.bind_eq_ok_iff.2 ⟨(), require_eq_ok_iff.2 (List.contains_iff_mem.2 output), ?_⟩
  refine Outcome.bind_eq_ok_iff.2 ⟨(), require_eq_ok_iff.2 (List.contains_iff_mem.2 input), ?_⟩
  exact Outcome.bind_eq_ok_iff.2 ⟨(), require_eq_ok_iff.2 (by simp [unlaid]), rfl⟩

theorem checkTweak_eq_ok {t : Tweak Float} (writable : (Statement.tweak t).Writable)
    (fits : TweakFits registry before t)
    (fresh : ∀ other, .tweak other ∈ before → other.target ≠ t.target) :
    checkTweak registry before place t.target (String.ofList t.value.written) = .ok t := by
  obtain ⟨⟨kind, ports, known, here, property⟩, shape, parameters⟩ := fits
  have untweaked : tweaks before t.target = false := by
    rw [Bool.eq_false_iff]
    intro tweaked
    obtain ⟨other, mem, same⟩ := tweaks_iff.1 tweaked
    exact fresh other mem same
  have compiled := Postfix.compile_written shape writable.2
  have offered : t.value.params.find? (!knowsParameter before ·) = none := by
    rw [List.find?_eq_none]
    intro name mem
    have used := Postfix.references_iff.1 (List.contains_iff_mem.2 mem)
    simp [knowsParameter_iff.2 (parameters name used)]
  refine Outcome.bind_eq_ok_iff.2 ⟨_, portsOf_eq_ok_of_provides agree known here, ?_⟩
  refine Outcome.bind_eq_ok_iff.2 ⟨(), require_eq_ok_iff.2 (List.contains_iff_mem.2 property), ?_⟩
  refine Outcome.bind_eq_ok_iff.2 ⟨(), require_eq_ok_iff.2 (by simp [untweaked]), ?_⟩
  rw [String.toList_ofList, compiled]
  simp only [offered]
  rfl

/-- The checker lets through what may follow. -/
theorem check_eq_ok {s : Statement Float} {i : Located SynthPatch.Item} (writable : s.Writable)
    (item : s.Item i.item) (admitted : Admits registry before s) :
    check registry before i = .ok s := by
  obtain ⟨place, i⟩ := i
  cases item with
  | header same =>
      cases admitted with
      | header first => exact Outcome.bind_eq_ok_iff.2 ⟨_, checkHeader_eq_ok first same, rfl⟩
  | parameter same =>
      cases admitted with
      | parameter noModule fresh =>
          exact Outcome.bind_eq_ok_iff.2
            ⟨_, checkParameter_eq_ok writable noModule fresh same, rfl⟩
  | module decl =>
      cases admitted with
      | module fits fresh noParameter =>
          exact Outcome.bind_eq_ok_iff.2 ⟨_, checkModule_eq_ok fits fresh noParameter, rfl⟩
  | cable c =>
      cases admitted with
      | cable fits fresh =>
          exact Outcome.bind_eq_ok_iff.2 ⟨_, checkCable_eq_ok agree fits fresh, rfl⟩
  | tweak t =>
      cases admitted with
      | tweak fits fresh =>
          exact Outcome.bind_eq_ok_iff.2 ⟨_, checkTweak_eq_ok agree writable fits fresh, rfl⟩
  | comment text => rfl

end Agreeing

/-! ## Whole patches -/

/-- Items of statements that agree are all let through. -/
theorem checkAll_eq_ok {statements : List (Statement Float)}
    {items : List (Located SynthPatch.Item)} (agree : WellFormed registry (before ++ statements))
    (start : WellFormed registry before) (writable : ∀ s ∈ statements, s.Writable)
    (same : List.Forall₂ (fun s i => s.Item i.item) statements items) :
    checkAll registry before items = .ok (before ++ statements) := by
  induction same generalizing before with
  | nil => simp [checkAll]
  | @cons s i rest items item more ih =>
      have admitted := agree.admits
      have one := check_eq_ok start (writable s (by simp)) item admitted
      rw [checkAll_cons]
      refine Outcome.bind_eq_ok_iff.2 ⟨s, one, ?_⟩
      have others := @ih (before ++ [s]) (by simpa using agree) (start.snoc admitted)
        fun s mem => writable s (by simp [mem])
      simpa using others

/-- Statements that agree, and one of which is a header, are read back from the text that they are
written as. -/
theorem parse_source {statements : List (Statement Float)}
    (header : (statements.filterMap header?).length = 1) (agree : WellFormed registry statements)
    (writable : ∀ s ∈ statements, s.Writable) :
    parse registry (source statements) = .ok statements := by
  have some : 0 < (statements.filterMap header?).length := by omega
  obtain ⟨h, mem⟩ := List.exists_mem_of_length_pos some
  have mem := mem_filterMap_header?.1 mem
  have shaped : ∀ t, .tweak t ∈ statements → t.value.checkShape = .ok () :=
    fun t mem => (agree.tweakFits mem).shape
  obtain ⟨items, read, same⟩ := Grammar.read_source (List.ne_nil_of_mem mem) writable shaped
  have checked : checkAll registry [] items = .ok statements :=
    @checkAll_eq_ok registry [] statements items agree .nil writable same
  simp only [parse, parseLines, read, checked, hasHeader_iff.2 ⟨h, mem⟩, if_true]

/-- A struck bell: a wavetable through an amplifier, detuned by a parameter. -/
def bell : List (Statement Float) :=
  [.comment "struck once",
    .header { shortname := "bell", longname := "Bell # 1", doc := "two\nlines" },
    .parameter {
      name := "ring", type := .int, mutable := false, step := 0.5, min := -2, max := 4,
      default := 0, doc := "how far it is detuned" },
    .module { id := "Osc", kind := .custom, table := some "chime" },
    .module { id := "amp", kind := .vca, table := none },
    .cable ⟨⟨"Osc", "out"⟩, ⟨"amp", "in"⟩⟩,
    .cable ⟨⟨"amp", "out"⟩, ⟨"audio", "in"⟩⟩,
    .comment "the end",
    .tweak ⟨⟨"Osc", "detune"⟩,
      [.param "ring", .number (-2), .op .sub, .number 0.5, .op .mul]⟩]

/-- The bell as it might be typed. -/
def bellLines : List String :=
  ["#struck once", "@synth bell", "  longname: \"Bell # 1\"", "  doc: \"two\nlines\"", "@end",
    "@param ring", "type: int", "mutable: no", "doc: how far it is detuned", "step: .5", "min: -2",
    "max: 4.0", "default: 0", "@end", "CUSTOM-OSC : Osc TABLE chime", "VCA:amp", "",
    "Osc.out->amp.in", "amp.out->audio.in # the end", "Osc.detune = ((param.ring) - -2)*0.5"]

/-- The statements of a bell are read back from their text. -/
theorem parse_source_bell :
    (bell.filterMap header?).length = 1 ∧ WellFormed .standard bell ∧
      (∀ s ∈ bell, s.Writable) ∧ parse .standard (source bell) = .ok bell := by
  have typed : parse .standard ("\n".intercalate bellLines) = .ok bell := by
    rw [parse, String.toList_intercalate]
    exact Outcome.toOption_eq_some_iff.1 (by decide +kernel)
  have header : (bell.filterMap header?).length = 1 := by decide
  have agree := wellFormed_of_parse typed
  have writable : ∀ s ∈ bell, s.Writable := by decide +kernel
  exact ⟨header, agree, writable, parse_source header agree writable⟩

end Checker
end SynthPatch
