import SynthPatch.Language.Checker
import SynthPatch.Proofs.Expr.Formula
/-!
# What may follow the statements so far

The checker lets a statement stand behind others only if it agrees with what they declare.  Here
that is said without the checker, in terms of which statements there are.

Main results:

- Inductives {lit}`Statement.Provides` and {lit}`Statement.Offers`: the modules and parameters that
  statements make known.
- Inductive {lit}`Statement.Admits`: the statements that may follow others.
- Theorem {lit}`Checker.admits_of_check`: the checker only lets through what may follow.
-/

namespace SynthPatch
namespace Statement

variable {α : Type} {statements : List (Statement α)}

/-! ## Statements of one sort -/

theorem module?_eq_some_iff {s : Statement α} {decl : ModuleDecl} :
    s.module? = some decl ↔ s = .module decl := by
  cases s <;> simp [module?]

theorem parameter?_eq_some_iff {s : Statement α} {p : Parameter α} :
    s.parameter? = some p ↔ s = .parameter p := by
  cases s <;> simp [parameter?]

theorem cable?_eq_some_iff {s : Statement α} {c : Cable} : s.cable? = some c ↔ s = .cable c := by
  cases s <;> simp [cable?]

theorem tweak?_eq_some_iff {s : Statement α} {t : Tweak α} : s.tweak? = some t ↔ s = .tweak t := by
  cases s <;> simp [tweak?]

theorem header?_eq_some_iff {s : Statement α} {h : Header} :
    s.header? = some h ↔ s = .header h := by
  cases s <;> simp [header?]

theorem mem_filterMap_module? {decl : ModuleDecl} :
    decl ∈ statements.filterMap module? ↔ .module decl ∈ statements := by
  simp [module?_eq_some_iff]

theorem mem_filterMap_parameter? {p : Parameter α} :
    p ∈ statements.filterMap parameter? ↔ .parameter p ∈ statements := by
  simp [parameter?_eq_some_iff]

theorem mem_filterMap_cable? {c : Cable} :
    c ∈ statements.filterMap cable? ↔ .cable c ∈ statements := by
  simp [cable?_eq_some_iff]

theorem mem_filterMap_tweak? {t : Tweak α} :
    t ∈ statements.filterMap tweak? ↔ .tweak t ∈ statements := by
  simp [tweak?_eq_some_iff]

theorem mem_filterMap_header? {h : Header} :
    h ∈ statements.filterMap header? ↔ .header h ∈ statements := by
  simp [header?_eq_some_iff]

/-! ## What statements make known -/

/-- A module of the name and kind is known: the sink always, the others once they are declared. -/
inductive Provides (statements : List (Statement α)) : String → Kind → Prop
  | sink : Provides statements sinkId .audio
  | declared {decl : ModuleDecl} (mem : .module decl ∈ statements) :
      Provides statements decl.id decl.kind

/-- A parameter of the name is known: those that every patch has always, the others once they are
declared. -/
inductive Offers (statements : List (Statement α)) : String → Prop
  | implicit {name : String} (mem : name ∈ implicitParameters) : Offers statements name
  | declared {p : Parameter α} (mem : .parameter p ∈ statements) : Offers statements p.name

theorem Provides.mono {more : List (Statement α)} (sub : statements ⊆ more) {id : String}
    {kind : Kind} (h : Provides statements id kind) : Provides more id kind := by
  cases h with
  | sink => exact .sink
  | declared mem => exact .declared (sub mem)

theorem Offers.mono {more : List (Statement α)} (sub : statements ⊆ more) {name : String}
    (h : Offers statements name) : Offers more name := by
  cases h with
  | implicit mem => exact .implicit mem
  | declared mem => exact .declared (sub mem)

theorem provides_of_kindOf? {id : String} {kind : Kind} (h : kindOf? statements id = some kind) :
    Provides statements id kind := by
  unfold kindOf? at h
  split at h
  · next sink =>
      cases h
      rw [sink]
      exact .sink
  · obtain ⟨decl, found, rfl⟩ := Option.map_eq_some_iff.1 h
    have same : decl.id = id := by simpa using List.find?_some found
    rw [← same]
    exact .declared (mem_filterMap_module?.1 (List.mem_of_find?_eq_some found))

/-- No module of the name is known if the look-up finds none. -/
theorem not_provides_of_kindOf? {id : String} (h : kindOf? statements id = none) (kind : Kind) :
    ¬ Provides statements id kind := by
  unfold kindOf? at h
  split at h
  · cases h
  · next notSink =>
      have noDecl := List.find?_eq_none.1 (Option.map_eq_none_iff.1 h)
      intro known
      cases known with
      | sink => exact notSink rfl
      | declared mem => exact noDecl _ (mem_filterMap_module?.2 mem) (by simp)

theorem declaresParameter_iff {name : String} :
    declaresParameter statements name = true ↔ ∃ p, .parameter p ∈ statements ∧ p.name = name := by
  simp only [declaresParameter, List.any_eq_true, mem_filterMap_parameter?, decide_eq_true_eq]

theorem knowsParameter_iff {name : String} :
    knowsParameter statements name = true ↔ Offers statements name := by
  rw [knowsParameter, Bool.or_eq_true, List.contains_iff_mem, declaresParameter_iff]
  constructor
  · rintro (mem | ⟨p, mem, rfl⟩)
    · exact .implicit mem
    · exact .declared mem
  · intro known
    cases known with
    | implicit mem => exact .inl mem
    | declared mem => exact .inr ⟨_, mem, rfl⟩

theorem tweaks_iff {target : Endpoint} :
    tweaks statements target = true ↔ ∃ t, .tweak t ∈ statements ∧ t.target = target := by
  simp only [tweaks, List.any_eq_true, mem_filterMap_tweak?, decide_eq_true_eq]

theorem lays_iff {c : Cable} : lays statements c = true ↔ .cable c ∈ statements := by
  rw [lays, List.contains_iff_mem, mem_filterMap_cable?]

theorem hasHeader_iff : hasHeader statements = true ↔ ∃ h, .header h ∈ statements := by
  rw [hasHeader, List.any_eq_true]
  constructor
  · rintro ⟨s, mem, isHeader⟩
    cases s with
    | header h => exact ⟨h, mem⟩
    | _ => cases isHeader
  · rintro ⟨h, mem⟩
    exact ⟨_, mem, rfl⟩

/-! ## What may follow -/

/-- The cable runs from an output of one known module to an input of another. -/
structure CableFits (registry : Registry) (before : List (Statement α)) (c : Cable) : Prop where
  apart : c.source.module ≠ c.target.module
  output : ∃ kind ports, Provides before c.source.module kind ∧ registry.ports? kind = some ports ∧
    c.source.port ∈ ports.outputs
  input : ∃ kind ports, Provides before c.target.module kind ∧ registry.ports? kind = some ports ∧
    c.target.port ∈ ports.inputs

/-- The tweak sets a property of a known module to an expression over known parameters. -/
structure TweakFits (registry : Registry) (before : List (Statement α)) (t : Tweak α) : Prop where
  property : ∃ kind ports, Provides before t.target.module kind ∧
    registry.ports? kind = some ports ∧ t.target.port ∈ ports.tweaks
  shape : t.value.checkShape = .ok ()
  parameters : ∀ name, .param name ∈ t.value → Offers before name

/-- The declared module is of a kind at hand, other than the sink, and has a table exactly if it
plays one. -/
structure ModuleFits (registry : Registry) (decl : ModuleDecl) : Prop where
  declarable : decl.kind ≠ .audio
  registered : (registry.ports? decl.kind).isSome = true
  table : decl.table.isSome = true ↔ decl.kind = .custom

/-- The statements that may follow others. -/
inductive Admits (registry : Registry) (before : List (Statement α)) : Statement α → Prop
  | header {h : Header} (first : ∀ other, .header other ∉ before) :
      Admits registry before (.header h)
  | parameter {p : Parameter α} (noModule : ∀ kind, ¬ Provides before p.name kind)
      (fresh : ∀ other, .parameter other ∈ before → other.name ≠ p.name) :
      Admits registry before (.parameter p)
  | module {decl : ModuleDecl} (fits : ModuleFits registry decl)
      (fresh : ∀ kind, ¬ Provides before decl.id kind) (noParameter : ¬ Offers before decl.id) :
      Admits registry before (.module decl)
  | cable {c : Cable} (fits : CableFits registry before c) (fresh : .cable c ∉ before) :
      Admits registry before (.cable c)
  | tweak {t : Tweak α} (fits : TweakFits registry before t)
      (fresh : ∀ other, .tweak other ∈ before → other.target ≠ t.target) :
      Admits registry before (.tweak t)
  | comment {text : String} : Admits registry before (.comment text)

end Statement

namespace Checker

open Statement

/-! ## What the checker lets through -/

theorem require_eq_ok_iff {holds : Bool} {place : List Char} {fault : Fault} {u : Unit} :
    require holds place fault = .ok u ↔ holds = true := by
  cases holds <;> simp [require, fail]

variable {registry : Registry} {before : List (Statement Float)} {place : List Char}

theorem portsOf_eq_ok {id : String} {ports : Ports}
    (h : portsOf registry before place id = .ok ports) :
    ∃ kind, Provides before id kind ∧ registry.ports? kind = some ports := by
  unfold portsOf at h
  split at h
  · next found =>
      cases h
      obtain ⟨kind, known, here⟩ := Option.bind_eq_some_iff.1 found
      exact ⟨kind, provides_of_kindOf? known, here⟩
  · cases h

theorem header_first {name : String} {fields : List (Located Attribute)} {header : Header}
    (h : checkHeader before place name fields = .ok header) :
    ∀ other, .header other ∉ before := by
  obtain ⟨_, first, -⟩ := Outcome.bind_eq_ok_iff.1 h
  have none := require_eq_ok_iff.1 first
  intro other mem
  have some := hasHeader_iff.2 ⟨other, mem⟩
  simp [some] at none

theorem parameter_admitted {name : String} {fields : List (Located Attribute)} {p : Parameter Float}
    (h : checkParameter before place name fields = .ok p) :
    Admits registry before (.parameter p) := by
  obtain ⟨_, noModule, h⟩ := Outcome.bind_eq_ok_iff.1 h
  obtain ⟨_, fresh, h⟩ := Outcome.bind_eq_ok_iff.1 h
  obtain ⟨draft, -, h⟩ := Outcome.bind_eq_ok_iff.1 h
  obtain ⟨min, -, h⟩ := Outcome.bind_eq_ok_iff.1 h
  obtain ⟨max, -, h⟩ := Outcome.bind_eq_ok_iff.1 h
  obtain ⟨default, -, h⟩ := Outcome.bind_eq_ok_iff.1 h
  cases h
  have noModule := Option.isNone_iff_eq_none.1 (require_eq_ok_iff.1 noModule)
  have fresh := require_eq_ok_iff.1 fresh
  refine .parameter (not_provides_of_kindOf? noModule) ?_
  intro other mem same
  have taken := declaresParameter_iff.2 ⟨other, mem, same⟩
  simp [taken] at fresh

theorem module_admitted {tag id : String} {table : Option String} {decl : ModuleDecl}
    (h : checkModule registry before place tag id table = .ok decl) :
    Admits registry before (.module decl) := by
  unfold checkModule at h
  split at h
  · cases h
  · next kind known =>
      obtain ⟨_, fresh, h⟩ := Outcome.bind_eq_ok_iff.1 h
      obtain ⟨_, noParameter, h⟩ := Outcome.bind_eq_ok_iff.1 h
      obtain ⟨_, needed, h⟩ := Outcome.bind_eq_ok_iff.1 h
      obtain ⟨_, allowed, h⟩ := Outcome.bind_eq_ok_iff.1 h
      cases h
      have fresh := Option.isNone_iff_eq_none.1 (require_eq_ok_iff.1 fresh)
      have noParameter := require_eq_ok_iff.1 noParameter
      have needed := require_eq_ok_iff.1 needed
      have allowed := require_eq_ok_iff.1 allowed
      obtain ⟨tagged, registered⟩ := Option.filter_eq_some_iff.1 known
      obtain ⟨-, declarable⟩ := Option.filter_eq_some_iff.1 tagged
      have plays : kind.takesWavetable = true ↔ kind = .custom := by cases kind <;> decide
      refine .module ⟨by simpa using declarable, registered, ?_⟩ (not_provides_of_kindOf? fresh) ?_
      · rw [← plays]
        cases table <;> simp_all
      · intro offered
        simp [knowsParameter_iff.2 offered] at noParameter

theorem cable_admitted {cable c : Cable} (h : checkCable registry before place cable = .ok c) :
    Admits registry before (.cable c) := by
  obtain ⟨outPorts, source, h⟩ := Outcome.bind_eq_ok_iff.1 h
  obtain ⟨inPorts, target, h⟩ := Outcome.bind_eq_ok_iff.1 h
  obtain ⟨_, apart, h⟩ := Outcome.bind_eq_ok_iff.1 h
  obtain ⟨_, output, h⟩ := Outcome.bind_eq_ok_iff.1 h
  obtain ⟨_, input, h⟩ := Outcome.bind_eq_ok_iff.1 h
  obtain ⟨_, fresh, h⟩ := Outcome.bind_eq_ok_iff.1 h
  cases h
  obtain ⟨outKind, sourceKnown, sourcePorts⟩ := portsOf_eq_ok source
  obtain ⟨inKind, targetKnown, targetPorts⟩ := portsOf_eq_ok target
  have apart := require_eq_ok_iff.1 apart
  have output := List.contains_iff_mem.1 (require_eq_ok_iff.1 output)
  have input := List.contains_iff_mem.1 (require_eq_ok_iff.1 input)
  have fresh := require_eq_ok_iff.1 fresh
  refine .cable ⟨by simpa using apart, ⟨outKind, outPorts, sourceKnown, sourcePorts, output⟩,
    ⟨inKind, inPorts, targetKnown, targetPorts, input⟩⟩ ?_
  intro mem
  simp [lays_iff.2 mem] at fresh

theorem tweak_admitted {target : Endpoint} {source : String} {t : Tweak Float}
    (h : checkTweak registry before place target source = .ok t) :
    Admits registry before (.tweak t) := by
  obtain ⟨ports, known, h⟩ := Outcome.bind_eq_ok_iff.1 h
  obtain ⟨_, property, h⟩ := Outcome.bind_eq_ok_iff.1 h
  obtain ⟨_, fresh, h⟩ := Outcome.bind_eq_ok_iff.1 h
  split at h
  · cases h
  · next value compiled =>
      split at h
      · cases h
      · next parameters =>
          cases h
          obtain ⟨kind, known, here⟩ := portsOf_eq_ok known
          have property := List.contains_iff_mem.1 (require_eq_ok_iff.1 property)
          have fresh := require_eq_ok_iff.1 fresh
          obtain ⟨-, -, -, shape⟩ := Postfix.exists_of_compile compiled
          refine .tweak ⟨⟨kind, ports, known, here, property⟩, shape, ?_⟩ ?_
          · intro name used
            have referred : name ∈ value.params := List.mem_filterMap.2 ⟨_, used, rfl⟩
            have offered := List.find?_eq_none.1 parameters name referred
            exact knowsParameter_iff.1 (by simpa using offered)
          · intro other mem same
            simp [tweaks_iff.2 ⟨other, mem, same⟩] at fresh

/-- The checker only lets through what may follow. -/
theorem admits_of_check {item : Located Item} {s : Statement Float}
    (h : check registry before item = .ok s) : Admits registry before s := by
  obtain ⟨place, item⟩ := item
  cases item with
  | synth name fields =>
      obtain ⟨header, checked, h⟩ := Outcome.bind_eq_ok_iff.1 h
      cases h
      exact .header (header_first checked)
  | param name fields =>
      obtain ⟨p, checked, h⟩ := Outcome.bind_eq_ok_iff.1 h
      cases h
      exact parameter_admitted checked
  | module tag id table =>
      obtain ⟨decl, checked, h⟩ := Outcome.bind_eq_ok_iff.1 h
      cases h
      exact module_admitted checked
  | patch cable =>
      obtain ⟨c, checked, h⟩ := Outcome.bind_eq_ok_iff.1 h
      cases h
      exact cable_admitted checked
  | tweak target source =>
      obtain ⟨t, checked, h⟩ := Outcome.bind_eq_ok_iff.1 h
      cases h
      exact tweak_admitted checked
  | comment text =>
      cases h
      exact .comment

end Checker
end SynthPatch
