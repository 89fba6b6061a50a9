import SynthPatch.Proofs.Language.Admission
import Mathlib.Data.List.Nodup
/-!
# What the checker guarantees

The checker goes over a patch once and compares each statement with those before it.  What it lets
through agrees as a whole: names are unique in either order of declaration, and cables and tweaks
refer to what was declared before them.

Main results:

- Structure {lit}`Statement.WellFormed`: statements that agree with each other.
- Theorem {lit}`Statement.WellFormed.snoc`: they still agree behind one more statement that may
  follow them.
- Theorem {lit}`Checker.wellFormed_of_parse`: the statements of every text agree with each other.
-/

namespace SynthPatch
namespace Statement

variable {α : Type}

/-- Statements that agree with each other and with the kinds at hand. -/
structure WellFormed (registry : Registry) (statements : List (Statement α)) : Prop where
  /-- There is no second header. -/
  header : (statements.filterMap header?).length ≤ 1
  /-- No two modules share a name. -/
  moduleNames : ((statements.filterMap module?).map (·.id)).Nodup
  /-- No module has the name of the sink. -/
  notSink : ∀ decl, .module decl ∈ statements → decl.id ≠ sinkId
  /-- No module has the name of a parameter, wherever that is declared. -/
  noParameter : ∀ decl, .module decl ∈ statements → ¬ Offers statements decl.id
  /-- Modules are of kinds at hand, and have a table exactly if they play one. -/
  modules : ∀ decl, .module decl ∈ statements → ModuleFits registry decl
  /-- No two parameters share a name. -/
  parameterNames : ((statements.filterMap parameter?).map (·.name)).Nodup
  /-- No parameter has the name of the sink. -/
  parameterNotSink : ∀ p, .parameter p ∈ statements → p.name ≠ sinkId
  /-- Cables run between ports of modules that are known before them. -/
  cables : ∀ before c after, statements = before ++ .cable c :: after →
    CableFits registry before c
  /-- No cable is laid twice. -/
  cablesOnce : (statements.filterMap cable?).Nodup
  /-- Tweaks set properties of modules, and use parameters, that are known before them. -/
  tweaks : ∀ before t after, statements = before ++ .tweak t :: after →
    TweakFits registry before t
  /-- No property is tweaked twice. -/
  targets : ((statements.filterMap tweak?).map (·.target)).Nodup

/-! ## One more statement -/

/-- A statement within a row that has grown by one is the last of it or one from before. -/
theorem eq_or_exists_of_snoc {statements before after : List (Statement α)} {last s : Statement α}
    (h : statements ++ [last] = before ++ s :: after) :
    (statements = before ∧ s = last) ∨ ∃ rest, statements = before ++ s :: rest := by
  rcases List.eq_nil_or_concat after with rfl | ⟨rest, final, rfl⟩
  · obtain ⟨front, same⟩ := List.append_inj' h rfl
    cases same
    exact .inl ⟨front, rfl⟩
  · rw [List.concat_eq_append, ← List.cons_append, ← List.append_assoc] at h
    exact .inr ⟨rest, (List.append_inj' h rfl).1⟩

/-- Names stay unique if the name that one more statement adds is new. -/
theorem nodup_map_snoc {β γ : Type} {part : Statement α → Option β} {name : β → γ}
    {before : List (Statement α)} {s : Statement α}
    (h : ((before.filterMap part).map name).Nodup)
    (new : ∀ b, part s = some b → ∀ other ∈ before.filterMap part, name other ≠ name b) :
    (((before ++ [s]).filterMap part).map name).Nodup := by
  rw [List.filterMap_append, List.map_append]
  cases hs : part s with
  | none => simpa [List.filterMap_cons, hs] using h
  | some b =>
      refine List.nodup_append.2 ⟨h, by simp [hs], ?_⟩
      intro one memOne last memLast
      obtain ⟨other, mem, rfl⟩ := List.mem_map.1 memOne
      have last_eq : last = name b := by simpa [hs] using memLast
      rw [last_eq]
      exact new b hs other mem

theorem offers_snoc {statements : List (Statement α)} {s : Statement α} {name : String}
    (h : Offers (statements ++ [s]) name) :
    Offers statements name ∨ ∃ p, s = .parameter p ∧ p.name = name := by
  cases h with
  | implicit mem => exact .inl (.implicit mem)
  | @declared p mem =>
      rcases List.mem_append.1 mem with mem | mem
      · exact .inl (.declared mem)
      · exact .inr ⟨p, (List.mem_singleton.1 mem).symm, rfl⟩

namespace WellFormed

variable {registry : Registry} {before : List (Statement α)} {s : Statement α}

theorem nil : WellFormed registry ([] : List (Statement α)) where
  header := by simp
  moduleNames := by simp
  notSink := by simp
  noParameter := by simp
  modules := by simp
  parameterNames := by simp
  parameterNotSink := by simp
  cables := by simp
  cablesOnce := by simp
  tweaks := by simp
  targets := by simp

section Snoc

variable (h : WellFormed registry before) (admitted : Admits registry before s)
include h admitted

theorem header_snoc : ((before ++ [s]).filterMap header?).length ≤ 1 := by
  cases admitted with
  | header first =>
      have none : before.filterMap header? = [] :=
        List.eq_nil_iff_forall_not_mem.2 fun other mem => first other (mem_filterMap_header?.1 mem)
      simp [none, header?]
  | _ => simpa [List.filterMap_cons, header?] using h.header

theorem moduleNames_snoc : (((before ++ [s]).filterMap module?).map (·.id)).Nodup := by
  refine nodup_map_snoc h.moduleNames ?_
  intro decl isModule other mem same
  obtain rfl := module?_eq_some_iff.1 isModule
  cases admitted with
  | module fits fresh noParameter =>
      exact fresh other.kind (same ▸ .declared (mem_filterMap_module?.1 mem))

theorem notSink_snoc : ∀ decl, .module decl ∈ before ++ [s] → decl.id ≠ sinkId := by
  intro decl mem
  rcases List.mem_append.1 mem with mem | mem
  · exact h.notSink decl mem
  · cases List.mem_singleton.1 mem
    cases admitted with
    | module fits fresh noParameter =>
        intro sink
        exact fresh .audio (sink ▸ .sink)

theorem noParameter_snoc :
    ∀ decl, .module decl ∈ before ++ [s] → ¬ Offers (before ++ [s]) decl.id := by
  intro decl mem offered
  rcases offers_snoc offered with known | ⟨p, rfl, same⟩
  · rcases List.mem_append.1 mem with mem | mem
    · exact h.noParameter decl mem known
    · cases List.mem_singleton.1 mem
      cases admitted with
      | module fits fresh noParameter => exact noParameter known
  · cases admitted with
    | parameter noModule fresh =>
        have mem : .module decl ∈ before := by simpa using mem
        exact noModule decl.kind (same ▸ .declared mem)

theorem modules_snoc : ∀ decl, .module decl ∈ before ++ [s] → ModuleFits registry decl := by
  intro decl mem
  rcases List.mem_append.1 mem with mem | mem
  · exact h.modules decl mem
  · cases List.mem_singleton.1 mem
    cases admitted with
    | module fits fresh noParameter => exact fits

theorem parameterNames_snoc : (((before ++ [s]).filterMap parameter?).map (·.name)).Nodup := by
  refine nodup_map_snoc h.parameterNames ?_
  intro p isParameter other mem
  obtain rfl := parameter?_eq_some_iff.1 isParameter
  cases admitted with
  | parameter noModule fresh => exact fresh other (mem_filterMap_parameter?.1 mem)

theorem parameterNotSink_snoc : ∀ p, .parameter p ∈ before ++ [s] → p.name ≠ sinkId := by
  intro p mem
  rcases List.mem_append.1 mem with mem | mem
  · exact h.parameterNotSink p mem
  · cases List.mem_singleton.1 mem
    cases admitted with
    | parameter noModule fresh =>
        intro sink
        exact noModule .audio (sink ▸ .sink)

theorem cables_snoc : ∀ front c after, before ++ [s] = front ++ .cable c :: after →
    CableFits registry front c := by
  intro front c after shape
  rcases eq_or_exists_of_snoc shape with ⟨rfl, rfl⟩ | ⟨rest, shape⟩
  · cases admitted with
    | cable fits fresh => exact fits
  · exact h.cables front c rest shape

theorem cablesOnce_snoc : ((before ++ [s]).filterMap cable?).Nodup := by
  rw [← List.map_id (List.filterMap _ _)]
  refine nodup_map_snoc (by simpa using h.cablesOnce) ?_
  intro c isCable other mem same
  obtain rfl := cable?_eq_some_iff.1 isCable
  have same : other = c := same
  cases admitted with
  | cable fits fresh => exact fresh (same ▸ mem_filterMap_cable?.1 mem)

theorem tweaks_snoc : ∀ front t after, before ++ [s] = front ++ .tweak t :: after →
    TweakFits registry front t := by
  intro front t after shape
  rcases eq_or_exists_of_snoc shape with ⟨rfl, rfl⟩ | ⟨rest, shape⟩
  · cases admitted with
    | tweak fits fresh => exact fits
  · exact h.tweaks front t rest shape

theorem targets_snoc : (((before ++ [s]).filterMap tweak?).map (·.target)).Nodup := by
  refine nodup_map_snoc h.targets ?_
  intro t isTweak other mem
  obtain rfl := tweak?_eq_some_iff.1 isTweak
  cases admitted with
  | tweak fits fresh => exact fresh other (mem_filterMap_tweak?.1 mem)

/-- Statements still agree behind one more that may follow them. -/
theorem snoc : WellFormed registry (before ++ [s]) where
  header := h.header_snoc admitted
  moduleNames := h.moduleNames_snoc admitted
  notSink := h.notSink_snoc admitted
  noParameter := h.noParameter_snoc admitted
  modules := h.modules_snoc admitted
  parameterNames := h.parameterNames_snoc admitted
  parameterNotSink := h.parameterNotSink_snoc admitted
  cables := h.cables_snoc admitted
  cablesOnce := h.cablesOnce_snoc admitted
  tweaks := h.tweaks_snoc admitted
  targets := h.targets_snoc admitted

end Snoc

/-! ## What is known at the end -/

variable {statements : List (Statement α)} (h : WellFormed registry statements)
include h

/-- No two modules share a name. -/
theorem eq_of_id_eq {a b : ModuleDecl} (memA : .module a ∈ statements)
    (memB : .module b ∈ statements) (same : a.id = b.id) : a = b :=
  List.inj_on_of_nodup_map h.moduleNames (mem_filterMap_module?.2 memA)
    (mem_filterMap_module?.2 memB) same

/-- A module is found by its name at any point of the patch behind it. -/
theorem find?_front {front rest : List (Statement α)} (shape : statements = front ++ rest)
    {decl : ModuleDecl} (mem : .module decl ∈ front) :
    (front.filterMap module?).find? (·.id = decl.id) = some decl := by
  have within : ∀ {d : ModuleDecl}, .module d ∈ front → .module d ∈ statements := by
    intro d here
    simp [shape, here]
  obtain ⟨other, found⟩ : ∃ other,
      (front.filterMap module?).find? (·.id = decl.id) = some other :=
    Option.isSome_iff_exists.1 (List.find?_isSome.2 ⟨decl, mem_filterMap_module?.2 mem, by simp⟩)
  have here := mem_filterMap_module?.1 (List.mem_of_find?_eq_some found)
  have sameName : other.id = decl.id := by simpa using List.find?_some found
  rw [found, h.eq_of_id_eq (within here) (within mem) sameName]

/-- A module that is known has no other kind than the one it is looked up with. -/
theorem kindOf?_of_provides {id : String} {kind : Kind} (known : Provides statements id kind) :
    kindOf? statements id = some kind := by
  cases known with
  | sink => simp [kindOf?]
  | @declared decl mem =>
      have found := h.find?_front (List.append_nil statements).symm mem
      simp [kindOf?, h.notSink decl mem, found]

/-- A cable fits what is known at the end of the patch. -/
theorem cableFits {c : Cable} (mem : .cable c ∈ statements) :
    CableFits registry statements c := by
  obtain ⟨before, after, shape⟩ := List.append_of_mem mem
  have sub : before ⊆ statements := by simp [shape]
  obtain ⟨apart, ⟨k, ports, known, here, output⟩, ⟨k', ports', known', here', input⟩⟩ :=
    h.cables before c after shape
  exact ⟨apart, ⟨k, ports, known.mono sub, here, output⟩,
    ⟨k', ports', known'.mono sub, here', input⟩⟩

/-- A tweak fits what is known at the end of the patch. -/
theorem tweakFits {t : Tweak α} (mem : .tweak t ∈ statements) :
    TweakFits registry statements t := by
  obtain ⟨before, after, shape⟩ := List.append_of_mem mem
  have sub : before ⊆ statements := by simp [shape]
  obtain ⟨⟨k, ports, known, here, property⟩, expression, parameters⟩ :=
    h.tweaks before t after shape
  exact ⟨⟨k, ports, known.mono sub, here, property⟩, expression,
    fun name used => (parameters name used).mono sub⟩

end WellFormed
end Statement

/-! ## Whole patches -/

namespace Checker

open Statement

variable {registry : Registry}

/-- The checker keeps statements in agreement from the first item to the last. -/
theorem wellFormed_of_checkAll {before statements : List (Statement Float)}
    {items : List (Located Item)} (h : WellFormed registry before)
    (checked : checkAll registry before items = .ok statements) :
    WellFormed registry statements := by
  induction items generalizing before with
  | nil =>
      cases checked
      exact h
  | cons item rest ih =>
      rw [checkAll_cons] at checked
      obtain ⟨s, one, others⟩ := Outcome.bind_eq_ok_iff.1 checked
      exact ih (h.snoc (admits_of_check one)) others

theorem checkAll_of_parse {source : String} {statements : List (Statement Float)}
    (h : parse registry source = .ok statements) :
    (∃ items, Grammar.read (source.toList ++ ['\n']) = .ok items ∧
      checkAll registry [] items = .ok statements) ∧ hasHeader statements = true := by
  unfold parse parseLines at h
  split at h
  · cases h
  · next items read =>
      split at h
      · cases h
      · next found checked =>
          split at h
          · next header =>
              cases h
              exact ⟨⟨items, read, checked⟩, header⟩
          · cases h

/-- The statements of every text agree with each other. -/
theorem wellFormed_of_parse {source : String} {statements : List (Statement Float)}
    (h : parse registry source = .ok statements) : WellFormed registry statements := by
  obtain ⟨⟨items, -, checked⟩, -⟩ := checkAll_of_parse h
  exact wellFormed_of_checkAll .nil checked

/-- The statements of every text agree with each other, and exactly one of them is a header. -/
theorem parse_sound {source : String} {statements : List (Statement Float)}
    (h : parse registry source = .ok statements) :
    (statements.filterMap header?).length = 1 ∧ WellFormed registry statements := by
  have agree := wellFormed_of_parse h
  obtain ⟨-, header⟩ := checkAll_of_parse h
  obtain ⟨first, mem⟩ := hasHeader_iff.1 header
  have some := List.length_pos_of_mem (mem_filterMap_header?.2 mem)
  have most := agree.header
  exact ⟨by omega, agree⟩

/-- A patch of one tone with a parameter for its detuning. -/
def toneSource : String :=
  "@synth tone\n@end\n@param bend\nmin: 0\nmax: 1\ndefault: 1\n@end\nSIN-OSC: osc\n" ++
    "osc.out -> audio.in\nosc.detune = param.pitch * (param.bend - 1)"

/-- The statements of a tone agree with each other, and one of them is its header. -/
theorem parse_sound_tone :
    ∃ statements, parse .standard toneSource = .ok statements ∧ statements.length = 5 ∧
      (statements.filterMap header?).length = 1 ∧ WellFormed .standard statements := by
  have size : (parse .standard toneSource).toOption.map List.length = some 5 := by decide +kernel
  obtain ⟨statements, read, length⟩ := Option.map_eq_some_iff.1 size
  have parsed := Outcome.toOption_eq_some_iff.1 read
  exact ⟨statements, parsed, length, parse_sound parsed⟩

end Checker
end SynthPatch
