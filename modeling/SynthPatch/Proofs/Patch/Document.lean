import SynthPatch.Patch.Document
import SynthPatch.Proofs.Decimal.Interval
import SynthPatch.Proofs.Expr.Numbers
import SynthPatch.Proofs.Json.Reading
import SynthPatch.Proofs.Patch.Derivation
/-!
# What a document keeps of a patch

The document of a patch with finite numbers tells all of the patch but the terms of its wavetables,
which the rack has.  Numbers of expressions are always finite.

Main results:

- Theorem {lit}`Patch.documentText_eq_iff`: the patches that share a document.
- Theorem {lit}`Patch.eq_of_documentText`: patches of one rack that share a document are the same.
-/

namespace SynthPatch

/-! ## Values -/

namespace Json

theorem ofString_inj {s t : String} : ofString s = ofString t ↔ s = t := by
  constructor
  · intro same
    exact String.toList_inj.1 (Quoted.encode_injective (Json.string.inj same))
  · rintro rfl
    rfl

theorem ofFloat_of_isFinite {x : Float} (finite : x.isFinite = true) :
    ofFloat x = .number (Layout.document.write x).toList :=
  if_pos finite

/-- Finite numbers are told apart, the two zeros included. -/
theorem ofFloat_injective {x y : Float} (hx : x.isFinite = true) (hy : y.isFinite = true)
    (same : ofFloat x = ofFloat y) : x = y := by
  rw [ofFloat_of_isFinite hx, ofFloat_of_isFinite hy] at same
  exact Layout.document.write_injective hx hy (String.toList_inj.1 (Json.number.inj same))

theorem ofFields_inj {fields fields' : List (String × Json)} :
    ofFields fields = ofFields fields' ↔ fields = fields' := by
  constructor
  · intro same
    refine List.map_injective_iff.2 ?_ (Json.object.inj same)
    rintro ⟨name, x⟩ ⟨name', x'⟩ same
    obtain ⟨names, rfl⟩ := Prod.mk.inj same
    rw [String.toList_inj.1 (Quoted.encode_injective names)]
  · rintro rfl
    rfl

end Json

/-- Rows are the same if their images are, for entries that are told apart by them. -/
theorem eq_of_map_eq {β γ : Type} {f : β → γ} {P : β → Prop}
    (apart : ∀ {a b}, P a → P b → f a = f b → a = b) {l l' : List β} (h : ∀ a ∈ l, P a)
    (h' : ∀ b ∈ l', P b) (same : l.map f = l'.map f) : l = l' := by
  induction l generalizing l' with
  | nil => exact (List.map_eq_nil_iff.1 same.symm).symm
  | cons a rest ih =>
      cases l' with
      | nil => cases same
      | cons b rest' =>
          rw [List.map_cons, List.map_cons] at same
          obtain ⟨first, others⟩ := List.cons.inj same
          rw [List.forall_mem_cons] at h h'
          rw [apart h.1 h'.1 first, ih h.2 h'.2 others]

/-- Rows that have the same images twice have the same pairs of images. -/
theorem map_pair_eq {β γ δ : Type} {f : β → γ} {g : β → δ} {l l' : List β}
    (first : l.map f = l'.map f) (second : l.map g = l'.map g) :
    l.map (fun b => (f b, g b)) = l'.map fun b => (f b, g b) := by
  rw [← List.zip_map', ← List.zip_map', first, second]

/-! ## Parts -/

section Parts

open Json

theorem Header.proper_document (h : Header) : Proper h.document :=
  .ofFields (by simp)

theorem Parameter.proper_document (p : Parameter Float) : Proper p.document :=
  .ofFields (by simp [Proper.bool])

theorem ModuleDecl.proper_document (m : ModuleDecl) : Proper m.document :=
  .ofFields (by cases m.table <;> simp)

theorem Endpoint.proper_document (e : Endpoint) : Proper e.document :=
  .ofFields (by simp)

theorem Cable.proper_document (c : Cable) : Proper c.document :=
  .ofFields (by simp [Endpoint.proper_document])

theorem Token.proper_document (t : Token Float) : Proper t.document := by
  cases t with
  | number x => exact .ofFloat x
  | param | op | func => exact .ofString _

theorem Tweak.proper_document (t : Tweak Float) : Proper t.document :=
  .ofFields (by simp [Postfix.document, Proper.map Token.proper_document])

theorem Patch.proper_controlDocument (p : Patch Float) {side : Control Float → Json}
    (each : ∀ c, Proper (side c)) : Proper (p.controlDocument side) := by
  refine .ofFields fun f mem => ?_
  obtain ⟨⟨name, c⟩, -, rfl⟩ := List.mem_map.1 mem
  exact each c

/-- The document of a patch is built from values. -/
theorem Patch.proper_document (p : Patch Float) : Proper p.document := by
  refine .ofFields ?_
  simp only [List.forall_mem_cons, List.not_mem_nil, false_implies, implies_true, and_true]
  exact ⟨Header.proper_document _, .map Parameter.proper_document _,
    .map ModuleDecl.proper_document _, .map Cable.proper_document _, .map Cable.proper_document _,
    .map Tweak.proper_document _, p.proper_controlDocument fun _ => .ofFloat _,
    p.proper_controlDocument fun _ => .ofFloat _, p.proper_controlDocument fun _ => .ofFloat _,
    p.proper_controlDocument fun _ => .bool _, .map (fun _ => .ofString _) _,
    .map (fun _ => .ofString _) _⟩

end Parts

/-! ## Telling parts apart -/

theorem Header.document_injective {h g : Header} (same : h.document = g.document) : h = g := by
  obtain ⟨_, _, _, _, _, _⟩ := h
  obtain ⟨_, _, _, _, _, _⟩ := g
  simp only [document, Json.ofFields_inj, List.cons.injEq, Prod.mk.injEq, Json.ofString_inj,
    true_and, and_true] at same
  simp [same]

theorem NumberType.name_injective {s t : NumberType} (same : s.name = t.name) : s = t := by
  revert same
  cases s <;> cases t <;> decide

/-- The numbers of a parameter are finite. -/
structure Parameter.Finite (p : Parameter Float) : Prop where
  step : p.step.isFinite = true
  min : p.min.isFinite = true
  max : p.max.isFinite = true
  default : p.default.isFinite = true

instance (p : Parameter Float) : Decidable p.Finite :=
  decidable_of_iff (p.step.isFinite = true ∧ p.min.isFinite = true ∧ p.max.isFinite = true ∧
      p.default.isFinite = true)
    ⟨fun ⟨step, min, max, default⟩ => ⟨step, min, max, default⟩,
      fun ⟨step, min, max, default⟩ => ⟨step, min, max, default⟩⟩

theorem Parameter.document_injective {p q : Parameter Float} (hp : p.Finite) (hq : q.Finite)
    (same : p.document = q.document) : p = q := by
  simp only [document, Json.ofFields_inj, List.cons.injEq, Prod.mk.injEq, Json.ofString_inj,
    Json.bool.injEq, true_and, and_true] at same
  obtain ⟨name, type, change, step, min, max, default, doc⟩ := same
  have type := NumberType.name_injective type
  have step := Json.ofFloat_injective hp.step hq.step step
  have min := Json.ofFloat_injective hp.min hq.min min
  have max := Json.ofFloat_injective hp.max hq.max max
  have default := Json.ofFloat_injective hp.default hq.default default
  obtain ⟨_, _, _, _, _, _, _, _⟩ := p
  simp_all

/-- A module is told by its document, its wavetable by being there or not. -/
theorem ModuleDecl.document_injective {m n : ModuleDecl} (same : m.document = n.document) :
    m = n := by
  obtain ⟨id, kind, table⟩ := m
  obtain ⟨id', kind', table'⟩ := n
  simp only [document, Json.ofFields_inj, List.cons_append, List.nil_append, List.cons.injEq,
    Prod.mk.injEq, Json.ofString_inj, true_and] at same
  obtain ⟨rfl, kinds, tables⟩ := same
  have kinds := Kind.tag_injective kinds
  cases table <;> cases table' <;> simp_all [Json.ofString_inj]

theorem Endpoint.document_injective {d e : Endpoint} (same : d.document = e.document) : d = e := by
  obtain ⟨_, _⟩ := d
  obtain ⟨_, _⟩ := e
  simpa [document, Json.ofFields_inj, Json.ofString_inj] using same

theorem Cable.document_injective {c d : Cable} (same : c.document = d.document) : c = d := by
  obtain ⟨_, _⟩ := c
  obtain ⟨_, _⟩ := d
  simp only [document, Json.ofFields_inj, List.cons.injEq, Prod.mk.injEq, true_and,
    and_true] at same
  rw [Endpoint.document_injective same.1, Endpoint.document_injective same.2]

/-! ## Expressions -/

namespace Token

/-- A parameter is written as no operator or function is. -/
theorem param_text_ne {name word : String} (short : ¬ "param.".toList <+: word.toList) :
    "param." ++ name ≠ word := by
  rintro rfl
  rw [String.toList_append] at short
  exact short (List.prefix_append _ _)

/-- The token is written as a word: it is a parameter, an operator or a function. -/
def IsWord : Token Float → Prop
  | .number _ => False
  | _ => True

theorem document_of_isWord {t : Token Float} (h : t.IsWord) : t.document = .ofString t.text := by
  cases t with
  | number x => cases h
  | param | op | func => rfl

/-- No two tokens are written as the same word. -/
theorem text_injective {s t : Token Float} (hs : s.IsWord) (ht : t.IsWord)
    (same : s.text = t.text) : s = t := by
  cases s with
  | number x => cases hs
  | param name =>
      cases t with
      | number x => cases ht
      | param name' => rw [(String.append_right_inj _).1 same]
      | op o => exact absurd same (param_text_ne (by cases o <;> decide))
      | func f => exact absurd same (param_text_ne (by cases f <;> decide))
  | op o =>
      cases t with
      | number x => cases ht
      | param name => exact absurd same.symm (param_text_ne (by cases o <;> decide))
      | op o' =>
          revert same
          cases o <;> cases o' <;> decide
      | func f =>
          revert same
          cases o <;> cases f <;> decide
  | func f =>
      cases t with
      | number x => cases ht
      | param name => exact absurd same.symm (param_text_ne (by cases f <;> decide))
      | op o =>
          revert same
          cases o <;> cases f <;> decide
      | func f' =>
          revert same
          cases f <;> cases f' <;> decide

/-- Tokens are told apart in a document, where numbers stay numbers. -/
theorem document_injective {s t : Token Float} (hs : s.Finite) (ht : t.Finite)
    (same : s.document = t.document) : s = t := by
  have number_or_word (t : Token Float) : (∃ x, t = .number x) ∨ t.IsWord := by
    cases t with
    | number x => exact .inl ⟨x, rfl⟩
    | param | op | func => exact .inr trivial
  rcases number_or_word s with ⟨x, rfl⟩ | word <;> rcases number_or_word t with ⟨y, rfl⟩ | word'
  · rw [Json.ofFloat_injective hs ht same]
  · rw [document_of_isWord word', document, Json.ofFloat_of_isFinite hs] at same
    cases same
  · rw [document_of_isWord word, document, Json.ofFloat_of_isFinite ht] at same
    cases same
  · rw [document_of_isWord word, document_of_isWord word'] at same
    exact text_injective word word' (Json.ofString_inj.1 same)

end Token

theorem Tweak.document_injective {t u : Tweak Float} (ht : ∀ s ∈ t.value, s.Finite)
    (hu : ∀ s ∈ u.value, s.Finite) (same : t.document = u.document) : t = u := by
  obtain ⟨⟨module, port⟩, value⟩ := t
  obtain ⟨⟨module', port'⟩, value'⟩ := u
  simp only [document, Postfix.document, Json.ofFields_inj, List.cons.injEq, Prod.mk.injEq,
    Json.ofString_inj, Json.array.injEq, true_and, and_true] at same
  obtain ⟨rfl, rfl, values⟩ := same
  obtain rfl : value = value' := eq_of_map_eq Token.document_injective ht hu values
  rfl

/-! ## Controls -/

/-- The numbers of a control are finite. -/
structure Control.Finite (c : Control Float) : Prop where
  min : c.min.isFinite = true
  max : c.max.isFinite = true
  default : c.default.isFinite = true

/-- The numbers of the limits are finite. -/
structure Limits.Finite (l : Limits Float) : Prop where
  pitchMin : l.pitchMin.isFinite = true
  pitchMax : l.pitchMax.isFinite = true
  pitchDefault : l.pitchDefault.isFinite = true
  levelMin : l.levelMin.isFinite = true
  levelMax : l.levelMax.isFinite = true
  levelDefault : l.levelDefault.isFinite = true

namespace Patch

variable {p q : Patch Float}

/-- The numbers of a patch are finite. -/
structure Finite (p : Patch Float) : Prop where
  parameters : ∀ q ∈ p.parameters, q.Finite
  tweaks : ∀ t ∈ p.tweaks, ∀ s ∈ t.value, s.Finite
  controls : ∀ (name : String) (c : Control Float), p.controls[name]? = some c → c.Finite

/-- The four sides of the controls make up the controls. -/
theorem controls_eq (hp : p.Finite) (hq : q.Finite)
    (max : p.controlDocument (fun c => .ofFloat c.max) = q.controlDocument fun c => .ofFloat c.max)
    (min : p.controlDocument (fun c => .ofFloat c.min) = q.controlDocument fun c => .ofFloat c.min)
    (default : p.controlDocument (fun c => .ofFloat c.default) =
      q.controlDocument fun c => .ofFloat c.default)
    (change : p.controlDocument (fun c => .bool c.mutable) =
      q.controlDocument fun c => .bool c.mutable) : p.controls = q.controls := by
  have sides := map_pair_eq (map_pair_eq (Json.ofFields_inj.1 min) (Json.ofFields_inj.1 max))
    (map_pair_eq (Json.ofFields_inj.1 default) (Json.ofFields_inj.1 change))
  have finite {p : Patch Float} (h : p.Finite) : ∀ e ∈ p.controls.toList, e.2.Finite :=
    fun e mem => h.controls e.1 e.2 (Std.ExtTreeMap.mem_toList_iff_getElem?_eq_some.1 mem)
  refine Std.ExtTreeMap.toList_inj.1 (eq_of_map_eq ?_ (finite hp) (finite hq) sides)
  rintro ⟨name, c⟩ ⟨name', d⟩ hc hd same
  simp only [Prod.mk.injEq, Json.bool.injEq] at same
  obtain ⟨⟨⟨rfl, min⟩, -, max⟩, ⟨-, default⟩, -, change⟩ := same
  have min := Json.ofFloat_injective hc.min hd.min min
  have max := Json.ofFloat_injective hc.max hd.max max
  have default := Json.ofFloat_injective hc.default hd.default default
  obtain ⟨_, _, _, _⟩ := c
  simp_all

/-! ## Patches -/

/-- All that a document tells of a patch is the same. -/
structure SameParts (p q : Patch Float) : Prop where
  header : p.header = q.header
  parameters : p.parameters = q.parameters
  modules : p.modules = q.modules
  cables : p.cables = q.cables
  envelopes : p.envelopes = q.envelopes
  tweaks : p.tweaks = q.tweaks
  controls : p.controls = q.controls
  errors : p.errors.map PatchError.message = q.errors.map PatchError.message
  warnings : p.warnings.map PatchWarning.message = q.warnings.map PatchWarning.message

/-- The document of a patch with finite numbers tells all its parts. -/
theorem document_eq_iff (hp : p.Finite) (hq : q.Finite) :
    p.document = q.document ↔ SameParts p q := by
  constructor
  · intro same
    simp only [document, Json.ofFields_inj, List.cons.injEq, Prod.mk.injEq, Json.array.injEq,
      true_and, and_true] at same
    obtain ⟨header, parameters, modules, cables, envelopes, tweaks, max, min, default, change,
      errors, warnings⟩ := same
    have ofString : Function.Injective Json.ofString := fun _ _ => Json.ofString_inj.1
    refine
      { header := Header.document_injective header
        parameters :=
          eq_of_map_eq Parameter.document_injective hp.parameters hq.parameters parameters
        modules := List.map_injective_iff.2 (fun _ _ => ModuleDecl.document_injective) modules
        cables := List.map_injective_iff.2 (fun _ _ => Cable.document_injective) cables
        envelopes := List.map_injective_iff.2 (fun _ _ => Cable.document_injective) envelopes
        tweaks := eq_of_map_eq Tweak.document_injective hp.tweaks hq.tweaks tweaks
        controls := controls_eq hp hq max min default change
        errors := List.map_injective_iff.2 ofString ?_
        warnings := List.map_injective_iff.2 ofString ?_ }
    · rw [List.map_map, List.map_map]
      exact errors
    · rw [List.map_map, List.map_map]
      exact warnings
  · intro same
    have errors := congrArg (List.map Json.ofString) same.errors
    have warnings := congrArg (List.map Json.ofString) same.warnings
    rw [List.map_map, List.map_map] at errors warnings
    simp only [document, controlDocument, same.header, same.parameters, same.modules, same.cables,
      same.envelopes, same.tweaks, same.controls]
    exact congrArg Json.ofFields (by simp_all [Function.comp_def])

/-- Patches with finite numbers share the text of a document exactly if all parts that it tells are
the same. -/
theorem documentText_eq_iff (hp : p.Finite) (hq : q.Finite) :
    p.documentText = q.documentText ↔ SameParts p q := by
  rw [← document_eq_iff hp hq]
  exact ⟨Json.pretty_injective (proper_document p) (proper_document q), congrArg Json.pretty⟩

end Patch

/-! ## Compiled patches -/

namespace Checker

open Statement

variable {registry : Registry} {before : List (Statement Float)}

theorem finite_of_checkTweak {place : List Char} {target : Endpoint} {source : String}
    {t : Tweak Float} (h : checkTweak registry before place target source = .ok t) :
    ∀ s ∈ t.value, s.Finite := by
  obtain ⟨_, -, h⟩ := Outcome.bind_eq_ok_iff.1 h
  obtain ⟨_, -, h⟩ := Outcome.bind_eq_ok_iff.1 h
  obtain ⟨_, -, h⟩ := Outcome.bind_eq_ok_iff.1 h
  split at h
  · cases h
  · next value compiled =>
      split at h
      · cases h
      · cases h
        exact Postfix.finite_of_compile compiled

/-- A tweak comes from an item that writes it. -/
theorem finite_of_check {item : Located Item} {t : Tweak Float}
    (h : check registry before item = .ok (.tweak t)) : ∀ s ∈ t.value, s.Finite := by
  obtain ⟨place, item⟩ := item
  cases item with
  | tweak target source =>
      obtain ⟨u, checked, h⟩ := Outcome.bind_eq_ok_iff.1 h
      cases h
      exact finite_of_checkTweak checked
  | synth name fields | param name fields | module tag id table | patch cable =>
      obtain ⟨_, -, h⟩ := Outcome.bind_eq_ok_iff.1 h
      cases h
  | comment text => cases h

/-- The numbers of tweaks are finite from the first item to the last. -/
theorem finite_of_checkAll {statements : List (Statement Float)} {items : List (Located Item)}
    (front : ∀ t, .tweak t ∈ before → ∀ s ∈ t.value, s.Finite)
    (checked : checkAll registry before items = .ok statements) :
    ∀ t, .tweak t ∈ statements → ∀ s ∈ t.value, s.Finite := by
  induction items generalizing before with
  | nil =>
      cases checked
      exact front
  | cons item rest ih =>
      rw [checkAll_cons] at checked
      obtain ⟨one, first, others⟩ := Outcome.bind_eq_ok_iff.1 checked
      refine ih (fun t mem => ?_) others
      rcases List.mem_append.1 mem with mem | mem
      · exact front t mem
      · rw [← List.mem_singleton.1 mem] at first
        exact finite_of_check first

/-- The numbers of every tweak of a text are finite. -/
theorem finite_of_parse {source : String} {statements : List (Statement Float)}
    (h : parse registry source = .ok statements) :
    ∀ t, .tweak t ∈ statements → ∀ s ∈ t.value, s.Finite := by
  obtain ⟨⟨items, -, checked⟩, -⟩ := checkAll_of_parse h
  exact finite_of_checkAll (by simp) checked

end Checker

namespace Patch

open Statement

variable {registry : Registry} {tables : Wavetables Float} {limits : Limits Float}
  {statements statements' : List (Statement Float)}

theorem finite_implicitControls (finite : limits.Finite) {name : String} {c : Control Float}
    (h : (implicitControls limits)[name]? = some c) : c.Finite := by
  simp only [implicitControls, Std.ExtTreeMap.getElem?_insert, Std.LawfulEqCmp.compare_eq_iff_eq]
    at h
  split at h
  · cases h
    exact ⟨finite.levelMin, finite.levelMax, finite.levelDefault⟩
  · split at h
    · cases h
      exact ⟨finite.pitchMin, finite.pitchMax, finite.pitchDefault⟩
    · simp at h

/-- The numbers of a patch are finite if those of its parameters and its limits are. -/
theorem finite_ofStatements (agree : WellFormed registry statements) (bounded : limits.Finite)
    (parameters : ∀ q ∈ (ofStatements tables limits statements).parameters, q.Finite)
    (tweaks : ∀ t, .tweak t ∈ statements → ∀ s ∈ t.value, s.Finite) :
    (ofStatements tables limits statements).Finite where
  parameters := parameters
  tweaks t mem := tweaks t ((mem_tweaks_ofStatements tables limits).1 mem)
  controls name c found := by
    rw [getElem?_controls agree, Option.or_eq_some_iff] at found
    rcases found with found | ⟨-, found⟩
    · obtain ⟨q, declared, rfl⟩ := Option.map_eq_some_iff.1 found
      have mem := List.mem_of_find?_eq_some declared
      rw [← parameters_ofStatements tables limits] at mem
      have finite := parameters q mem
      exact ⟨finite.min, finite.max, finite.default⟩
    · exact finite_implicitControls bounded found

/-- On one rack the modules tell the wavetables. -/
theorem tables_eq_of_modules (agree : WellFormed registry statements)
    (agree' : WellFormed registry statements')
    (modules : (ofStatements tables limits statements).modules =
      (ofStatements tables limits statements').modules) :
    (ofStatements tables limits statements).tables =
      (ofStatements tables limits statements').tables := by
  have same (decl : ModuleDecl) : .module decl ∈ statements ↔ .module decl ∈ statements' := by
    rw [← mem_modules_ofStatements tables limits, modules, mem_modules_ofStatements]
  refine Std.ExtTreeMap.ext_getElem? fun id => Option.ext fun table => ?_
  simp only [getElem?_tables agree, getElem?_tables agree', same]

/-- Patches of one rack that share a document are the same, with their wavetables, if the numbers
of their parameters and the limits of the rack are finite. -/
theorem eq_of_documentText {rack : Rack Float} {source source' : String} {p q : Patch Float}
    (compiled : compile rack source = .ok p) (compiled' : compile rack source' = .ok q)
    (limits : rack.config.limits.Finite) (finite : ∀ r ∈ p.parameters, r.Finite)
    (finite' : ∀ r ∈ q.parameters, r.Finite) (text : p.documentText = q.documentText) : p = q := by
  obtain ⟨statements, parsed, rfl⟩ := Outcome.map_eq_ok_iff.1 compiled
  obtain ⟨statements', parsed', rfl⟩ := Outcome.map_eq_ok_iff.1 compiled'
  have agree := Checker.wellFormed_of_parse parsed
  have agree' := Checker.wellFormed_of_parse parsed'
  have same := (documentText_eq_iff
    (finite_ofStatements agree limits finite (Checker.finite_of_parse parsed))
    (finite_ofStatements agree' limits finite' (Checker.finite_of_parse parsed'))).1 text
  have tables := tables_eq_of_modules agree agree' same.modules
  revert same tables
  generalize ofStatements rack.wavetables rack.config.limits statements = p
  generalize ofStatements rack.wavetables rack.config.limits statements' = q
  rintro ⟨header, parameters, modules, cables, envelopes, tweaks, controls, -, -⟩ tables
  cases p
  cases q
  simp_all

/-- A rack with limits in round numbers. -/
def roundRack : Rack Float :=
  { Rack.standard with config := { Config.standard with limits := ⟨20, 20000, 440, 0, 1, 0.8⟩ } }

/-- A patch with a tone that a parameter bends. -/
def bentSource : String :=
  "@synth bent\n@end\n@param bend\nmin: -0\nmax: 1.5\ndefault: 1\n@end\nSIN-OSC: osc\n" ++
    "osc.out -> audio.in\nosc.detune = param.bend * -0.1"

/-- The same patch with a remark, other blanks and other digits. -/
def spacedSource : String :=
  "@synth bent\n@end\n\n# the bend\n@param bend\n  min: -0\n  max: 1.50\n  default: 1\n@end\n" ++
    "SIN-OSC: osc\nosc.out -> audio.in\nosc.detune = param.bend*-0.1"

/-- The two texts share a document, and so they are compiled to the same patch. -/
theorem eq_of_documentText_bent :
    ∃ p q, bentSource ≠ spacedSource ∧ compile roundRack bentSource = .ok p ∧
      compile roundRack spacedSource = .ok q ∧ roundRack.config.limits.Finite ∧
      (∀ r ∈ p.parameters, r.Finite) ∧ (∀ r ∈ q.parameters, r.Finite) ∧
      p.documentText = q.documentText ∧ p = q := by
  have facts : ((compile roundRack bentSource).toOption.bind fun p =>
      (compile roundRack spacedSource).toOption.map fun q =>
        decide ((∀ r ∈ p.parameters, r.Finite) ∧ (∀ r ∈ q.parameters, r.Finite) ∧
          Json.prettyAt 0 p.document = Json.prettyAt 0 q.document)) = some true := by
    decide +kernel
  obtain ⟨p, compiled, facts⟩ := Option.bind_eq_some_iff.1 facts
  obtain ⟨q, compiled', facts⟩ := Option.map_eq_some_iff.1 facts
  obtain ⟨finite, finite', same⟩ := of_decide_eq_true facts
  have compiled := Outcome.toOption_eq_some_iff.1 compiled
  have compiled' := Outcome.toOption_eq_some_iff.1 compiled'
  have limits : roundRack.config.limits.Finite :=
    ⟨by decide +kernel, by decide +kernel, by decide +kernel, by decide +kernel,
      by decide +kernel, by decide +kernel⟩
  have text : p.documentText = q.documentText := congrArg String.ofList same
  exact ⟨p, q, by decide, compiled, compiled', limits, finite, finite', text,
    eq_of_documentText compiled compiled' limits finite finite' text⟩

end Patch
end SynthPatch
