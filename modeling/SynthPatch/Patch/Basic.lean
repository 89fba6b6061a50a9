import SynthPatch.Language.Checker
import SynthPatch.Rack
/-!
# Compiled patches

A compiled patch is what voices are built from: the statements of a patch sorted by what they are,
the controls with their bounds, and the wavetables its modules play.  Cables that come from an
envelope are kept apart, since they carry no signal.  A text is compiled for a rack: it is checked
against the kinds at hand, and its statements are put together with the wavetables and the limits
of the rack.

Main results:

- Function {lit}`Patch.ofStatements`: the patch of a list of statements.
- Function {lit}`Patch.compile`: the patch of a text on a rack.
- Theorem {lit}`Patch.foldl_add_append`: what the parts of a patch are made up of.
- Theorem {lit}`Patch.cables_append_envelopes_perm`: no cable is lost or doubled.
-/

namespace SynthPatch

/-- The bounds and the default of a parameter. -/
structure Control (α : Type) where
  min : α
  max : α
  default : α
  /-- It may be changed while a voice sounds. -/
  mutable : Bool
deriving DecidableEq, Repr

/-- A compiled patch. -/
structure Patch (α : Type) where
  header : Header
  parameters : List (Parameter α)
  modules : List ModuleDecl
  /-- Cables that carry a signal. -/
  cables : List Cable
  /-- Cables that come from an envelope. -/
  envelopes : List Cable
  tweaks : List (Tweak α)
  /-- Every parameter, those included that every patch has. -/
  controls : Named (Control α)
  /-- The wavetables of the modules that play one, by the name of the module. -/
  tables : Wavetables α

namespace Patch

variable {α : Type}

/-! ## Building -/

/-- The controls that every patch has. -/
def implicitControls (limits : Limits α) : Named (Control α) :=
  let none : Named (Control α) := ∅
  (none.insert "pitch" ⟨limits.pitchMin, limits.pitchMax, limits.pitchDefault, true⟩).insert
    "level" ⟨limits.levelMin, limits.levelMax, limits.levelDefault, true⟩

/-- The control of a declared parameter. -/
def controlOf (p : Parameter α) : Control α :=
  ⟨p.min, p.max, p.default, p.mutable⟩

/-- The wavetable that a module plays, if it is known. -/
def wavetableOf? (tables : Wavetables α) (decl : ModuleDecl) : Option (Wavetable α) :=
  decl.table.bind fun name => tables[name]?

/-- The patch that nothing has been added to. -/
def bare (limits : Limits α) : Patch α where
  header := { shortname := "" }
  parameters := []
  modules := []
  cables := []
  envelopes := []
  tweaks := []
  controls := implicitControls limits
  tables := ∅

/-- An envelope of the name is among the modules. -/
def hasEnvelope (p : Patch α) (id : String) : Bool :=
  (p.modules.find? (·.id = id)).any (·.kind.isEnvelope)

/-- Add a statement.  A declared parameter replaces the control that every patch has, a module
finds its wavetable if that is known, and a cable is sorted by the modules declared so far. -/
def add (tables : Wavetables α) (p : Patch α) : Statement α → Patch α
  | .header header => { p with header }
  | .parameter q =>
    { p with
      parameters := p.parameters ++ [q]
      controls := p.controls.insert q.name (controlOf q) }
  | .module decl =>
    { p with
      modules := p.modules ++ [decl]
      tables :=
        match wavetableOf? tables decl with
        | some table => p.tables.insert decl.id table
        | none => p.tables }
  | .cable c =>
    if p.hasEnvelope c.source.module then { p with envelopes := p.envelopes ++ [c] }
    else { p with cables := p.cables ++ [c] }
  | .tweak t => { p with tweaks := p.tweaks ++ [t] }
  | .comment _ => p

/-- The patch of a list of statements. -/
def ofStatements (tables : Wavetables α) (limits : Limits α) (statements : List (Statement α)) :
    Patch α :=
  statements.foldl (add tables) (bare limits)

/-- The patch of a text on a rack, or what is wrong with the text. -/
def compile (rack : Rack Float) (source : String) : Except ParseError (Patch Float) :=
  (Checker.parse rack.registry source).map (ofStatements rack.wavetables rack.config.limits)

/-! ## What a patch is made of -/

/-- A part of a patch that each statement can only add to is made up of what the statements add. -/
theorem foldl_add_append {β : Type} {tables : Wavetables α} (field : Patch α → List β)
    (part : Statement α → Option β)
    (one : ∀ p s, field (add tables p s) = field p ++ (part s).toList) (p : Patch α)
    (statements : List (Statement α)) :
    field (statements.foldl (add tables) p) = field p ++ statements.filterMap part := by
  induction statements generalizing p with
  | nil => simp
  | cons s rest ih =>
      rw [List.foldl_cons, ih, one, List.append_assoc]
      cases h : part s <;> simp [h]

section OfStatements

variable (tables : Wavetables α) (limits : Limits α) (statements : List (Statement α))

@[simp]
theorem parameters_ofStatements :
    (ofStatements tables limits statements).parameters =
      statements.filterMap Statement.parameter? := by
  refine foldl_add_append Patch.parameters Statement.parameter? (fun p s => ?_) _ _
  cases s <;> simp only [add] <;> (try split) <;> simp [Statement.parameter?]

@[simp]
theorem modules_ofStatements :
    (ofStatements tables limits statements).modules =
      statements.filterMap Statement.module? := by
  refine foldl_add_append Patch.modules Statement.module? (fun p s => ?_) _ _
  cases s <;> simp only [add] <;> (try split) <;> simp [Statement.module?]

@[simp]
theorem tweaks_ofStatements :
    (ofStatements tables limits statements).tweaks = statements.filterMap Statement.tweak? := by
  refine foldl_add_append Patch.tweaks Statement.tweak? (fun p s => ?_) _ _
  cases s <;> simp only [add] <;> (try split) <;> simp [Statement.tweak?]

/-- No cable is lost or doubled when those of envelopes are kept apart. -/
theorem cables_append_envelopes_perm :
    ((ofStatements tables limits statements).envelopes ++
      (ofStatements tables limits statements).cables).Perm
        (statements.filterMap Statement.cable?) := by
  suffices general : ∀ p : Patch α,
      ((statements.foldl (add tables) p).envelopes ++
        (statements.foldl (add tables) p).cables).Perm
          (p.envelopes ++ p.cables ++ statements.filterMap Statement.cable?) from
    general (bare limits)
  induction statements with
  | nil => simp
  | cons s rest ih =>
      intro p
      refine (ih (add tables p s)).trans ?_
      cases s with
      | cable c =>
          simp only [add, Statement.cable?, List.filterMap_cons]
          split
          · simp only [List.append_assoc, List.singleton_append]
            exact List.perm_middle.symm.append_left _
          · simp
      | _ => simp [add, Statement.cable?, List.filterMap_cons]

end OfStatements

/-! ## Looking up -/

/-- Kind of a module, or of the sink. -/
def kindOf? (p : Patch α) (id : String) : Option Kind :=
  if id = sinkId then some .audio else (p.modules.find? (·.id = id)).map (·.kind)

/-- The parameter may be changed while a voice sounds. -/
def isMutable (p : Patch α) (name : String) : Bool :=
  p.controls[name]?.any (·.mutable)

/-- The values of the parameters where nothing else is said. -/
def defaults (p : Patch α) : Named α :=
  p.controls.map fun _ c => c.default

/-- The bounds of a parameter. -/
def range? (p : Patch α) (name : String) : Option (α × α) :=
  p.controls[name]?.map fun c => (c.min, c.max)

end Patch
end SynthPatch
