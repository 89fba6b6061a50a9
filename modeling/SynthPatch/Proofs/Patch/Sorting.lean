import SynthPatch.Proofs.Patch.Assembly
/-!
# Cables and what drives them

Cables are sorted as they come, by the modules that stand before them.  Since a cable comes behind
the modules it joins, and no two modules share a name, that sorts it as all modules of the text
would.

Main results:

- Function {lit}`Statement.drives`: the cable comes from an envelope.
- Theorem {lit}`Patch.split_by_envelopes`: the cables of a patch sorted by all of its modules.
-/

namespace SynthPatch

namespace Statement

variable {α : Type} {statements : List (Statement α)}

/-- The cable comes from a module that is declared as an envelope. -/
def drives (statements : List (Statement α)) (c : Cable) : Bool :=
  (statements.filterMap module?).any fun decl =>
    decl.id = c.source.module && decl.kind.isEnvelope

theorem drives_iff {c : Cable} : drives statements c = true ↔
    ∃ decl, .module decl ∈ statements ∧ decl.id = c.source.module ∧
      decl.kind.isEnvelope = true := by
  simp only [drives, List.any_eq_true, mem_filterMap_module?, Bool.and_eq_true, decide_eq_true_eq]

/-- Where the module that a cable comes from is declared, its kind tells. -/
theorem WellFormed.drives_eq {registry : Registry} (agree : WellFormed registry statements)
    {c : Cable} {decl : ModuleDecl} (mem : .module decl ∈ statements)
    (same : decl.id = c.source.module) : drives statements c = decl.kind.isEnvelope := by
  rw [Bool.eq_iff_iff, drives_iff]
  constructor
  · rintro ⟨other, here, sameToo, envelope⟩
    rwa [agree.eq_of_id_eq here mem (sameToo.trans same.symm)] at envelope
  · intro envelope
    exact ⟨decl, mem, same, envelope⟩

/-- A cable between modules comes from a declared one, or from the sink. -/
theorem CableFits.source_cases {registry : Registry} {c : Cable}
    (fits : CableFits registry statements c) :
    c.source.module = sinkId ∨ ∃ decl, .module decl ∈ statements ∧ decl.id = c.source.module := by
  obtain ⟨-, ⟨kind, ports, known, -⟩, -⟩ := fits
  generalize c.source.module = id at known
  cases known with
  | sink => exact .inl rfl
  | declared mem => exact .inr ⟨_, mem, rfl⟩

end Statement

namespace Patch

open Statement

variable {α : Type} {tables : Wavetables α} {limits : Limits α} {registry : Registry}
  {statements : List (Statement α)}

/-- A cable is told apart by the modules before it as by all modules of the text. -/
theorem hasEnvelope_eq_drives (agree : WellFormed registry statements)
    {front after : List (Statement α)} {c : Cable}
    (shape : statements = front ++ .cable c :: after) :
    (ofStatements tables limits front).hasEnvelope c.source.module = drives statements c := by
  have sub : ∀ {decl : ModuleDecl}, .module decl ∈ front → .module decl ∈ statements := by
    intro decl mem
    simp [shape, mem]
  rw [hasEnvelope, modules_ofStatements]
  rcases (agree.cables front c after shape).source_cases with sink | ⟨decl, mem, same⟩
  · -- No module has the name of the sink, so no envelope is found on either side.
    have none : (front.filterMap module?).find? (·.id = c.source.module) = none := by
      refine List.find?_eq_none.2 fun decl here => ?_
      simp [sink, agree.notSink decl (sub (mem_filterMap_module?.1 here))]
    have silent : drives statements c = false := by
      rw [← Bool.not_eq_true, drives_iff]
      rintro ⟨decl, here, same, -⟩
      exact agree.notSink decl here (same.trans sink)
    rw [none, silent]
    rfl
  · have found := agree.find?_front shape mem
    rw [same] at found
    rw [found, agree.drives_eq (sub mem) same]
    rfl

/-- The cables of a text are sorted by the kinds that the whole text declares. -/
theorem split_by_envelopes (agree : WellFormed registry statements) :
    (ofStatements tables limits statements).cables =
        (statements.filterMap cable?).filter (!drives statements ·) ∧
      (ofStatements tables limits statements).envelopes =
        (statements.filterMap cable?).filter (drives statements) := by
  suffices general : ∀ rest front, statements = front ++ rest →
      (rest.foldl (add tables) (ofStatements tables limits front)).cables =
          (ofStatements tables limits front).cables ++
            (rest.filterMap cable?).filter (!drives statements ·) ∧
        (rest.foldl (add tables) (ofStatements tables limits front)).envelopes =
          (ofStatements tables limits front).envelopes ++
            (rest.filterMap cable?).filter (drives statements) from
    general statements [] rfl
  intro rest
  induction rest with
  | nil => simp
  | cons s rest ih =>
      intro front shape
      have next : add tables (ofStatements tables limits front) s =
          ofStatements tables limits (front ++ [s]) := by
        simp [ofStatements]
      obtain ⟨cables, envelopes⟩ := ih (front ++ [s]) (by simpa using shape)
      rw [List.foldl_cons, next, cables, envelopes, ← next]
      cases s with
      | cable c =>
          have told : (ofStatements tables limits front).hasEnvelope c.source.module =
              drives statements c :=
            hasEnvelope_eq_drives agree shape
          cases driven : drives statements c <;> simp [add, told, driven, cable?]
      | _ => simp [add, cable?, List.filterMap_cons]

end Patch
end SynthPatch
