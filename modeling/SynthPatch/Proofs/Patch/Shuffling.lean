import SynthPatch.Proofs.Tables
import SynthPatch.Proofs.Voice.Wiring
/-!
# The order of statements

Statements have to stand in an order in which everything is declared before it is used.  Of two such
orders of the same statements one makes as good a patch as the other: no table depends on it, and of
each part of the patch only the order does.

Main results:

- Structure {lit}`Patch.Shuffled`: two patches that differ in orders only.
- Theorem {lit}`Patch.shuffled_ofStatements`: the same statements make such patches.
- Theorem {lit}`Patch.Shuffled.isValid_eq`: both can be played or neither can.
-/

namespace SynthPatch

namespace Statement

variable {α : Type} {S T : List (Statement α)}

/-- The statement says nothing about the patch. -/
def isComment : Statement α → Bool
  | .comment _ => true
  | _ => false

/-- Both texts make the same statements, comments apart, if perhaps in another order. -/
def Reordered (S T : List (Statement α)) : Prop :=
  (S.filter (!·.isComment)).Perm (T.filter (!·.isComment))

instance [DecidableEq α] : Decidable (Reordered S T) :=
  inferInstanceAs (Decidable (List.Perm _ _))

/-- What comments do not add to is the same up to order. -/
theorem Reordered.parts (h : Reordered S T) {β : Type} {part : Statement α → Option β}
    (none : ∀ text, part (.comment text) = none) : (S.filterMap part).Perm (T.filterMap part) := by
  have told (U : List (Statement α)) :
      (U.filter (!·.isComment)).filterMap part = U.filterMap part := by
    rw [List.filterMap_filter]
    refine List.filterMap_congr fun s _ => ?_
    cases s with
    | comment text => exact (none text).symm
    | _ => rfl
  rw [← told S, ← told T]
  exact List.Perm.filterMap part h

/-- The wavetable that a statement gives to a module. -/
def table? (tables : Wavetables α) (s : Statement α) : Option (String × Wavetable α) :=
  s.module?.bind fun decl =>
    (Patch.wavetableOf? tables decl).map fun table => (decl.id, table)

theorem table?_module {tables : Wavetables α} {decl : ModuleDecl} {played : Option (Wavetable α)}
    (h : Patch.wavetableOf? tables decl = played) :
    table? tables (.module decl) = played.map fun table => (decl.id, table) := by
  rw [← h]
  rfl

/-- No module is given two wavetables. -/
theorem nodup_tables (tables : Wavetables α) (names : ((S.filterMap module?).map (·.id)).Nodup) :
    ((S.filterMap (table? tables)).map (·.1)).Nodup := by
  refine List.Nodup.sublist ?_ names
  clear names
  induction S with
  | nil => exact .slnil
  | cons s rest ih =>
      cases s with
      | module decl =>
          cases played : Patch.wavetableOf? tables decl with
          | none =>
              rw [List.filterMap_cons_none (table?_module played)]
              exact ih.cons decl.id
          | some table =>
              rw [List.filterMap_cons_some (table?_module played)]
              exact ih.cons_cons decl.id
      | _ => exact ih

end Statement

namespace Patch

open Statement

variable {α β : Type}

/-- Two patches that are the same up to the order of their parts. -/
structure Shuffled (p q : Patch α) : Prop where
  header : p.header = q.header
  parameters : p.parameters.Perm q.parameters
  modules : p.modules.Perm q.modules
  cables : p.cables.Perm q.cables
  envelopes : p.envelopes.Perm q.envelopes
  tweaks : p.tweaks.Perm q.tweaks
  controls : p.controls = q.controls
  tables : p.tables = q.tables

/-! ## From statements to parts -/

section Parts

variable (tables : Wavetables α) (limits : Limits α) {S T : List (Statement α)}

theorem header_ofStatements (S : List (Statement α)) :
    (ofStatements tables limits S).header =
      (S.filterMap header?).foldl (fun _ h => h) { shortname := "" } := by
  suffices general : ∀ p : Patch α, (S.foldl (add tables) p).header =
      (S.filterMap header?).foldl (fun _ h => h) p.header from general (bare limits)
  induction S with
  | nil => exact fun _ => rfl
  | cons s rest ih =>
      intro p
      rw [List.foldl_cons, ih]
      cases s with
      | cable c => simp only [add]; split <;> rfl
      | _ => rfl

theorem controls_ofStatements (S : List (Statement α)) :
    (ofStatements tables limits S).controls =
      (S.filterMap parameter?).foldl (fun t q => t.insert q.name (controlOf q))
        (implicitControls limits) := by
  suffices general : ∀ p : Patch α, (S.foldl (add tables) p).controls =
      (S.filterMap parameter?).foldl (fun t q => t.insert q.name (controlOf q)) p.controls from
    general (bare limits)
  induction S with
  | nil => exact fun _ => rfl
  | cons s rest ih =>
      intro p
      rw [List.foldl_cons, ih]
      cases s with
      | cable c => simp only [add]; split <;> rfl
      | _ => rfl

theorem tables_ofStatements (S : List (Statement α)) :
    (ofStatements tables limits S).tables =
      (S.filterMap (table? tables)).foldl (fun t b => t.insert b.1 b.2) ∅ := by
  suffices general : ∀ p : Patch α, (S.foldl (add tables) p).tables =
      (S.filterMap (table? tables)).foldl (fun t b => t.insert b.1 b.2) p.tables from
    general (bare limits)
  induction S with
  | nil => exact fun _ => rfl
  | cons s rest ih =>
      intro p
      rw [List.foldl_cons, ih]
      cases s with
      | cable c => simp only [add]; split <;> rfl
      | module decl =>
          cases played : wavetableOf? tables decl with
          | none =>
              rw [List.filterMap_cons_none (table?_module played)]
              simp only [add, played]
          | some table =>
              rw [List.filterMap_cons_some (table?_module played), List.foldl_cons]
              simp only [add, played]
      | _ => rfl

/-- The same statements in another order sort the same cables in the same way. -/
theorem carries_reordered (same : Reordered S T) : carries S = carries T := by
  funext c
  exact (same.parts fun _ => rfl).any_eq

/-- The same statements make the same patch up to the order of its parts. -/
theorem shuffled_ofStatements (agree : WellFormed .standard S) (agreeToo : WellFormed .standard T)
    (same : Reordered S T) :
    Shuffled (ofStatements tables limits S) (ofStatements tables limits T) := by
  have cables : (S.filterMap cable?).Perm (T.filterMap cable?) := same.parts fun _ => rfl
  obtain ⟨carried, apart⟩ := @split_of_wellFormed _ tables limits _ agree
  obtain ⟨carriedToo, apartToo⟩ := @split_of_wellFormed _ tables limits _ agreeToo
  refine ⟨?_, ?_, ?_, ?_, ?_, ?_, ?_, ?_⟩
  · have headers : (S.filterMap header?).Perm (T.filterMap header?) := same.parts fun _ => rfl
    have one : S.filterMap header? = T.filterMap header? := by
      rcases shape : S.filterMap header? with _ | ⟨h, _ | ⟨_, _⟩⟩
      · rw [shape] at headers
        exact headers.nil_eq
      · rw [shape] at headers
        exact headers.singleton_eq
      · have single := agree.header
        simp [shape] at single
    rw [header_ofStatements, header_ofStatements, one]
  · rw [parameters_ofStatements, parameters_ofStatements]
    exact same.parts fun _ => rfl
  · rw [modules_ofStatements, modules_ofStatements]
    exact same.parts fun _ => rfl
  · rw [carried, carriedToo, carries_reordered same]
    exact cables.filter _
  · rw [apart, apartToo, carries_reordered same]
    exact cables.filter _
  · rw [tweaks_ofStatements, tweaks_ofStatements]
    exact same.parts fun _ => rfl
  · rw [controls_ofStatements, controls_ofStatements]
    exact Keyed.foldl_insert_perm (same.parts fun _ => rfl) agree.parameterNames controlOf _
  · rw [tables_ofStatements, tables_ofStatements]
    exact Keyed.foldl_insert_perm (same.parts fun _ => rfl)
      (nodup_tables tables agree.moduleNames) Prod.snd _

end Parts

/-! ## What the order leaves -/

namespace Shuffled

variable {p q : Patch α} (h : Shuffled p q)

include h

theorem symm : Shuffled q p where
  header := h.header.symm
  parameters := h.parameters.symm
  modules := h.modules.symm
  cables := h.cables.symm
  envelopes := h.envelopes.symm
  tweaks := h.tweaks.symm
  controls := h.controls.symm
  tables := h.tables.symm

/-- Patches that are shuffled are so in every arithmetic. -/
theorem map (f : α → β) : Shuffled (p.map f) (q.map f) where
  header := h.header
  parameters := h.parameters.map _
  modules := h.modules
  cables := h.cables
  envelopes := h.envelopes
  tweaks := h.tweaks.map _
  controls := congrArg (·.map fun _ c => c.map f) h.controls
  tables := congrArg (·.map fun _ t => t.map f) h.tables

/-- Both patches can be played, or neither can. -/
theorem isValid_eq : p.isValid = q.isValid := by
  have modules : p.modules = [] ↔ q.modules = [] := by
    rw [← List.length_eq_zero_iff, h.modules.length_eq, List.length_eq_zero_iff]
  have fed : p.feedsSink = q.feedsSink := h.cables.any_eq
  have errors : p.unknownTables.Perm q.unknownTables := by
    rw [unknownTables, unknownTables, h.tables]
    exact h.modules.filterMap _
  have unknown : p.unknownTables = [] ↔ q.unknownTables = [] := by
    rw [← List.length_eq_zero_iff, errors.length_eq, List.length_eq_zero_iff]
  rw [Bool.eq_iff_iff, isValid_iff, isValid_iff, fed, ne_eq, ne_eq, modules, unknown]

end Shuffled
end Patch
end SynthPatch
