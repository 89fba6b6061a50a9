import SynthPatch.Patch.Report
import SynthPatch.Proofs.Double.Order
import SynthPatch.Proofs.Patch.Assembly
/-!
# Warnings about ranges

The least value of a parameter, its default and its greatest value should stand in this order.  A
warning is given for each two of them of which the comparison says that they do not.  The text of
a patch may also give a value that is not a number, and such a value compares with nothing.

Main results:

- Theorem {lit}`Patch.rangeWarnings_eq`: what is said about the range of a parameter.
- Theorem {lit}`Patch.rangeWatched_of_compile`: there is no warning exactly if each two of the
  values are in order, or one of them is not a number.
-/

namespace SynthPatch

namespace PatchWarning

variable {α : Type}

/-- Name of the parameter whose range the warning is about. -/
def range? : PatchWarning α → Option String
  | unused _ | silent => none
  | maxBelowMin name _ _ | defaultBelowMin name _ _ | defaultAboveMax name _ _ => some name

end PatchWarning

namespace Patch

variable {α : Type} [Scalar α]

/-- The warnings of a patch about the range of the parameter of a name. -/
def rangeWarnings (p : Patch α) (name : String) : List (PatchWarning α) :=
  p.warnings.filter (·.range? = some name)

/-- What is odd about the bounds of a parameter is said under its name. -/
theorem range?_of_mem_boundWarnings {q : Parameter α} {w : PatchWarning α}
    (mem : w ∈ boundWarnings q) : w.range? = some q.name := by
  simp only [boundWarnings, List.mem_append] at mem
  rcases mem with (mem | mem) | mem
  all_goals
    split at mem
    · rw [List.mem_singleton.1 mem]
      rfl
    · cases mem

/-- What is odd about other parameters is not said under the name. -/
theorem filter_boundWarnings_of_ne {name : String} {others : List (Parameter α)}
    (apart : ∀ q ∈ others, q.name ≠ name) :
    (others.flatMap boundWarnings).filter (·.range? = some name) = [] := by
  rw [List.filter_eq_nil_iff]
  intro w mem about
  obtain ⟨q, memQ, memW⟩ := List.mem_flatMap.1 mem
  rw [range?_of_mem_boundWarnings memW, decide_eq_true_iff, Option.some_inj] at about
  exact apart q memQ about

/-- The general warnings are not about a range. -/
theorem rangeWarnings_eq_filter (p : Patch α) (name : String) :
    p.rangeWarnings name =
      (p.parameters.flatMap boundWarnings).filter (·.range? = some name) := by
  have unused (names : List String) :
      (names.map (PatchWarning.unused (α := α))).filter (·.range? = some name) = [] := by
    simp [List.filter_map, Function.comp_def, PatchWarning.range?]
  have silent : (if p.feedsSink then [] else [PatchWarning.silent (α := α)]).filter
      (·.range? = some name) = [] := by
    split <;> simp [PatchWarning.range?]
  rw [rangeWarnings, warnings, List.filter_append, List.filter_append, unused, silent,
    List.nil_append, List.nil_append]

/-- The warnings about the range of a parameter are those about its own bounds, if no two
parameters share a name. -/
theorem rangeWarnings_eq {p : Patch α} (names : (p.parameters.map (·.name)).Nodup)
    {q : Parameter α} (mem : q ∈ p.parameters) : p.rangeWarnings q.name = boundWarnings q := by
  obtain ⟨before, after, shape⟩ := List.append_of_mem mem
  rw [shape, List.map_append, List.map_cons] at names
  obtain ⟨-, fresh, disjoint⟩ := List.nodup_append'.1 names
  have apartBefore : ∀ r ∈ before, r.name ≠ q.name := by
    intro r memR same
    exact disjoint (List.mem_map.2 ⟨r, memR, same⟩) List.mem_cons_self
  have apartAfter : ∀ r ∈ after, r.name ≠ q.name := by
    intro r memR same
    exact (List.nodup_cons.1 fresh).1 (List.mem_map.2 ⟨r, memR, same⟩)
  have own : (boundWarnings q).filter (·.range? = some q.name) = boundWarnings q := by
    rw [List.filter_eq_self]
    intro w memW
    rw [range?_of_mem_boundWarnings memW, decide_eq_true_iff]
  rw [rangeWarnings_eq_filter, shape, List.flatMap_append, List.flatMap_cons, List.filter_append,
    List.filter_append, own, filter_boundWarnings_of_ne apartBefore,
    filter_boundWarnings_of_ne apartAfter, List.append_nil, List.nil_append]

/-- Nothing is odd about bounds if no two values are the wrong way round. -/
theorem boundWarnings_eq_nil_iff {q : Parameter α} :
    boundWarnings q = [] ↔ ¬ q.max < q.min ∧ ¬ q.default < q.min ∧ ¬ q.max < q.default := by
  simp only [boundWarnings, List.append_eq_nil_iff, ite_eq_right_iff, List.cons_ne_nil, imp_false,
    and_assoc]

/-- What the warnings about the range of a parameter tell. -/
structure RangeWatched (p : Patch Float) (q : Parameter Float) : Prop where
  /-- There is no warning exactly if each two of the values are in order, or one of the two is not
  a number. -/
  silent_iff : p.rangeWarnings q.name = [] ↔
    (q.min ≤ q.max ∨ q.min.isNaN = true ∨ q.max.isNaN = true) ∧
      (q.min ≤ q.default ∨ q.min.isNaN = true ∨ q.default.isNaN = true) ∧
        (q.default ≤ q.max ∨ q.default.isNaN = true ∨ q.max.isNaN = true)
  /-- Of numbers, there is no warning exactly if the default is within the bounds. -/
  silent_iff_within : q.min.isNaN = false → q.max.isNaN = false → q.default.isNaN = false →
    (p.rangeWarnings q.name = [] ↔ q.min ≤ q.default ∧ q.default ≤ q.max)
  /-- A default within the bounds is never warned of. -/
  silent_of_within : q.min ≤ q.default → q.default ≤ q.max → p.rangeWarnings q.name = []

/-- Nothing is odd about a parameter exactly if each two of its values are in order, or one of the
two is not a number. -/
theorem boundWarnings_eq_nil_iff_le {q : Parameter Float} :
    boundWarnings q = [] ↔
      (q.min ≤ q.max ∨ q.min.isNaN = true ∨ q.max.isNaN = true) ∧
        (q.min ≤ q.default ∨ q.min.isNaN = true ∨ q.default.isNaN = true) ∧
          (q.default ≤ q.max ∨ q.default.isNaN = true ∨ q.max.isNaN = true) := by
  have inOrder (low high : Float) :
      ¬ high < low ↔ low ≤ high ∨ low.isNaN = true ∨ high.isNaN = true :=
    Double.not_lt_iff (a := .ofFloat low) (b := .ofFloat high)
  rw [boundWarnings_eq_nil_iff]
  exact and_congr (inOrder _ _) (and_congr (inOrder _ _) (inOrder _ _))

/-- A default within the bounds has them in order, or they cannot be compared. -/
theorem bounds_of_within {q : Parameter Float} (low : q.min ≤ q.default)
    (high : q.default ≤ q.max) :
    q.min ≤ q.max ∨ q.min.isNaN = true ∨ q.max.isNaN = true := by
  have middle : q.default.isNaN = false :=
    Double.defined_of_le (a := .ofFloat q.min) (b := .ofFloat q.default) low
  cases least : q.min.isNaN with
  | true => exact .inr (.inl rfl)
  | false =>
      cases most : q.max.isNaN with
      | true => exact .inr (.inr rfl)
      | false =>
          exact .inl (Double.le_trans (a := .ofFloat q.min) (b := .ofFloat q.default)
            (c := .ofFloat q.max) least middle most low high)

/-- The warnings about a range are complete for numbers: there is none exactly if the default is
within the bounds.  Of a value that is not a number nothing is said. -/
theorem rangeWatched_of_compile {rack : Rack Float} {source : String} {p : Patch Float}
    (compiled : compile rack source = .ok p) {q : Parameter Float} (mem : q ∈ p.parameters) :
    RangeWatched p q := by
  obtain ⟨statements, parsed, rfl⟩ := Outcome.map_eq_ok_iff.1 compiled
  have names := (Checker.wellFormed_of_parse parsed).parameterNames
  rw [← parameters_ofStatements rack.wavetables rack.config.limits] at names
  have own := rangeWarnings_eq names mem
  have within (low : q.min ≤ q.default) (high : q.default ≤ q.max) : boundWarnings q = [] :=
    boundWarnings_eq_nil_iff_le.2 ⟨bounds_of_within low high, .inl low, .inl high⟩
  constructor
  case silent_iff =>
    rw [own]
    exact boundWarnings_eq_nil_iff_le
  case silent_iff_within =>
    intro least most default
    rw [own]
    refine ⟨fun silent => ?_, fun ⟨low, high⟩ => within low high⟩
    have inOrder := boundWarnings_eq_nil_iff_le.1 silent
    simpa only [least, most, default, Bool.false_eq_true, or_false] using inOrder.2
  case silent_of_within =>
    intro low high
    rw [own]
    exact within low high

/-- The parameter of the tone has its default within its bounds, and no warning. -/
theorem rangeWatched_of_compile_tone :
    ∃ p q, compile .standard Checker.toneSource = .ok p ∧ q ∈ p.parameters ∧ q.name = "bend" ∧
      p.rangeWarnings "bend" = [] := by
  have facts : (compile .standard Checker.toneSource).toOption.any (fun p =>
      p.parameters.any fun q =>
        q.name = "bend" ∧ q.min ≤ q.default ∧ q.default ≤ q.max) = true := by
    decide +kernel
  obtain ⟨p, compiled, facts⟩ := (Option.any_eq_true _ _).1 facts
  obtain ⟨q, mem, facts⟩ := List.any_eq_true.1 facts
  obtain ⟨name, low, high⟩ := of_decide_eq_true facts
  have compiled := Outcome.toOption_eq_some_iff.1 compiled
  have silent := (rangeWatched_of_compile compiled mem).silent_of_within low high
  exact ⟨p, q, compiled, mem, name, name ▸ silent⟩

/-- A patch whose parameter has a default that is not a number. -/
def undefinedSource : String :=
  "@synth tone\n@end\n@param bend\nmin: 0\nmax: 1\ndefault: nan\n@end\nSIN-OSC: osc\n" ++
    "osc.out -> audio.in\nosc.pitch = param.pitch\naudio.level = param.level"

/-- The default is not within the bounds, the patch can be played, and there is no warning at
all. -/
theorem undefinedSource_silent :
    ∃ p q, compile .standard undefinedSource = .ok p ∧ q ∈ p.parameters ∧ q.name = "bend" ∧
      ¬ (q.min ≤ q.default ∧ q.default ≤ q.max) ∧ p.isValid = true ∧ p.warnings = [] := by
  have facts : (compile .standard undefinedSource).toOption.any (fun p =>
      (p.isValid && p.warnings.isEmpty) && p.parameters.any fun q =>
        q.name = "bend" ∧ ¬ (q.min ≤ q.default ∧ q.default ≤ q.max)) = true := by
    decide +kernel
  obtain ⟨p, compiled, facts⟩ := (Option.any_eq_true _ _).1 facts
  obtain ⟨whole, facts⟩ := Bool.and_eq_true_iff.1 facts
  obtain ⟨valid, silent⟩ := Bool.and_eq_true_iff.1 whole
  obtain ⟨q, mem, facts⟩ := List.any_eq_true.1 facts
  obtain ⟨name, outside⟩ := of_decide_eq_true facts
  exact ⟨p, q, Outcome.toOption_eq_some_iff.1 compiled, mem, name, outside, valid,
    List.isEmpty_iff.1 silent⟩

end Patch
end SynthPatch
