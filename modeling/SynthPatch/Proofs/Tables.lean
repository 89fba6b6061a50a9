import SynthPatch.Named
import Mathlib.Data.List.Nodup
import Mathlib.Data.List.Perm.Basic
/-!
# Tables from keyed rows

A row in which no key occurs twice is as good as a table: what is looked up in it, and the table it
makes, do not depend on its order.

Main results:

- Theorem {lit}`Keyed.find?_perm`: looking up a key does not depend on the order of a row.
- Theorem {lit}`Keyed.foldl_insert_perm`: nor does the table that a row makes.
- Theorem {lit}`Keyed.getElem?_foldl_insert`: what is found in a table that a row was added to.
-/

namespace SynthPatch
namespace Keyed

variable {β γ : Type} {key : β → String} {l l' : List β}

/-- A key that occurs once is found where it is. -/
theorem find?_eq_some_iff (once : (l.map key).Nodup) {id : String} {b : β} :
    l.find? (key · = id) = some b ↔ b ∈ l ∧ key b = id := by
  constructor
  · intro found
    exact ⟨List.mem_of_find?_eq_some found, by simpa using List.find?_some found⟩
  · rintro ⟨mem, rfl⟩
    cases found : l.find? (key · = key b) with
    | none => exact absurd (List.find?_eq_none.1 found b mem) (by simp)
    | some c =>
        have same : key c = key b := by simpa using List.find?_some found
        rw [List.inj_on_of_nodup_map once (List.mem_of_find?_eq_some found) mem same]

/-- Looking up a key does not depend on the order of a row. -/
theorem find?_perm (perm : l.Perm l') (once : (l.map key).Nodup) (id : String) :
    l.find? (key · = id) = l'.find? (key · = id) := by
  have onceToo : (l'.map key).Nodup := (perm.map key).nodup_iff.1 once
  refine Option.ext fun b => ?_
  rw [find?_eq_some_iff once, find?_eq_some_iff onceToo, perm.mem_iff]

/-- The table that a row makes does not depend on its order. -/
theorem foldl_insert_perm (perm : l.Perm l') (once : (l.map key).Nodup) (value : β → γ)
    (t : Named γ) :
    l.foldl (fun t b => t.insert (key b) (value b)) t =
      l'.foldl (fun t b => t.insert (key b) (value b)) t := by
  refine perm.foldl_eq' (fun b here c there t => ?_) t
  by_cases same : key b = key c
  · rw [List.inj_on_of_nodup_map once here there same]
  · exact Table.insert_comm t same (value b) (value c)

/-- A table that a row was added to gives what the row has under a key, and what it gave before
where the row has nothing. -/
theorem getElem?_foldl_insert (once : (l.map key).Nodup) (value : β → γ) (t : Named γ)
    (id : String) :
    (l.foldl (fun t b => t.insert (key b) (value b)) t)[id]? =
      ((l.find? (key · = id)).map value).or t[id]? := by
  induction l generalizing t with
  | nil => rfl
  | cons b rest ih =>
      obtain ⟨new, onceRest⟩ := List.nodup_cons.1 once
      rw [List.foldl_cons, ih onceRest, Std.ExtTreeMap.getElem?_insert]
      by_cases same : key b = id
      · have absent : rest.find? (key · = id) = none := by
          refine List.find?_eq_none.2 fun c mem => ?_
          have other : key c ≠ key b := fun same => new (same ▸ List.mem_map_of_mem mem)
          simpa [same] using other
        simp [absent, same]
      · have other : compare (key b) id ≠ .eq := by simpa using same
        simp [other, same]

end Keyed
end SynthPatch
