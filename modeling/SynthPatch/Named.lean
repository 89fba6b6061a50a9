import Std.Data.ExtTreeMap
/-!
# Tables by name

Parameters, modules and properties are kept by name.  A table is read in the order of the names'
characters, and two tables that give every name the same entry are equal.

Main results:

- Theorems {lit}`Table.insert_comm`, {lit}`Table.insert_erase_comm`, {lit}`Table.erase_comm`: what
  is done to different keys may be done in either order.
- Theorem {lit}`Named.mem_values`: the values of a table are its entries.
-/

namespace SynthPatch

/-- Entries by name, read in the order of the names' characters. -/
abbrev Named (β : Type) :=
  Std.ExtTreeMap String β

/-! ## Changes of different keys -/

namespace Table

variable {κ β : Type} [Ord κ] [Std.TransOrd κ] [Std.LawfulEqOrd κ] (t : Std.ExtTreeMap κ β)
  {a b : κ}

theorem insert_comm (apart : a ≠ b) (x y : β) :
    (t.insert a x).insert b y = (t.insert b y).insert a x := by
  refine Std.ExtTreeMap.ext_getElem? fun c => ?_
  simp only [Std.ExtTreeMap.getElem?_insert, Std.LawfulEqCmp.compare_eq_iff_eq]
  grind

theorem insert_erase_comm (apart : a ≠ b) (x : β) :
    (t.insert a x).erase b = (t.erase b).insert a x := by
  refine Std.ExtTreeMap.ext_getElem? fun c => ?_
  simp only [Std.ExtTreeMap.getElem?_insert, Std.ExtTreeMap.getElem?_erase,
    Std.LawfulEqCmp.compare_eq_iff_eq]
  grind

theorem erase_comm : (t.erase a).erase b = (t.erase b).erase a := by
  refine Std.ExtTreeMap.ext_getElem? fun c => ?_
  simp only [Std.ExtTreeMap.getElem?_erase]
  grind

/-- A change that leaves the entry it is meant for leaves the table. -/
theorem modify_eq_self {f : β → β} (idle : ∀ x, t[a]? = some x → f x = x) : t.modify a f = t := by
  refine Std.ExtTreeMap.ext_getElem? fun c => ?_
  rw [Std.ExtTreeMap.getElem?_modify]
  split
  · next here =>
      obtain rfl := Std.LawfulEqCmp.compare_eq_iff_eq.1 here
      exact (Option.map_congr idle).trans Option.map_id'
  · rfl

end Table

/-! ## Values -/

namespace Named

variable {β γ : Type} {t : Named β}

theorem values_eq (t : Named β) : t.values = t.toList.map Prod.snd := by
  have folded : t.values = t.foldr (fun _ x rest => x :: rest) [] := by
    obtain ⟨inner⟩ := t
    exact inner.inductionOn fun _ => rfl
  rw [folded, Std.ExtTreeMap.foldr_eq_foldr_toList, List.map_eq_foldr]

theorem values_map (t : Named β) (f : β → γ) :
    Std.ExtTreeMap.values (t.map fun _ x => f x) = t.values.map f := by
  rw [values_eq, values_eq, Std.ExtTreeMap.toList_map, List.map_map, List.map_map]
  rfl

/-- The values of a table are its entries. -/
theorem mem_values {x : β} : x ∈ t.values ↔ ∃ name : String, t[name]? = some x := by
  rw [values_eq, List.mem_map]
  constructor
  · rintro ⟨⟨name, y⟩, mem, rfl⟩
    exact ⟨name, Std.ExtTreeMap.mem_toList_iff_getElem?_eq_some.1 mem⟩
  · rintro ⟨name, found⟩
    exact ⟨(name, x), Std.ExtTreeMap.mem_toList_iff_getElem?_eq_some.2 found, rfl⟩

end Named
end SynthPatch
