/-!
# Queues

A queue is a list in which the entries that go before a new one stand first.  The place of the new
entry is found by halving; where the entries do not stand in order the place depends on which of
them were looked at.

Main results:

- Theorem {lit}`Queue.insert_of_split`: a new entry stands behind those that go before it.
- Theorem {lit}`Queue.insert_perm`: a queue gains the new entry and loses none.
- Theorem {lit}`Queue.mem_insert`: what is in a queue after an insertion.
-/

namespace SynthPatch
namespace Queue

variable {β : Type}

/-! ## Halving -/

/-- The first index without a property, among so many indices from a base on, if the indices that
have it come first.  The first argument bounds the number of steps. -/
def bisect (p : Nat → Bool) : Nat → (size base : Nat) → Nat
  | 0, _, base => base
  | steps + 1, size, base =>
    if size ≤ 1 then (if p base then base + 1 else base)
    else bisect p steps (size - size / 2) (if p (base + size / 2) then base + size / 2 else base)

theorem bisect_eq {p : Nat → Bool} {n : Nat} (hp : ∀ i, p i = true ↔ i < n) {steps : Nat} :
    ∀ {size base : Nat}, size < steps → base ≤ n → n ≤ base + size →
      bisect p steps size base = n := by
  induction steps with
  | zero => intro size base h; omega
  | succ steps ih =>
    intro size base bound low high
    unfold bisect
    split
    · have at_base := hp base
      split <;> grind
    · have at_middle := hp (base + size / 2)
      split <;> exact ih (by omega) (by grind) (by grind)

/-! ## Insertion -/

/-- The place of a new entry. -/
def place (goesBefore : β → Bool) (queue : List β) : Nat :=
  bisect (fun i => queue[i]?.any goesBefore) (queue.length + 1) queue.length 0

/-- Put an entry at its place. -/
def insert (goesBefore : β → Bool) (entry : β) (queue : List β) : List β :=
  queue.take (place goesBefore queue) ++ entry :: queue.drop (place goesBefore queue)

theorem place_of_split {goesBefore : β → Bool} {front back : List β}
    (before : ∀ x ∈ front, goesBefore x = true) (behind : ∀ x ∈ back, goesBefore x = false) :
    place goesBefore (front ++ back) = front.length := by
  refine bisect_eq (fun i => ?_) (by omega) (by omega) (by simp)
  by_cases h : i < front.length
  · simp [List.getElem?_append_left h, h, before]
  · rw [List.getElem?_append_right (by omega)]
    cases hx : back[i - front.length]? with
    | none => simp [h]
    | some x => simp [behind x (List.mem_of_getElem? hx), h]

/-- A new entry stands behind those that go before it. -/
theorem insert_of_split {goesBefore : β → Bool} {front back : List β} (entry : β)
    (before : ∀ x ∈ front, goesBefore x = true) (behind : ∀ x ∈ back, goesBefore x = false) :
    insert goesBefore entry (front ++ back) = front ++ entry :: back := by
  simp [insert, place_of_split before behind]

/-- A queue gains the new entry and loses none. -/
theorem insert_perm (goesBefore : β → Bool) (entry : β) (queue : List β) :
    (insert goesBefore entry queue).Perm (entry :: queue) := by
  unfold insert
  refine List.perm_middle.trans ?_
  rw [List.take_append_drop]

/-- What is in a queue after an insertion. -/
@[simp]
theorem mem_insert {goesBefore : β → Bool} {entry x : β} {queue : List β} :
    x ∈ insert goesBefore entry queue ↔ x = entry ∨ x ∈ queue := by
  rw [(insert_perm goesBefore entry queue).mem_iff, List.mem_cons]

end Queue
end SynthPatch
