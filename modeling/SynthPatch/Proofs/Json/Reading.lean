import SynthPatch.Proofs.Json.Figures
/-!
# Reading back what was written

A document that is built from texts, truth values and finite numbers is read back from the text
that is written for it, line breaks, indents and escapes notwithstanding.  Two such documents are
therefore never written the same way.

Main results:

- Definition {lit}`Json.Proper`: a document that is built from values.
- Theorem {lit}`Json.readValue_prettyAt`: a document is read wherever it stands in a text.
- Theorem {lit}`Json.read?_pretty`: a document is read back from its text.
- Theorem {lit}`Json.pretty_injective`: documents of one text are the same.
-/

namespace SynthPatch
namespace Json

/-! ## Documents of values -/

/-- A document that is built from values: numbers have their form, and quoted texts are escaped. -/
inductive Proper : Json → Prop where
  | null : Proper .null
  | bool (b : Bool) : Proper (.bool b)
  | number {text : List Char} (numeric : Numeric text) : Proper (.number text)
  | string (s : List Char) : Proper (.string (Quoted.encode s))
  | array {items : List Json} (each : ∀ x ∈ items, Proper x) : Proper (.array items)
  | object {fields : List (List Char × Json)} (names : ∀ f ∈ fields, ∃ s, f.1 = Quoted.encode s)
      (each : ∀ f ∈ fields, Proper f.2) : Proper (.object fields)

@[simp]
theorem Proper.ofString (s : String) : Proper (.ofString s) :=
  .string s.toList

@[simp]
theorem Proper.ofFloat (x : Float) : Proper (.ofFloat x) := by
  unfold Json.ofFloat
  split
  · next finite => exact .number (Layout.document.numeric_write finite)
  · exact .null

theorem Proper.ofFields {fields : List (String × Json)} (each : ∀ f ∈ fields, Proper f.2) :
    Proper (.ofFields fields) := by
  refine .object (fun f mem => ?_) fun f mem => ?_
  · obtain ⟨g, -, rfl⟩ := List.mem_map.1 mem
    exact ⟨_, rfl⟩
  · obtain ⟨g, source, rfl⟩ := List.mem_map.1 mem
    exact each g source

theorem Proper.map {β : Type} {f : β → Json} (each : ∀ b, Proper (f b)) (l : List β) :
    Proper (.array (l.map f)) := by
  refine .array fun x mem => ?_
  obtain ⟨b, -, rfl⟩ := List.mem_map.1 mem
  exact each b

/-! ## Quoted texts -/

theorem splitQuoted?_plain {c : Char} (quote : c ≠ '"') (escape : c ≠ '\\')
    (printed : ¬ c.toNat < 0x20) (s : List Char) :
    splitQuoted? (c :: s) = (splitQuoted? s).map fun (body, rest) => (c :: body, rest) := by
  rw [splitQuoted?.eq_def]
  split <;> simp_all

theorem splitQuoted?_escaped {e : Char} (known : (Quoted.escaped? e).isSome = true)
    (named : e ≠ 'u') (s : List Char) :
    splitQuoted? ('\\' :: e :: s) =
      (splitQuoted? s).map fun (body, rest) => ('\\' :: e :: body, rest) := by
  rw [splitQuoted?.eq_def]
  split <;> grind

/-- One escaped character is read as it stands. -/
theorem splitQuoted?_encodeChar (c : Char) (s : List Char) :
    splitQuoted? (Quoted.encodeChar c ++ s) =
      (splitQuoted? s).map fun (body, rest) => (Quoted.encodeChar c ++ body, rest) := by
  unfold Quoted.encodeChar
  split
  · exact splitQuoted?_escaped rfl (by decide) s
  · exact splitQuoted?_escaped rfl (by decide) s
  · exact splitQuoted?_escaped rfl (by decide) s
  · exact splitQuoted?_escaped rfl (by decide) s
  · exact splitQuoted?_escaped rfl (by decide) s
  · exact splitQuoted?_escaped rfl (by decide) s
  · exact splitQuoted?_escaped rfl (by decide) s
  · next quote escape _ _ _ _ _ =>
      split
      · next small =>
          have unit : ∀ n < 32, (Quoted.hexUnit? '0' '0' (Quoted.hexDigit (n / 16))
              (Quoted.hexDigit (n % 16))).isSome = true := by
            decide
          simp only [List.cons_append, List.nil_append, splitQuoted?, unit _ small, if_true]
      · next printed => exact splitQuoted?_plain quote escape printed s

/-- An escaped text is read up to the quote behind it. -/
theorem splitQuoted?_encode (s rest : List Char) :
    splitQuoted? (Quoted.encode s ++ '"' :: rest) = some (Quoted.encode s, rest) := by
  induction s with
  | nil => rfl
  | cons c s ih =>
      rw [Quoted.encode, List.flatMap_cons, List.append_assoc, splitQuoted?_encodeChar,
        ← Quoted.encode, ih, Option.map_some]

/-! ## Blanks -/

@[simp]
theorem skipSpace_newline (level : Nat) (s : List Char) :
    skipSpace (newline level ++ s) = skipSpace s := by
  have blank : ∀ c ∈ newline level, isSpace c = true := by
    intro c mem
    rcases List.mem_cons.1 mem with rfl | mem
    · rfl
    · rw [List.eq_of_mem_replicate mem]
      rfl
  rw [skipSpace, List.dropWhile_append_of_pos blank, skipSpace]

theorem skipSpace_cons {c : Char} (h : isSpace c = false) (s : List Char) :
    skipSpace (c :: s) = c :: s := by
  simp [skipSpace, h]

theorem readValue_newline (bound level : Nat) (s : List Char) :
    readValue bound (newline level ++ s) = readValue bound s := by
  cases bound with
  | zero => rfl
  | succ bound => simp only [readValue, skipSpace_newline]

theorem readValue_blank (bound : Nat) (s : List Char) :
    readValue bound (' ' :: s) = readValue bound s := by
  have blank : skipSpace (' ' :: s) = skipSpace s := by
    rw [skipSpace, List.dropWhile_cons_of_pos (by decide), skipSpace]
  cases bound with
  | zero => rfl
  | succ bound => simp only [readValue, blank]

theorem readItems_newline (bound level : Nat) (s : List Char) :
    readItems bound (newline level ++ s) = readItems bound s := by
  cases bound with
  | zero => rfl
  | succ bound => simp only [readItems, readValue_newline]

theorem readFields_newline (bound level : Nat) (s : List Char) :
    readFields bound (newline level ++ s) = readFields bound s := by
  cases bound with
  | zero => rfl
  | succ bound => simp only [readFields, skipSpace_newline]

/-! ## Parts -/

theorem stops_newline (level : Nat) (s : List Char) : Stops (newline level ++ s) := by
  intro c head
  cases head
  decide

/-- Behind an item or a field stands a comma or a line break. -/
theorem stops_comma (s : List Char) : Stops (',' :: s) := by
  intro c head
  cases head
  decide

/-- A document neither begins with a blank nor as if a list ended there. -/
theorem Proper.head {j : Json} (h : Proper j) (level : Nat) :
    ∃ c s, prettyAt level j = c :: s ∧ isSpace c = false ∧ c ≠ ']' := by
  cases h with
  | null => exact ⟨_, _, by rw [prettyAt]; rfl, by decide, by decide⟩
  | bool b => cases b <;> exact ⟨_, _, by rw [prettyAt]; rfl, by decide, by decide⟩
  | number numeric =>
      obtain ⟨c, more, rfl, first⟩ := numeric.head
      refine ⟨c, more, by rw [prettyAt], ?_⟩
      rcases first with digit | rfl
      · constructor
        · cases blank : isSpace c
          · rfl
          · simp only [isSpace, Bool.or_eq_true, beq_iff_eq] at blank
            rcases blank with ((rfl | rfl) | rfl) | rfl <;> exact absurd digit (by decide)
        · rintro rfl
          exact absurd digit (by decide)
      · decide
  | string s => exact ⟨_, _, by rw [prettyAt]; rfl, by decide, by decide⟩
  | @array items each =>
      cases items with
      | nil => exact ⟨_, _, by rw [prettyAt]; rfl, by decide, by decide⟩
      | cons x items => exact ⟨_, _, by rw [prettyAt]; rfl, by decide, by decide⟩
  | @object fields names each =>
      cases fields with
      | nil => exact ⟨'\x7b', ['\x7d'], by rw [prettyAt], by decide, by decide⟩
      | cons f fields => exact ⟨_, _, by rw [prettyAt]; rfl, by decide, by decide⟩

theorem Proper.skipSpace_prettyAt {j : Json} (h : Proper j) (level : Nat) (s : List Char) :
    skipSpace (prettyAt level j ++ s) = prettyAt level j ++ s := by
  obtain ⟨c, t, text, solid, -⟩ := h.head level
  rw [text]
  exact skipSpace_cons solid (t ++ s)

/-! ## Trees -/

mutual

/-- A document is read wherever it stands in a text. -/
theorem readValue_prettyAt {j : Json} (level bound : Nat) (rest : List Char) (h : Proper j)
    (stops : Stops rest) (room : (prettyAt level j).length < bound) :
    readValue bound (prettyAt level j ++ rest) = some (j, rest) := by
  cases bound with
  | zero => omega
  | succ bound =>
      rw [readValue, h.skipSpace_prettyAt]
      cases h with
      | null => simp [prettyAt, dropLiteral?]
      | bool b => cases b <;> simp [prettyAt, dropLiteral?]
      | number numeric =>
          have reads := numeric.splitNumber? stops
          obtain ⟨c, more, rfl, first⟩ := numeric.head
          have plain : c ≠ '\x7b' ∧ c ≠ '[' ∧ c ≠ '"' ∧ c ≠ 't' ∧ c ≠ 'f' ∧ c ≠ 'n' := by
            rcases first with digit | rfl
            · refine ⟨?_, ?_, ?_, ?_, ?_, ?_⟩ <;> rintro rfl <;> exact absurd digit (by decide)
            · decide
          obtain ⟨brace, bracket, quote, t, f, n⟩ := plain
          rw [prettyAt]
          rw [List.cons_append] at reads ⊢
          split <;> simp_all
      | string s => simp [prettyAt, quote, splitQuoted?_encode]
      | @array items each =>
          cases items with
          | nil => simp [prettyAt, skipSpace, isSpace]
          | cons x items =>
              obtain ⟨first, others⟩ := List.forall_mem_cons.1 each
              obtain ⟨c, t, text, -, more⟩ := first.head (level + 1)
              have room : (prettyAt (level + 1) x).length +
                  (prettyItems (level + 1) items).length + 1 < bound := by
                simp only [prettyAt, List.length_cons, List.length_append] at room
                omega
              have reads := readItems_prettyItems (level + 1) level bound rest first others room
              simp only [prettyAt, List.cons_append, List.append_assoc, skipSpace_newline,
                first.skipSpace_prettyAt, List.nil_append]
              rw [text, List.cons_append] at reads ⊢
              simp [reads, more]
      | @object fields names each =>
          cases fields with
          | nil => simp [prettyAt, skipSpace, isSpace]
          | cons f fields =>
              have room : (quote f.1).length + (prettyAt (level + 1) f.2).length +
                  (prettyFields (level + 1) fields).length + 1 < bound := by
                simp only [prettyAt, List.length_cons, List.length_append] at room
                omega
              have reads := readFields_prettyFields (level + 1) level bound rest names each room
              simp only [prettyAt, List.cons_append, List.append_assoc, skipSpace_newline, quote,
                List.nil_append] at reads ⊢
              rw [skipSpace_cons (by decide)]
              simp [reads]
termination_by bound

/-- Items are read up to the closing bracket. -/
theorem readItems_prettyItems {x : Json} {items : List Json} (level outer bound : Nat)
    (rest : List Char) (first : Proper x) (others : ∀ y ∈ items, Proper y)
    (room : (prettyAt level x).length + (prettyItems level items).length + 1 < bound) :
    readItems bound (prettyAt level x ++ (prettyItems level items ++
      (newline outer ++ ']' :: rest))) = some (x :: items, rest) := by
  cases bound with
  | zero => omega
  | succ bound =>
      cases items with
      | nil =>
          have reads := readValue_prettyAt level bound (newline outer ++ ']' :: rest) first
            (stops_newline _ _) (by omega)
          rw [readItems, prettyItems, List.nil_append, reads]
          simp [skipSpace_cons (show isSpace ']' = false by decide)]
      | cons y items =>
          obtain ⟨second, others⟩ := List.forall_mem_cons.1 others
          have room' :
              (prettyAt level y).length + (prettyItems level items).length + 1 < bound := by
            simp only [prettyItems, List.length_cons, List.length_append] at room
            omega
          have reads := readValue_prettyAt level bound (',' :: (newline level ++
            (prettyAt level y ++ (prettyItems level items ++ (newline outer ++ ']' :: rest)))))
            first (stops_comma _) (by omega)
          have reads' := readItems_prettyItems level outer bound rest second others room'
          rw [← readItems_newline bound level] at reads'
          simp only [readItems, prettyItems, List.cons_append, List.append_assoc, reads]
          simp [skipSpace_cons (show isSpace ',' = false by decide), reads']
termination_by bound

/-- Fields are read up to the closing brace. -/
theorem readFields_prettyFields {f : List Char × Json} {fields : List (List Char × Json)}
    (level outer bound : Nat) (rest : List Char)
    (names : ∀ g ∈ f :: fields, ∃ s, g.1 = Quoted.encode s)
    (each : ∀ g ∈ f :: fields, Proper g.2)
    (room : (quote f.1).length + (prettyAt level f.2).length +
      (prettyFields level fields).length + 1 < bound) :
    readFields bound (quote f.1 ++ (':' :: ' ' :: (prettyAt level f.2 ++
      (prettyFields level fields ++ (newline outer ++ '\x7d' :: rest))))) =
        some (f :: fields, rest) := by
  obtain ⟨name, x⟩ := f
  obtain ⟨⟨s, rfl⟩, named⟩ := List.forall_mem_cons.1 names
  obtain ⟨first, others⟩ := List.forall_mem_cons.1 each
  cases bound with
  | zero => omega
  | succ bound =>
      have colon := skipSpace_cons (show isSpace ':' = false by decide)
      cases fields with
      | nil =>
          have reads := readValue_prettyAt level bound (newline outer ++ '\x7d' :: rest) first
            (stops_newline _ _) (by omega)
          rw [← readValue_blank] at reads
          simp only [readFields, quote, prettyFields, List.cons_append, List.append_assoc,
            List.nil_append, skipSpace_cons (show isSpace '"' = false by decide),
            splitQuoted?_encode]
          simp [colon, reads, skipSpace_cons (show isSpace '\x7d' = false by decide)]
      | cons g fields =>
          have room' : (quote g.1).length + (prettyAt level g.2).length +
              (prettyFields level fields).length + 1 < bound := by
            simp only [prettyFields, List.length_cons, List.length_append] at room
            omega
          have reads := readValue_prettyAt level bound (',' :: (newline level ++ (quote g.1 ++
            (':' :: ' ' :: (prettyAt level g.2 ++ (prettyFields level fields ++
              (newline outer ++ '\x7d' :: rest))))))) first (stops_comma _) (by omega)
          have reads' := readFields_prettyFields level outer bound rest named others room'
          rw [← readValue_blank] at reads
          rw [← readFields_newline bound level] at reads'
          simp only [readFields, quote, prettyFields, List.cons_append, List.append_assoc,
            List.nil_append, skipSpace_cons (show isSpace '"' = false by decide),
            splitQuoted?_encode] at reads reads' ⊢
          simp [colon, reads, reads', skipSpace_cons (show isSpace ',' = false by decide)]
termination_by bound

end

/-! ## Documents -/

/-- A document is read back from its text. -/
theorem read?_pretty {j : Json} (h : Proper j) : read? j.pretty = some j := by
  have reads := readValue_prettyAt 0 ((prettyAt 0 j).length + 1) [] h (by simp [Stops]) (by omega)
  rw [List.append_nil] at reads
  simp [read?, pretty, reads, skipSpace]

/-- Documents of one text are the same. -/
theorem pretty_injective {i j : Json} (hi : Proper i) (hj : Proper j) (text : i.pretty = j.pretty) :
    i = j := by
  have reads := read?_pretty hi
  rw [text, read?_pretty hj] at reads
  exact (Option.some.inj reads).symm

end Json
end SynthPatch
