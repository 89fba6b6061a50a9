import SynthPatch.Proofs.Language.Steadiness
/-!
# Quotes that are closed further down

Where a quote is left open, a text behind can close it, and with it the block.  All that stood
between becomes the value of the attribute, and the block is the last entry.

Main results:

- Theorem {lit}`Grammar.reads_blockLine_closing`: the line with the open quote is read up to the
  closing one.
- Theorem {lit}`Grammar.exists_read_closing`: the entries up to the open quote are read as before,
  and then the block with the longer value.
-/

namespace SynthPatch

/-- The place is on one of the lines of a text. -/
def OnLine (s place : List Char) : Prop :=
  place <:+ s ∧ Lined place

theorem OnLine.mono {s t place : List Char} (h : OnLine s place) (sub : s <:+ t) :
    OnLine t place :=
  ⟨h.1.trans sub, h.2⟩

/-- A block on the lines of a text up to an open quote, and what stands behind the quote. -/
structure Cut (s : List Char) where
  place : List Char
  /-- A header or a parameter, of a name and attributes. -/
  make : String → List (Located Attribute) → Item
  name : String
  /-- The attributes before the one with the open quote. -/
  front : List (Located Attribute)
  /-- The place of the attribute with the open quote. -/
  last : List Char
  key : String
  inner : List Char
  isBlock : make = .synth ∨ make = .param
  feed : '\n' ∈ inner
  placed : OnLine s place
  frontPlaced : ∀ a ∈ front, OnLine s a.place
  lastPlaced : OnLine s last

namespace Cut

variable {s t : List Char}

/-- The attributes if the quote is closed behind some more text. -/
def fields (cut : Cut s) (text : List Char) : List (Located Attribute) :=
  cut.front ++ [⟨cut.last, ⟨cut.key, String.ofList (cut.inner ++ text)⟩⟩]

/-- The block if the quote is closed behind some more text. -/
def item (cut : Cut s) (text : List Char) : Located Item :=
  ⟨cut.place, cut.make cut.name (cut.fields text)⟩

/-- The same block as part of a longer text. -/
def mono (cut : Cut s) (sub : s <:+ t) : Cut t :=
  { cut with
    placed := cut.placed.mono sub
    frontPlaced := fun a mem => (cut.frontPlaced a mem).mono sub
    lastPlaced := cut.lastPlaced.mono sub }

end Cut

namespace Grammar

open Rule

variable {s r : List Char}

/-- Some text, a quote, and the end of the block in which the quote stands. -/
def closing (text : List Char) : List Char :=
  text ++ '"' :: '\n' :: "@end\n".toList

/-- An attribute with an open quote is read up to the quote that closes it. -/
theorem reads_field_closing {a : Attribute} (lined : Lined s) (read : field.Reads s a r)
    (isOpen : Located.IsOpen ⟨s, a⟩) : ∃ inner, '\n' ∈ inner ∧ ∀ text, '"' ∉ text →
      field.Reads (s ++ closing text) ⟨a.key, String.ofList (inner ++ text)⟩
        ('\n' :: "@end\n".toList) := by
  obtain ⟨front, back, inner, blank, noQuote, split⟩ := isOpen
  dsimp only at split
  have feed : '\n' ∈ inner := by
    have quote : Lined ('"' :: inner) := by
      refine lined.of_suffix ?_ (by simp)
      rw [split]
      exact ⟨a.key.toList ++ (front ++ ':' :: back), by simp⟩
    exact List.mem_of_getLast? (quote.of_cons (by decide))
  refine ⟨inner, feed, fun text fresh => ?_⟩
  obtain ⟨key, rest, named, read⟩ := reads_bind_iff.1 (reads_named_iff.1 read)
  obtain ⟨_, _, -, read⟩ := reads_bind_iff.1 read
  obtain ⟨_, _, -, read⟩ := reads_bind_iff.1 read
  obtain ⟨_, _, -, read⟩ := reads_bind_iff.1 read
  obtain ⟨rfl, -⟩ := reads_pure_iff.1 read
  obtain rfl : front ++ ':' :: (back ++ '"' :: inner) = rest :=
    List.append_cancel_left (split.symm.trans (eq_append_of_reads_identifier named))
  have name := steady_identifier.reads lined named (closing text)
  have shape : front ++ ':' :: (back ++ '"' :: inner) ++ closing text =
      front ++ (':' :: (back ++ ('"' :: ((inner ++ text) ++ '"' :: '\n' :: "@end\n".toList)))) := by
    simp [closing]
  rw [shape] at name
  have blanks {blank' : List Char} (sub : blank' ⊆ front ++ back) {c : Char} {behind : List Char}
      (stop : isGap c = false) : gap.Reads (blank' ++ c :: behind) () (c :: behind) :=
    (reads_row (fun c mem => blank c (sub mem)) (ends_cons.2 stop)).bind_pure _
  have colon : (mark ":").Reads (front ++ (':' :: (back ++ ('"' :: ((inner ++ text) ++
      '"' :: '\n' :: "@end\n".toList))))) () _ :=
    reads_mark (blanks (List.subset_append_left _ _) (by decide))
  have gapped : gap.Reads (back ++ ('"' :: ((inner ++ text) ++ '"' :: '\n' :: "@end\n".toList))) ()
      _ :=
    blanks (List.subset_append_right _ _) (by decide)
  have quote := reads_quoted (by simp [noQuote, fresh] : '"' ∉ inner ++ text)
    ('\n' :: "@end\n".toList)
  have valued : value.optional.Reads _ (some _) _ := quote.orElse_left.optional
  exact (name.bind (colon.bind (gapped.bind
    (valued.bind_pure fun found => Attribute.mk key (found.getD ""))))).named

/-- The line with an open quote is read up to the quote that closes it. -/
theorem reads_blockLine_closing {a : Located Attribute} (lined : Lined s)
    (read : blockLine.Reads s (some a) r) (isOpen : a.IsOpen) :
    ∃ inner, '\n' ∈ inner ∧ ∀ text, '"' ∉ text →
      blockLine.Reads (s ++ closing text)
        (some (Located.extend (closing text)
          ⟨a.place, ⟨a.item.key, String.ofList (inner ++ text)⟩⟩))
        "@end\n".toList := by
  obtain ⟨_, u, indented, read⟩ := reads_bind_iff.1 read
  obtain ⟨found, v, field, read⟩ := reads_bind_iff.1 read
  obtain ⟨_, w, -, read⟩ := reads_bind_iff.1 read
  obtain ⟨rfl, -⟩ := reads_pure_iff.1 read
  obtain ⟨b, same, one⟩ | ⟨none, -⟩ := reads_optional_iff.1 field
  swap
  · cases none
  cases same
  obtain ⟨place, item⟩ := a
  obtain ⟨rfl, one⟩ := reads_located_iff.1 one
  have lined' := steady_gap.keeps lined indented
  obtain ⟨inner, feed, longer⟩ := reads_field_closing lined' one isOpen
  refine ⟨inner, feed, fun text fresh => ?_⟩
  exact (steady_gap.reads lined indented (closing text)).bind <|
    (longer text fresh).located.optional.bind <| (reads_lineEnd _).bind (.pure _ _)

/-- Where something has a property, there is a first thing that has it. -/
theorem exists_first {β : Type} {P : β → Prop} {l : List β} (h : ∃ b ∈ l, P b) :
    ∃ front b back, l = front ++ b :: back ∧ P b ∧ ∀ c ∈ front, ¬ P c := by
  induction l with
  | nil =>
      obtain ⟨b, mem, -⟩ := h
      cases mem
  | cons first rest ih =>
      by_cases here : P first
      · exact ⟨[], first, rest, rfl, here, by simp⟩
      · obtain ⟨b, mem, has⟩ := h
        have later : b ∈ rest := by
          refine (List.mem_cons.1 mem).resolve_left ?_
          rintro rfl
          exact here has
        obtain ⟨front, c, back, rfl, has, none⟩ := ih ⟨b, later, has⟩
        exact ⟨first :: front, c, back, rfl, has, List.forall_mem_cons.2 ⟨here, none⟩⟩

/-- An attribute stands on its line. -/
theorem onLine_of_reads_blockLine {a : Located Attribute} (lined : Lined s)
    (read : blockLine.Reads s (some a) r) : OnLine s a.place := by
  refine ⟨place_of_reads_blockLine read, ?_⟩
  obtain ⟨_, u, indented, read⟩ := reads_bind_iff.1 read
  obtain ⟨found, v, field, read⟩ := reads_bind_iff.1 read
  obtain ⟨_, w, -, read⟩ := reads_bind_iff.1 read
  obtain ⟨rfl, -⟩ := reads_pure_iff.1 read
  obtain ⟨b, same, one⟩ | ⟨none, -⟩ := reads_optional_iff.1 field
  · cases same
    rw [(reads_located_iff.1 one).1]
    exact steady_gap.keeps lined indented
  · cases none

theorem onLine_of_chain {found : List (Option (Located Attribute))} (lined : Lined s)
    (read : blockLine.Chain s found r) (ended : Lined r) :
    ∀ a, some a ∈ found → OnLine s a.place := by
  induction read with
  | nil =>
      intro a mem
      cases mem
  | @cons s u r b rest one short more ih =>
      have filled : u ≠ [] := by
        rintro rfl
        exact ended.ne_nil (List.suffix_nil.1 (more.suffix inside_blockLine.left))
      have sub := inside_blockLine.suffix one
      intro a mem
      rcases List.mem_cons.1 mem with rfl | mem
      · exact onLine_of_reads_blockLine lined one
      · exact (ih (lined.of_suffix sub filled) ended a mem).mono sub

/-- A block with an open quote is cut short where the quote and the block are closed. -/
theorem reads_block_closing {opening name : String} {fields : List (Located Attribute)}
    (oneLine : '\n' ∉ opening.toList) (lined : Lined s)
    (read : (block opening).Reads s (name, fields) r) (isOpen : ∃ a ∈ fields, a.IsOpen)
    {make : String → List (Located Attribute) → Item} (isBlock : make = .synth ∨ make = .param) :
    ∃ cut : Cut s, cut.place = s ∧ cut.make = make ∧ cut.name = name ∧ ∀ text, '"' ∉ text →
      (block opening).Reads (s ++ closing text)
        (name, (cut.fields text).map (·.extend (closing text))) ['\n'] := by
  obtain ⟨lines, u, v, rfl, sub, linedU, linedV, chain, -, whole⟩ :=
    exists_lines_of_reads_block oneLine lined read
  have someOpen : ∃ line ∈ lines, ∃ a, line = some a ∧ a.IsOpen := by
    obtain ⟨a, mem, isOpen⟩ := isOpen
    exact ⟨some a, by simpa using mem, a, rfl, isOpen⟩
  clear isOpen
  obtain ⟨front, _, back, rfl, ⟨a, rfl, isOpen⟩, closed⟩ := exists_first someOpen
  have placed := onLine_of_chain linedU chain linedV
  obtain ⟨w, before, behind⟩ := Chain.append_iff.1 chain
  obtain _ | ⟨one, -, more⟩ := behind
  have linedW : Lined w := by
    refine linedU.of_suffix (before.suffix inside_blockLine.left) ?_
    rintro rfl
    cases length_lt_of_reads_blockLine one
  obtain ⟨inner, feed, longer⟩ := reads_blockLine_closing linedW one isOpen
  let cut : Cut s := {
    place := s, make, name, front := front.filterMap id, last := a.place, key := a.item.key, inner
    isBlock, feed
    placed := ⟨List.suffix_refl s, lined⟩
    frontPlaced := fun b mem => (placed b (by simp_all)).mono sub
    lastPlaced := (placed a (by simp)).mono sub }
  refine ⟨cut, rfl, rfl, rfl, fun text fresh => ?_⟩
  have before' := chain_blockLine_append linedU before linedW
    (fun b mem isOpen => closed _ mem ⟨b, rfl, isOpen⟩) (closing text)
  have last := longer text fresh
  have final : (mark "@end").Reads "@end\n".toList () ['\n'] :=
    reads_mark (reads_gap (ends_cons.2 (by decide)))
  have lines' := (reads_many_iff_chain length_lt_of_reads_blockLine).2
    ⟨Chain.append_iff.2 ⟨_, before', .cons last (length_lt_of_reads_blockLine last) (.nil _)⟩,
      fails_blockLine_append final []⟩
  have read' := whole lines' final
  have same : (front.map (Option.map (Located.extend (closing text))) ++
      [some (Located.extend (closing text) (⟨a.place, ⟨a.item.key, String.ofList (inner ++ text)⟩⟩ :
        Located Attribute))]).filterMap id = (cut.fields text).map (·.extend (closing text)) := by
    rw [Cut.fields, List.map_append, List.filterMap_append, List.filterMap_map, List.map_filterMap]
    rfl
  rwa [same] at read'

/-- A statement with an open quote is cut short. -/
theorem reads_statement_closing {i : Item} (lined : Lined s) (read : statement.Reads s i r)
    (isOpen : ¬ i.Closed) : ∃ cut : Cut s, cut.place = s ∧ ∀ text, '"' ∉ text →
      statement.Reads (s ++ closing text) ((cut.item text).item.extend (closing text)) ['\n'] := by
  have isOpen : ∃ a ∈ i.attributes, a.IsOpen := by simpa [Item.Closed] using isOpen
  rcases reads_orElse_iff.1 read with read | ⟨noSynth, read⟩
  · obtain ⟨⟨name, fields⟩, u, one, read⟩ := reads_bind_iff.1 read
    obtain ⟨rfl, rfl⟩ := reads_pure_iff.1 read
    obtain ⟨cut, here, made, named, longer⟩ :=
      reads_block_closing (by decide) lined one isOpen (.inl rfl)
    refine ⟨cut, here, fun text fresh => Reads.orElse_left ?_⟩
    rw [Cut.item, made, named]
    exact (longer text fresh).bind (.pure (Item.synth name _) _)
  rcases reads_orElse_iff.1 read with read | ⟨noParam, read⟩
  · obtain ⟨⟨name, fields⟩, u, one, read⟩ := reads_bind_iff.1 read
    obtain ⟨rfl, rfl⟩ := reads_pure_iff.1 read
    obtain ⟨cut, here, made, named, longer⟩ :=
      reads_block_closing (by decide) lined one isOpen (.inr rfl)
    obtain ⟨_, v, opened, -⟩ := reads_bind_iff.1 (reads_named_iff.1 one)
    obtain rfl := eq_append_of_reads_literal opened
    refine ⟨cut, here, fun text fresh => ?_⟩
    have noSynth : (Rule.literal "@synth".toList).Fails ("@param".toList ++ v ++ closing text) :=
      rfl
    rw [Cut.item, made, named]
    refine Reads.orElse_right noSynth.bind.named.bind (Reads.orElse_left ?_)
    exact (longer text fresh).bind (.pure (Item.param name _) _)
  · obtain ⟨a, mem, -⟩ := isOpen
    rw [attributes_of_reads_line read] at mem
    cases mem

/-- An entry with an open quote is cut short and ends the text. -/
theorem reads_entry_closing {items : List (Located Item)} (lined : Lined s)
    (read : entry.Reads s items r) (isOpen : ∃ i ∈ items, ¬ i.item.Closed) :
    ∃ cut : Cut s, ∀ text, '"' ∉ text →
      entry.Reads (s ++ closing text) [(cut.item text).extendItem (closing text)] [] := by
  obtain ⟨_, u, front, read⟩ := reads_bind_iff.1 read
  obtain ⟨found, v, stated, read⟩ := reads_bind_iff.1 read
  obtain ⟨note, w, -, read⟩ := reads_bind_iff.1 read
  obtain ⟨rfl, -⟩ := reads_pure_iff.1 read
  have lined₁ := steady_gap.keeps lined front
  obtain ⟨i, mem, isOpen⟩ := isOpen
  have isItem : found = some i := by
    rcases List.mem_append.1 mem with mem | mem
    · simpa using mem
    · obtain ⟨n, -, rfl⟩ := List.mem_map.1 mem
      exact absurd (fun a mem => by cases mem) isOpen
  obtain ⟨j, same, one⟩ | ⟨none, -⟩ := reads_optional_iff.1 stated
  · cases isItem.symm.trans same
    obtain ⟨rfl, one⟩ := reads_located_iff.1 one
    obtain ⟨cut, here, longer⟩ := reads_statement_closing lined₁ one isOpen
    refine ⟨cut.mono (inside_gap.suffix front), fun text fresh => ?_⟩
    have more := (longer text fresh).located.optional
    have same : (⟨i.place ++ closing text, (cut.item text).item.extend (closing text)⟩ :
        Located Item) = (cut.item text).extendItem (closing text) := by
      rw [Located.extendItem]
      exact congrArg (fun place => (⟨place ++ closing text, _⟩ : Located Item)) here.symm
    rw [same] at more
    exact (steady_gap.reads lined front (closing text)).bind
      (more.bind ((reads_lineEnd []).bind (.pure _ _)))
  · rw [none] at isItem
    cases isItem

/-- Up to an open quote the items are read as before; then comes the block that is cut short. -/
theorem exists_read_closing {items : List (Located Item)} (lined : Lined s)
    (h : read s = .ok items) (isOpen : ¬ Closed s) :
    ∃ front back, ∃ cut : Cut s, items = front ++ back ∧ back ≠ [] ∧ ∀ text, '"' ∉ text →
      read (s ++ closing text) =
        .ok ((front ++ [cut.item text]).map (·.extendItem (closing text))) := by
  obtain ⟨entries, chain, rfl⟩ := chain_of_read lined h
  have someOpen : ∃ items ∈ entries, ∃ i ∈ items, ¬ i.item.Closed := by
    by_contra none
    refine isOpen fun items' h' i mem => ?_
    cases h.symm.trans h'
    obtain ⟨items, here, mem⟩ := List.mem_flatten.1 mem
    by_contra isOpen
    exact none ⟨items, here, i, mem, isOpen⟩
  obtain ⟨front, items, back, rfl, isOpen, closed⟩ := exists_first someOpen
  obtain ⟨u, before, behind⟩ := Chain.append_iff.1 chain
  obtain _ | ⟨one, -, more⟩ := behind
  have sub := before.suffix inside_entry.left
  have linedU : Lined u := by
    refine lined.of_suffix sub ?_
    rintro rfl
    cases length_lt_of_reads_entry one
  obtain ⟨cut, longer⟩ := reads_entry_closing linedU one isOpen
  refine ⟨front.flatten, (items :: back).flatten, cut.mono sub, by simp, ?_, fun text fresh => ?_⟩
  · obtain ⟨i, mem, -⟩ := isOpen
    rw [List.flatten_cons]
    exact List.append_ne_nil_of_left_ne_nil (List.ne_nil_of_mem mem) _
  · have before' := chain_entry_append (.inr lined) before (fun i mem => by
      obtain ⟨items, here, mem⟩ := List.mem_flatten.1 mem
      by_contra isOpen
      exact closed items here ⟨i, mem, isOpen⟩) (closing text)
    have last := longer text fresh
    have stop : entry.Fails [] := by
      rcases reads_or_fails entry [] with ⟨_, _, read⟩ | failed
      · exact absurd (length_lt_of_reads_entry read) (Nat.not_lt_zero _)
      · exact failed
    have whole := (reads_many_iff_chain length_lt_of_reads_entry).2
      ⟨Chain.append_iff.2 ⟨_, before', .cons last (length_lt_of_reads_entry last) (.nil _)⟩, stop⟩
    obtain ⟨fs, run⟩ := whole.exists_run
    rw [read_eq run, if_pos List.dropWhile_nil, List.flatten_append, ← List.map_flatten,
      List.map_append]
    rfl

end Grammar
end SynthPatch
