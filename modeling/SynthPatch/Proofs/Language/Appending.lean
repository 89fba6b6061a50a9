import SynthPatch.Proofs.Decimal.Numeral
import SynthPatch.Proofs.Language.Quoting
import SynthPatch.Proofs.Language.Soundness
/-!
# Text behind a patch

What is written behind the last line of a patch cannot change what was read from the lines before,
with one exception: a quote that is left open in one of them may be closed by another quote further
down, and all lines between become part of the value.  Where no quote is left open a longer text has
the statements of the shorter one and more, or is at fault below it; where one is, there is a longer
text for which neither is true.

Main results:

- Theorem {lit}`Grammar.read_append`: the items of a text without an open quote are read as before.
- Theorem {lit}`Checker.checkAll_extend`: places do not matter to the checker.
- Theorem {lit}`Checker.continues_iff_closed`: what stands behind a patch is told apart from it
  exactly if no quote is left open.
-/

namespace SynthPatch

namespace Grammar

open Rule

variable {s r t : List Char}

/-- The items of a text without an open quote are read as before, and behind them those of the text
that was added; or it is the added text that cannot be read. -/
theorem read_append {items : List (Located Item)} (lined : Lined s) (h : read s = .ok items)
    (closed : Closed s) (t : List Char) :
    (∃ more, read (s ++ t) = .ok (items.map (·.extendItem t) ++ more) ∧ ∀ i ∈ more, i.Within t) ∨
      ∃ place, read (s ++ t) = .error place ∧ place <:+ t := by
  have closed := closed items h
  obtain ⟨entries, chain, rfl⟩ := chain_of_read lined h
  obtain ⟨more, r, gs, run⟩ := exists_entries t
  have behind : entry.many.Reads t more r := by rw [Reads, run]
  obtain ⟨back, failed⟩ := (reads_many_iff_chain length_lt_of_reads_entry).1 behind
  have front := chain_entry_append (.inr lined) chain closed t
  have whole := (reads_many_iff_chain length_lt_of_reads_entry).2
    ⟨Chain.append_iff.2 ⟨t, front, back⟩, failed⟩
  obtain ⟨fs, run⟩ := whole.exists_run
  rw [read_eq run]
  split
  · refine .inl ⟨more.flatten, ?_, within_of_reads_entries behind⟩
    rw [List.flatten_append, List.map_flatten]
  · refine .inr ⟨_, rfl, ?_⟩
    have blanks : r.dropWhile isGap <:+ t :=
      (List.dropWhile_suffix _).trans (inside_entry.many.suffix behind)
    have far := furthest_le (s ++ t) ((s ++ t) :: (fs ++ [r.dropWhile isGap])) (r.dropWhile isGap)
      (by simp)
    refine List.suffix_of_suffix_length_le (suffix_furthest ?_) (List.suffix_append s t)
      (far.trans blanks.length_le)
    intro tried mem
    simp only [List.mem_cons, List.mem_append, List.not_mem_nil, or_false] at mem
    rcases mem with rfl | mem | rfl
    · exact List.suffix_refl _
    · exact inside_entry.many.tried _ tried (by rwa [run])
    · exact blanks.trans (List.suffix_append s t)

end Grammar

/-! ## Places do not matter to the checker -/

namespace Checker

open Statement

section Places

variable {registry : Registry} {before : List (Statement Float)} {place t : List Char}

theorem require_extend (holds : Bool) (fault : Fault) :
    require holds (place ++ t) fault = (require holds place fault).mapError (·.extend t) := by
  cases holds <;> rfl

theorem setHeaderField_extend (header : Header) (field : Located Attribute) :
    setHeaderField header (field.extend t) =
      (setHeaderField header field).mapError (·.extend t) := by
  unfold setHeaderField Located.extend
  dsimp only
  split <;> rfl

theorem numberField_extend (field : Located Attribute) :
    numberField (field.extend t) = (numberField field).mapError (·.extend t) := by
  unfold numberField Located.extend
  dsimp only
  split <;> rfl

theorem setParameterField_extend (draft : Draft) (field : Located Attribute) :
    setParameterField draft (field.extend t) =
      (setParameterField draft field).mapError (·.extend t) := by
  have number := numberField_extend (t := t) field
  unfold setParameterField
  dsimp only [Located.extend] at number ⊢
  split
  · split <;> rfl
  · split <;> rfl
  iterate 4 rw [number, Outcome.mapError_map]
  · rfl
  · rfl

theorem requiredField_extend (name key : String) (found : Option Float) :
    requiredField (place ++ t) name key found =
      (requiredField place name key found).mapError (·.extend t) := by
  cases found <;> rfl

theorem portsOf_extend (id : String) :
    portsOf registry before (place ++ t) id =
      (portsOf registry before place id).mapError (·.extend t) := by
  unfold portsOf
  split <;> rfl

/-- An item comes to the same wherever it stands. -/
theorem check_extend (i : Located Item) :
    check registry before (i.extendItem t) = (check registry before i).mapError (·.extend t) := by
  obtain ⟨place, item⟩ := i
  cases item with
  | synth name fields =>
      simp only [check, Located.extendItem, Item.extend, checkHeader, Outcome.mapError_bind,
        Outcome.mapError_foldlM, List.foldlM_map, require_extend, setHeaderField_extend]
      rfl
  | param name fields =>
      simp only [check, Located.extendItem, Item.extend, checkParameter, Outcome.mapError_bind,
        Outcome.mapError_foldlM, List.foldlM_map, require_extend, setParameterField_extend,
        requiredField_extend]
      rfl
  | module tag id table =>
      simp only [check, Located.extendItem, Item.extend, checkModule, Outcome.mapError_bind]
      congr 1
      split
      · rfl
      · simp only [Outcome.mapError_bind, require_extend]
        rfl
  | patch cable =>
      simp only [check, Located.extendItem, Item.extend, checkCable, Outcome.mapError_bind,
        portsOf_extend, require_extend]
      rfl
  | tweak target source =>
      simp only [check, Located.extendItem, Item.extend, checkTweak, Outcome.mapError_bind,
        portsOf_extend, require_extend]
      congr 2
      funext ports
      congr 1
      funext _
      congr 1
      funext _
      split
      · rfl
      · split <;> rfl
  | comment text => rfl

/-- Items come to the same wherever they stand. -/
theorem checkAll_extend (before : List (Statement Float)) (items : List (Located Item)) :
    checkAll registry before (items.map (·.extendItem t)) =
      (checkAll registry before items).mapError (·.extend t) := by
  induction items generalizing before with
  | nil => rfl
  | cons i rest ih =>
      rw [List.map_cons, checkAll_cons, checkAll_cons, check_extend, Outcome.mapError_bind]
      exact congrArg _ (funext fun s => ih _)

end Places

/-! ## Items behind others -/

section Behind

variable {registry : Registry} {before statements : List (Statement Float)}
  {items : List (Located Item)}

theorem checkAll_append (before : List (Statement Float)) (items more : List (Located Item)) :
    checkAll registry before (items ++ more) =
      checkAll registry before items >>= fun statements => checkAll registry statements more := by
  induction items generalizing before with
  | nil => rfl
  | cons i rest ih =>
      rw [List.cons_append, checkAll_cons, checkAll_cons, bind_assoc]
      exact congrArg _ (funext fun s => ih _)

/-- The statements before are kept, and each item adds one. -/
theorem exists_of_checkAll (h : checkAll registry before items = .ok statements) :
    ∃ more, statements = before ++ more ∧ more.length = items.length := by
  induction items generalizing before with
  | nil =>
      cases h
      exact ⟨[], by simp, rfl⟩
  | cons i rest ih =>
      obtain ⟨s, -, h⟩ := Outcome.bind_eq_ok_iff.1 h
      obtain ⟨more, rfl, length⟩ := ih h
      exact ⟨s :: more, by simp, by simp [length]⟩

end Behind

/-! ## Closed texts -/

/-- A text goes on behind lines that have some statements: it has these statements and perhaps more,
or it is at fault behind the lines. -/
def Continues (registry : Registry) (front : String) (statements : List (Statement Float))
    (behind : String) : Prop :=
  match parse registry (front ++ "\n" ++ behind) with
  | .ok all => statements <+: all
  | .error e => 1 + front.toList.count '\n' < e.line

variable {registry : Registry} {front : String} {statements : List (Statement Float)}

theorem parse_behind (registry : Registry) (front behind : String) :
    parse registry (front ++ "\n" ++ behind) =
      parseLines registry ((front.toList ++ ['\n']) ++ (behind.toList ++ ['\n'])) := by
  rw [parse]
  congr 1
  simp

theorem lined_line (text : List Char) : Lined (text ++ ['\n']) := by
  simp [Lined]

/-- A place behind the lines is further down than they are. -/
theorem lt_lineAt_append {t place : List Char} (within : place <:+ t) (text : List Char) :
    1 + text.count '\n' < lineAt (text ++ ['\n'] ++ t) place := by
  rw [lineAt_front within, lineAt, List.count_append]
  simp
  omega

/-- Whatever stands behind a patch in which no quote is left open does not change it. -/
theorem continues_of_closed (h : parse registry front = .ok statements)
    (closed : Grammar.Closed (front.toList ++ ['\n'])) (behind : String) :
    Continues registry front statements behind := by
  obtain ⟨⟨items, read, checked⟩, header⟩ := checkAll_of_parse h
  rw [Continues, parse_behind, parseLines]
  generalize behind.toList ++ ['\n'] = t
  have below {place : List Char} (within : place <:+ t) := lt_lineAt_append within front.toList
  obtain ⟨more, whole, within⟩ | ⟨place, whole, within⟩ :=
    Grammar.read_append (lined_line _) read closed t
  · have same : checkAll registry [] (items.map (·.extendItem t) ++ more) =
        checkAll registry statements more := by
      rw [checkAll_append, checkAll_extend, checked]
      rfl
    simp only [whole, same]
    cases found : checkAll registry statements more with
    | error fault => exact below (finds_checkAll within statements fault found).2
    | ok all =>
        obtain ⟨others, rfl, -⟩ := exists_of_checkAll found
        have still : hasHeader (statements ++ others) = true := by
          rw [hasHeader, List.any_append, ← hasHeader, header, Bool.true_or]
        simp only [still, if_true]
        exact List.prefix_append _ _
  · simp only [whole]
    exact below within

/-! ## Open quotes -/

theorem value_of_setHeaderField {header header' : Header} {place place' : List Char}
    {key v v' : String} (h : setHeaderField header ⟨place, ⟨key, v⟩⟩ = .ok header')
    (h' : setHeaderField header ⟨place', ⟨key, v'⟩⟩ = .ok header') : v = v' := by
  unfold setHeaderField at h h'
  dsimp only at h h'
  split at h
  iterate 5
    cases h
    simpa [eq_comm] using h'
  cases h

/-- A number is written on one line. -/
theorem numberField_feed {place : List Char} {key v : String} (feed : '\n' ∈ v.toList) (x : Float) :
    numberField ⟨place, ⟨key, v⟩⟩ ≠ .ok x := by
  intro h
  unfold numberField at h
  split at h
  · next found =>
      obtain ⟨n, read, -⟩ := Option.map_eq_some_iff.1 found
      exact absurd (Numeral.isSign_or_isPlain_of_read read _ feed) (by decide)
  · cases h

/-- A value of several lines describes the parameter; no other field of it takes one. -/
theorem doc_of_setParameterField {draft draft' : Draft} {place : List Char} {key v : String}
    (feed : '\n' ∈ v.toList) (h : setParameterField draft ⟨place, ⟨key, v⟩⟩ = .ok draft') :
    draft'.doc = v := by
  have noNumber {key : String} {f : Float → Draft} :
      (numberField ⟨place, ⟨key, v⟩⟩).map f ≠ .ok draft' := by
    intro h
    obtain ⟨x, number, -⟩ := Outcome.map_eq_ok_iff.1 h
    exact numberField_feed feed x number
  have other {word : String} (oneLine : '\n' ∉ word.toList) : v ≠ word := by
    rintro rfl
    exact oneLine feed
  unfold setParameterField at h
  dsimp only at h
  split at h
  · split at h
    · next named =>
        unfold NumberType.ofName? at named
        split at named
        · exact absurd rfl (other (by decide))
        · exact absurd rfl (other (by decide))
        · cases named
    · cases h
  · split at h
    · exact absurd rfl (other (by decide))
    · exact absurd rfl (other (by decide))
    · cases h
  iterate 4 exact absurd h noNumber
  · cases h
    rfl
  · cases h

theorem foldlM_snoc_eq_ok_iff {σ β : Type} {f : σ → β → Checked σ} {l : List β} {b : β}
    {s last : σ} :
    (l ++ [b]).foldlM f s = .ok last ↔ ∃ m, l.foldlM f s = .ok m ∧ f m b = .ok last := by
  rw [List.foldlM_append, Outcome.bind_eq_ok_iff]
  simp [List.foldlM_cons, List.foldlM_nil]

section LastField

variable {before : List (Statement Float)} {place last last' : List Char} {name key v v' : String}
  {fields : List (Located Attribute)}

/-- The last attribute of a header is told by the header. -/
theorem value_of_checkHeader {header : Header}
    (h : checkHeader before place name (fields ++ [⟨last, ⟨key, v⟩⟩]) = .ok header)
    (h' : checkHeader before place name (fields ++ [⟨last', ⟨key, v'⟩⟩]) = .ok header) :
    v = v' := by
  obtain ⟨_, -, h⟩ := Outcome.bind_eq_ok_iff.1 h
  obtain ⟨_, -, h'⟩ := Outcome.bind_eq_ok_iff.1 h'
  obtain ⟨m, front, one⟩ := foldlM_snoc_eq_ok_iff.1 h
  obtain ⟨m', front', one'⟩ := foldlM_snoc_eq_ok_iff.1 h'
  cases front.symm.trans front'
  exact value_of_setHeaderField one one'

/-- If the last attribute of a parameter has several lines, it is what describes the parameter. -/
theorem doc_of_checkParameter {p : Parameter Float} (feed : '\n' ∈ v.toList)
    (h : checkParameter before place name (fields ++ [⟨last, ⟨key, v⟩⟩]) = .ok p) : p.doc = v := by
  obtain ⟨_, -, h⟩ := Outcome.bind_eq_ok_iff.1 h
  obtain ⟨_, -, h⟩ := Outcome.bind_eq_ok_iff.1 h
  obtain ⟨draft, read, h⟩ := Outcome.bind_eq_ok_iff.1 h
  obtain ⟨_, -, h⟩ := Outcome.bind_eq_ok_iff.1 h
  obtain ⟨_, -, h⟩ := Outcome.bind_eq_ok_iff.1 h
  obtain ⟨_, -, h⟩ := Outcome.bind_eq_ok_iff.1 h
  cases h
  obtain ⟨m, -, one⟩ := foldlM_snoc_eq_ok_iff.1 read
  exact doc_of_setParameterField feed one

/-- What stands behind an open quote is told by the statement. -/
theorem text_of_check {s text text' : List Char} {cut : Cut s} {statement : Statement Float}
    (h : check registry before (cut.item text) = .ok statement)
    (h' : check registry before (cut.item text') = .ok statement) : text = text' := by
  suffices same : String.ofList (cut.inner ++ text) = String.ofList (cut.inner ++ text') from
    List.append_cancel_left (String.ofList_injective same)
  have feed (text : List Char) : '\n' ∈ (String.ofList (cut.inner ++ text)).toList := by
    simp [cut.feed]
  rw [Cut.item, Cut.fields] at h h'
  rcases cut.isBlock with made | made <;> rw [made] at h h'
  · obtain ⟨header, checked, same⟩ := Outcome.bind_eq_ok_iff.1 h
    obtain ⟨header', checked', same'⟩ := Outcome.bind_eq_ok_iff.1 h'
    cases same
    cases same'
    exact value_of_checkHeader checked checked'
  · obtain ⟨p, checked, same⟩ := Outcome.bind_eq_ok_iff.1 h
    obtain ⟨p', checked', same'⟩ := Outcome.bind_eq_ok_iff.1 h'
    cases same
    cases same'
    exact (doc_of_checkParameter (feed text) checked).symm.trans
      (doc_of_checkParameter (feed text') checked')

/-- A fault in a block that was cut short is on one of its lines. -/
theorem onLine_of_check {s text : List Char} {cut : Cut s} {fault : Located Fault}
    (h : check registry before (cut.item text) = .error fault) : OnLine s fault.place := by
  obtain ⟨-, here | ⟨a, mem, there⟩⟩ := finds_check _ fault h
  · rw [here]
    exact cut.placed
  · have mem : a ∈ cut.fields text := by
      rw [Cut.item] at mem
      rcases cut.isBlock with made | made <;> simpa [made, Item.attributes] using mem
    rw [there]
    rcases List.mem_append.1 mem with mem | mem
    · exact cut.frontPlaced a mem
    · cases List.mem_singleton.1 mem
      exact cut.lastPlaced

end LastField

/-- A place on the lines of a text is not behind them. -/
theorem lineAt_extend_le {text place : List Char} (on : OnLine (text ++ ['\n']) place)
    (t : List Char) : lineAt (text ++ ['\n'] ++ t) (place ++ t) ≤ 1 + text.count '\n' := by
  have feed : 0 < place.count '\n' := List.count_pos_iff.2 (List.mem_of_getLast? on.2)
  simp only [lineAt, List.count_append, List.count_singleton_self]
  omega

/-- The text that closes an open quote and its block. -/
theorem toList_closing (text : List Char) :
    (String.ofList (text ++ '"' :: '\n' :: "@end".toList)).toList ++ ['\n'] =
      Grammar.closing text := by
  simp [Grammar.closing]

/-- Where a quote is left open, some text that stands behind the patch changes it. -/
theorem closed_of_continues (h : parse registry front = .ok statements)
    (continues : ∀ behind, Continues registry front statements behind) :
    Grammar.Closed (front.toList ++ ['\n']) := by
  by_contra isOpen
  obtain ⟨⟨items, read, checked⟩, -⟩ := checkAll_of_parse h
  obtain ⟨some, back, cut, rfl, filled, longer⟩ :=
    Grammar.exists_read_closing (lined_line _) read isOpen
  rw [checkAll_append] at checked
  obtain ⟨before, first, rest⟩ := Outcome.bind_eq_ok_iff.1 checked
  obtain ⟨others, whole, length⟩ := exists_of_checkAll rest
  have filled := List.length_pos_iff.2 filled
  -- Whatever stands before the quote that closes it, the statement of the block is the same.
  have step (text : List Char) (fresh : '"' ∉ text) :
      ∃ s, check registry before (cut.item text) = .ok s ∧ statements = before ++ [s] := by
    have now := continues (String.ofList (text ++ '"' :: '\n' :: "@end".toList))
    rw [Continues, parse_behind, toList_closing, parseLines] at now
    have same : checkAll registry [] ((some ++ [cut.item text]).map
        (·.extendItem (Grammar.closing text))) =
          ((check registry before (cut.item text)).map (before ++ [·])).mapError
            (·.extend (Grammar.closing text)) := by
      rw [checkAll_extend, checkAll_append, first]
      change (checkAll registry before [cut.item text]).mapError _ = _
      rw [checkAll_cons]
      cases check registry before (cut.item text) <;> rfl
    simp only [longer text fresh, same] at now
    cases found : check registry before (cut.item text) with
    | error fault =>
        simp only [found, Except.map, Except.mapError, ParseError.line] at now
        exact absurd (lineAt_extend_le (onLine_of_check found) _) (Nat.not_le.2 now)
    | ok s =>
        simp only [found, Except.map, Except.mapError] at now
        split at now
        · next all isAll =>
            split at isAll
            · cases isAll
              refine ⟨s, rfl, now.eq_of_length_le ?_⟩
              rw [whole, List.length_append, List.length_append, length]
              exact Nat.add_le_add_left filled _
            · cases isAll
        · next e isError =>
            split at isError
            · cases isError
            · cases isError
              exact absurd now (by simp [ParseError.line])
  obtain ⟨s, one, here⟩ := step [] (by simp)
  obtain ⟨s', other, there⟩ := step ['x'] (by decide)
  cases List.append_cancel_left (here.symm.trans there)
  cases text_of_check one other

/-- Whatever stands behind a patch does not change it, exactly if no quote is left open in it. -/
theorem continues_iff_closed (h : parse registry front = .ok statements) :
    (∀ behind, Continues registry front statements behind) ↔
      Grammar.Closed (front.toList ++ ['\n']) :=
  ⟨closed_of_continues h, continues_of_closed h⟩

/-- Whatever stands behind a tone does not change it. -/
theorem continues_iff_closed_tone :
    ∃ statements, parse .standard toneSource = .ok statements ∧
      Grammar.Closed (toneSource.toList ++ ['\n']) ∧
      ∀ behind, Continues .standard toneSource statements behind := by
  have some : (parse .standard toneSource).toOption.isSome = true := by decide +kernel
  obtain ⟨statements, read⟩ := Option.isSome_iff_exists.1 some
  have parsed := Outcome.toOption_eq_some_iff.1 read
  have closed : Grammar.Closed (toneSource.toList ++ ['\n']) :=
    Grammar.closed_of_not_mem (by decide +kernel)
  exact ⟨statements, parsed, closed, (continues_iff_closed parsed).2 closed⟩

/-- A header whose description begins with a quote that is left open. -/
def openSource : String :=
  "@synth s\ndoc: \"a\n@end"

/-- A parameter whose description ends in a quote. -/
def quoteSource : String :=
  "@param x\nmin: 0\nmax: 1\ndefault: 0\ndoc: b\"\n@end"

/-- A parameter behind a header is taken for a part of its description. -/
theorem quoteSource_swallowed :
    parse .standard openSource = .ok [.header { shortname := "s", doc := "\"a" }] ∧
      parse .standard (openSource ++ "\n" ++ quoteSource) = .ok [.header {
        shortname := "s"
        doc := "a\n@end\n@param x\nmin: 0\nmax: 1\ndefault: 0\ndoc: b" }] ∧
      ¬ Continues .standard openSource [.header { shortname := "s", doc := "\"a" }]
        quoteSource := by
  have whole : parse .standard (openSource ++ "\n" ++ quoteSource) = .ok [.header {
      shortname := "s"
      doc := "a\n@end\n@param x\nmin: 0\nmax: 1\ndefault: 0\ndoc: b" }] :=
    Outcome.toOption_eq_some_iff.1 (by decide +kernel)
  refine ⟨Outcome.toOption_eq_some_iff.1 (by decide +kernel), whole, ?_⟩
  rw [Continues, whole]
  decide

end Checker
end SynthPatch
