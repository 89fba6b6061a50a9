import SynthPatch.Proofs.Language.Placing
/-!
# Lines that say nothing

Blank lines and lines with nothing but a comment may stand in front of a patch.  The rules of the
grammar fail on such a line where it begins behind its blanks, and nowhere else, so that the patch
is read, or not read, as it is by itself.  Its items and faults only come to stand further down.

Main results:

- Structure {lit}`Aside`: a line with nothing but blanks and a comment.
- Theorem {lit}`Grammar.run_entries_asides`: such lines are read as their comments.
- Theorem {lit}`Checker.checkAll_behind_comments`: comments do not matter to what stands behind
  them.
- Theorem {lit}`Checker.parse_asides`: a text behind such lines is what it is by itself, further
  down.
-/

namespace SynthPatch

/-- A line with nothing but blanks and perhaps a comment. -/
structure Aside where
  /-- The blanks that the line begins with. -/
  indent : List Char
  /-- What stands behind the mark of the comment. -/
  note : Option (List Char)
  blank : ∀ c ∈ indent, Grammar.isGap c = true
  inside : ∀ text ∈ note, ∀ c ∈ text, Grammar.isBreak c = false

namespace Aside

/-- The line without its blanks and its end. -/
def body (a : Aside) : List Char :=
  (a.note.map ('#' :: ·)).getD []

/-- The line as it is written. -/
def written (a : Aside) : List Char :=
  a.indent ++ a.body ++ ['\n']

/-- What the comment says. -/
def text? (a : Aside) : Option String :=
  a.note.map fun text => Grammar.commentText ('#' :: text)

theorem count_written (a : Aside) : a.written.count '\n' = 1 := by
  have blanks : a.indent.count '\n' = 0 := by
    refine List.count_eq_zero.2 fun mem => ?_
    exact absurd (a.blank _ mem) (by decide)
  have comment : a.body.count '\n' = 0 := by
    refine List.count_eq_zero.2 fun mem => ?_
    rw [body] at mem
    cases noted : a.note with
    | none => simp [noted] at mem
    | some text =>
        have mem : '\n' ∈ text := by simpa [noted] using mem
        exact absurd (a.inside text noted _ mem) (by decide)
  simp [written, blanks, comment]

/-- Each line has one line feed. -/
theorem count_flatMap_written (asides : List Aside) :
    (asides.flatMap written).count '\n' = asides.length := by
  induction asides with
  | nil => rfl
  | cons a rest ih => rw [List.flatMap_cons, List.count_append, ih, a.count_written,
      List.length_cons, Nat.add_comm]

end Aside

/-! ## Rules that fail at one place -/

namespace Rule

variable {β γ : Type} {p q : Rule β} {f : β → Rule γ} {s r place : List Char} {x : β}

/-- The rule, and all those it tries, fail at one place only. -/
def Vain (p : Rule β) (s place : List Char) : Prop :=
  ∀ tried ∈ (p.run s).failures, tried = place

namespace Vain

theorem of_silent (silent : (p.run s).failures = []) : p.Vain s place := by
  intro tried mem
  rw [silent] at mem
  cases mem

theorem bind (read : p.Reads s x r) (hp : p.Vain s place) (hf : (f x).Vain r place) :
    (p >>= f).Vain s place := by
  obtain ⟨fs, run⟩ := read.exists_run
  intro tried mem
  rw [run_bind_of_eq_some run] at mem
  rcases List.mem_append.1 mem with mem | mem
  · exact hp tried (by rwa [run])
  · exact hf tried mem

theorem bind_fails (fails : p.Fails s) (hp : p.Vain s place) : (p >>= f).Vain s place := by
  obtain ⟨fs, run⟩ := fails.exists_run
  intro tried mem
  rw [run_bind_of_eq_none run] at mem
  exact hp tried (by rwa [run])

theorem orElse (hp : p.Vain s place) (hq : q.Vain s place) : (p.orElse q).Vain s place := by
  intro tried mem
  simp only [Rule.orElse] at mem
  split at mem
  · next fs run =>
      rcases List.mem_append.1 mem with mem | mem
      · exact hp tried (by rwa [run])
      · exact hq tried mem
  · exact hp tried mem

theorem optional (hp : p.Vain s place) : p.optional.Vain s place := by
  intro tried mem
  simp only [Rule.optional] at mem
  split at mem <;> next run => exact hp tried (by rwa [run])

theorem located (hp : p.Vain s place) : (Grammar.located p).Vain s place := by
  intro tried mem
  simp only [Grammar.located] at mem
  split at mem <;> next run => exact hp tried (by rwa [run])

theorem named (hp : p.Vain s s) : p.named.Vain s s := by
  intro tried mem
  simp only [Rule.named] at mem
  split at mem
  · next fs run =>
      rcases List.mem_cons.1 mem with rfl | mem
      · rfl
      · exact hp tried (by rwa [run])
  · exact hp tried mem

theorem word (first rest : Char → Bool) (s place : List Char) :
    (Rule.word first rest).Vain s place :=
  of_silent (failures_word first rest s)

theorem literal (text s place : List Char) : (Rule.literal text).Vain s place :=
  of_silent (failures_literal text s)

theorem pure (x : β) (s place : List Char) : (Pure.pure x : Rule β).Vain s place :=
  of_silent rfl

end Vain
end Rule

/-! ## Lines of this kind are read -/

namespace Grammar

open Rule

variable {s place : List Char}

theorem vain_gap (s place : List Char) : gap.Vain s place :=
  .of_silent rfl

theorem vain_newline (s place : List Char) : newline.Vain s place :=
  .orElse (.literal _ _ _) (.orElse (.literal _ _ _) (.literal _ _ _))

theorem vain_comment (s : List Char) : comment.Vain s s :=
  .named (.word _ _ _ _)

/-- Where no statement can begin, none is tried any further. -/
theorem vain_statement (noMark : Ends (· == '@') s) (noTag : Ends Char.isUpper s)
    (noHead : Ends Identifier.isHead s) : statement.Vain s s := by
  have noBlock {opening : String} {text : List Char} (mark : opening.toList = '@' :: text) :
      (block opening).Vain s s := by
    refine .named (.bind_fails ?_ (.literal _ _ _))
    rw [mark]
    exact fails_literal noMark
  have failedBlock {opening : String} {text : List Char} (mark : opening.toList = '@' :: text) :
      (block opening).Fails s := by
    refine Fails.named (Fails.bind ?_)
    rw [mark]
    exact fails_literal noMark
  have tag : typeTag.Vain s s := .named (.bind_fails (fails_word noTag) (.word _ _ _ _))
  have name : identifier.Vain s s := .named (.bind_fails (fails_word noHead) (.word _ _ _ _))
  have endpoint : endpoint.Vain s s := .named (.bind_fails (fails_identifier noHead) name)
  have noEndpoint : Grammar.endpoint.Fails s := fails_endpoint noHead
  exact .orElse (.bind_fails (failedBlock rfl) (noBlock rfl)) <|
    .orElse (.bind_fails (failedBlock rfl) (noBlock rfl)) <|
      .orElse (.named (.bind_fails (fails_word noTag).bind.named tag)) <|
        .orElse (.named (.bind_fails noEndpoint endpoint))
          (.named (.bind_fails noEndpoint endpoint))

/-- What is left of a line behind its blanks is a comment or its end. -/
theorem lineEnd_body (a : Aside) (s : List Char) :
    lineEnd.Reads (a.body ++ '\n' :: s)
        (a.note.map fun text => ⟨a.body ++ '\n' :: s, '#' :: text⟩) s ∧
      lineEnd.Vain (a.body ++ '\n' :: s) (a.body ++ '\n' :: s) := by
  have vain {mid behind : List Char} {found : Option (Located (List Char))}
      (front : gap.Reads mid () mid) (noted : (located comment).optional.Reads mid found behind)
      (back : gap.Reads behind () behind) (ended : newline.Reads behind () s) :
      lineEnd.Vain mid mid :=
    .bind front (vain_gap _ _) <| .bind noted (vain_comment _).located.optional <|
      .bind back (vain_gap _ _) <| .bind ended (vain_newline _ _) (.pure _ _ _)
  have blank : gap.Reads ('\n' :: s) () ('\n' :: s) := reads_gap (ends_cons.2 (by decide))
  cases noted : a.note with
  | none =>
      have body : a.body = [] := by simp [Aside.body, noted]
      have noNote : comment.Fails ('\n' :: s) := (fails_word (ends_cons.2 (by decide))).named
      rw [body]
      exact ⟨reads_lineEnd s, vain blank noNote.located.optional blank (reads_newline s)⟩
  | some text =>
      have body : a.body = '#' :: text := by simp [Aside.body, noted]
      have inside := a.inside text noted
      have front : gap.Reads ('#' :: text ++ '\n' :: s) () ('#' :: text ++ '\n' :: s) :=
        reads_gap (ends_cons.2 (by decide))
      have comment : Grammar.comment.Reads ('#' :: text ++ '\n' :: s) ('#' :: text) ('\n' :: s) :=
        (reads_word (by decide) (by simpa using inside) (ends_cons.2 (by decide))).named
      rw [body]
      exact ⟨reads_lineEnd_comment inside s,
        vain front comment.located.optional blank (reads_newline s)⟩

/-- A line of this kind is read as its comment, and rules fail only where it begins behind its
blanks. -/
theorem entry_aside (a : Aside) (s : List Char) :
    entry.Reads (a.written ++ s)
        (a.text?.toList.map fun text => ⟨a.body ++ '\n' :: s, .comment text⟩) s ∧
      entry.Vain (a.written ++ s) (a.body ++ '\n' :: s) := by
  have begins {among : Char → Bool} (mark : among '#' = false) (feed : among '\n' = false) :
      Ends among (a.body ++ '\n' :: s) := by
    unfold Aside.body
    cases a.note with
    | none => exact ends_cons.2 feed
    | some text => exact ends_cons.2 mark
  have shape : a.written ++ s = a.indent ++ (a.body ++ '\n' :: s) := by simp [Aside.written]
  have blank : gap.Reads (a.indent ++ (a.body ++ '\n' :: s)) () (a.body ++ '\n' :: s) :=
    (reads_row a.blank (begins (by decide) (by decide))).bind_pure _
  have noMark : Ends (· == '@') (a.body ++ '\n' :: s) := begins (by decide) (by decide)
  have noTag : Ends Char.isUpper (a.body ++ '\n' :: s) := begins (by decide) (by decide)
  have noHead : Ends Identifier.isHead (a.body ++ '\n' :: s) := begins (by decide) (by decide)
  have noItem := (fails_statement noMark noTag noHead).located.optional
  have vainItem := (vain_statement noMark noTag noHead).located.optional
  obtain ⟨ended, vainEnd⟩ := lineEnd_body a s
  rw [shape]
  refine ⟨?_,
    .bind blank (vain_gap _ _) (.bind noItem vainItem (.bind ended vainEnd (.pure _ _ _)))⟩
  have read : entry.Reads (a.indent ++ (a.body ++ '\n' :: s)) _ s :=
    blank.bind (noItem.bind (ended.bind_pure _))
  unfold Aside.text?
  cases noted : a.note <;> rw [noted] at read <;> exact read

/-- Lines of this kind are read as their comments, and rules only fail in front of what stands
behind them. -/
theorem run_entries_asides (asides : List Aside) {r : List Char}
    {entries : List (List (Located Item))} {fs : List (List Char)}
    (h : entry.many.run s = ⟨some (entries, r), fs⟩) :
    ∃ notes gs, entry.many.run (asides.flatMap Aside.written ++ s) =
        ⟨some (notes ++ entries, r), gs ++ fs⟩ ∧
      notes.flatten.map (·.item) = (asides.filterMap Aside.text?).map Item.comment ∧
      ∀ tried ∈ gs, s.length < tried.length := by
  induction asides with
  | nil => exact ⟨[], [], h, rfl, by simp⟩
  | cons a rest ih =>
      obtain ⟨notes, gs, more, texts, behind⟩ := ih
      obtain ⟨read, vain⟩ := entry_aside a (rest.flatMap Aside.written ++ s)
      obtain ⟨hs, run⟩ := read.exists_run
      have short : (rest.flatMap Aside.written ++ s).length <
          (a.written ++ (rest.flatMap Aside.written ++ s)).length := by
        simp [Aside.written]
        omega
      refine ⟨(a.text?.toList.map fun text =>
        ⟨a.body ++ '\n' :: (rest.flatMap Aside.written ++ s), .comment text⟩) :: notes,
        hs ++ gs, ?_, ?_, ?_⟩
      · rw [List.flatMap_cons, List.append_assoc]
        change manyFrom entry _ = _
        change manyFrom entry _ = _ at more
        rw [manyFrom, run]
        simp only [short, if_true, more, Option.map_some, List.cons_append, List.append_assoc]
      · rw [List.flatten_cons, List.map_append, texts, List.map_map]
        unfold Function.comp
        cases told : a.text? <;> simp [told]
      · intro tried mem
        rcases List.mem_append.1 mem with mem | mem
        · rw [vain tried (by rwa [run])]
          simp
          omega
        · exact behind tried mem

/-- The furthest place stays where it is if all others that are added are in front of the text. -/
theorem furthest_append {front r : List Char} {fs gs : List (List Char)}
    (inside : ∀ tried ∈ fs, tried <:+ s) (left : r <:+ s)
    (before : ∀ tried ∈ gs, s.length < tried.length) :
    furthest (front ++ s) ((front ++ s) :: (gs ++ fs ++ [r])) = furthest s (s :: (fs ++ [r])) := by
  have least := furthest_le s (s :: (fs ++ [r]))
  have leastToo := furthest_le (front ++ s) ((front ++ s) :: (gs ++ fs ++ [r]))
  have mem := furthest_mem s (s :: (fs ++ [r]))
  have memToo := furthest_mem (front ++ s) ((front ++ s) :: (gs ++ fs ++ [r]))
  generalize furthest s (s :: (fs ++ [r])) = best at least mem
  generalize furthest (front ++ s) ((front ++ s) :: (gs ++ fs ++ [r])) = bestToo at leastToo memToo
  have final : best.length ≤ r.length := least r (by simp)
  have finalToo : bestToo.length ≤ r.length := leastToo r (by simp)
  have short := left.length_le
  -- Both are ends of the text, so that it is enough to compare their lengths.
  have within : best <:+ s ∧ bestToo.length ≤ best.length := by
    simp only [List.mem_cons, List.mem_append, List.not_mem_nil, or_false] at mem
    rcases mem with rfl | rfl | mem | rfl
    · exact ⟨List.suffix_refl _, by omega⟩
    · exact ⟨List.suffix_refl _, by omega⟩
    · exact ⟨inside _ mem, leastToo _ (by simp [mem])⟩
    · exact ⟨left, finalToo⟩
  have withinToo : bestToo <:+ s ∧ best.length ≤ bestToo.length := by
    have whole : bestToo = front ++ s → bestToo <:+ s ∧ best.length ≤ bestToo.length := by
      rintro rfl
      obtain rfl : front = [] := by
        rw [List.length_append] at finalToo
        exact List.length_eq_zero_iff.1 (by omega)
      exact ⟨List.suffix_refl _, within.1.length_le⟩
    simp only [List.mem_cons, List.mem_append, List.not_mem_nil, or_false] at memToo
    rcases memToo with same | same | (mem | mem) | rfl
    · exact whole same
    · exact whole same
    · have := before _ mem
      omega
    · exact ⟨inside _ mem, least _ (by simp [mem])⟩
    · exact ⟨left, final⟩
  exact (List.suffix_of_suffix_length_le withinToo.1 within.1 within.2).eq_of_length
    (Nat.le_antisymm within.2 withinToo.2)

end Grammar

/-! ## Comments are not looked at -/

namespace Statement

variable {α : Type} (texts : List String) (before : List (Statement α))

theorem filterMap_comments {β : Type} {part : Statement α → Option β}
    (none : ∀ text, part (.comment text) = none) :
    (texts.map Statement.comment ++ before).filterMap part = before.filterMap part := by
  have silent : (texts.map Statement.comment).filterMap part = [] := by
    refine List.filterMap_eq_nil_iff.2 fun s mem => ?_
    obtain ⟨text, -, rfl⟩ := List.mem_map.1 mem
    exact none text
  rw [List.filterMap_append, silent, List.nil_append]

theorem kindOf?_comments (id : String) :
    kindOf? (texts.map .comment ++ before) id = kindOf? before id := by
  rw [kindOf?, kindOf?, filterMap_comments texts before fun _ => rfl]

theorem declaresParameter_comments (name : String) :
    declaresParameter (texts.map .comment ++ before) name = declaresParameter before name := by
  rw [declaresParameter, declaresParameter, filterMap_comments texts before fun _ => rfl]

theorem knowsParameter_comments (name : String) :
    knowsParameter (texts.map .comment ++ before) name = knowsParameter before name := by
  rw [knowsParameter, knowsParameter, declaresParameter_comments]

theorem tweaks_comments (target : Endpoint) :
    tweaks (texts.map .comment ++ before) target = tweaks before target := by
  rw [tweaks, tweaks, filterMap_comments texts before fun _ => rfl]

theorem lays_comments [DecidableEq α] (c : Cable) :
    lays (texts.map .comment ++ before) c = lays before c := by
  rw [lays, lays, filterMap_comments texts before fun _ => rfl]

theorem hasHeader_comments :
    hasHeader (texts.map .comment ++ before) = hasHeader before := by
  have silent : (texts.map (Statement.comment (α := α))).any (·.header?.isSome) = false := by
    simp [List.any_map, header?]
  rw [hasHeader, List.any_append, silent, Bool.false_or, hasHeader]

end Statement

namespace Checker

open Statement

variable (registry : Registry) (texts : List String)

theorem check_behind_comments (before : List (Statement Float)) (i : Located Item) :
    check registry (texts.map .comment ++ before) i = check registry before i := by
  simp only [check, checkHeader, checkParameter, checkModule, checkCable, checkTweak, portsOf,
    hasHeader_comments, kindOf?_comments, declaresParameter_comments, knowsParameter_comments,
    tweaks_comments, lays_comments]

/-- Comments do not matter to what stands behind them. -/
theorem checkAll_behind_comments (before : List (Statement Float)) (items : List (Located Item)) :
    checkAll registry (texts.map .comment ++ before) items =
      (checkAll registry before items).map (texts.map .comment ++ ·) := by
  induction items generalizing before with
  | nil => rfl
  | cons i rest ih =>
      rw [checkAll_cons, checkAll_cons, check_behind_comments]
      cases check registry before i with
      | error fault => rfl
      | ok s =>
          change checkAll registry (texts.map .comment ++ before ++ [s]) rest =
            (checkAll registry (before ++ [s]) rest).map _
          rw [List.append_assoc, ih]

/-- Comments are let through. -/
theorem checkAll_comments {notes : List (Located Item)}
    (comments : notes.map (·.item) = texts.map Item.comment) (before : List (Statement Float))
    (items : List (Located Item)) :
    checkAll registry before (notes ++ items) =
      checkAll registry (before ++ texts.map .comment) items := by
  induction notes generalizing texts before with
  | nil =>
      cases texts with
      | nil => simp
      | cons text rest => cases comments
  | cons n rest ih =>
      cases texts with
      | nil => cases comments
      | cons text more =>
          obtain ⟨place, item⟩ := n
          rw [List.map_cons, List.map_cons, List.cons.injEq] at comments
          obtain ⟨rfl, comments⟩ := comments
          have next := ih more comments (before ++ [.comment text])
          rw [List.append_assoc] at next
          exact next

end Checker

/-! ## Texts behind such lines -/

namespace ParseError

/-- The error of a text that stands as many lines further down.  That there is no header is not told
of any line but the first. -/
def lowered (lines : Nat) : ParseError → ParseError
  | shape line => .shape (line + lines)
  | meaning line fault =>
    .meaning (if fault = .missingHeader then line else line + lines) fault

end ParseError

namespace Checker

open Grammar Statement

/-- Behind lines with nothing but comments the same items are read, or reading ends at the same
place. -/
theorem read_asides (asides : List Aside) (s : List Char) :
    (∃ notes items, read s = .ok items ∧
      read (asides.flatMap Aside.written ++ s) = .ok (notes ++ items) ∧
      notes.map (·.item) = (asides.filterMap Aside.text?).map Item.comment ∧
      ∀ i ∈ items, i.Within s) ∨
    ∃ place, read s = .error place ∧ read (asides.flatMap Aside.written ++ s) = .error place ∧
      place <:+ s := by
  obtain ⟨entries, r, fs, run⟩ := exists_entries s
  obtain ⟨notes, gs, runToo, texts, front⟩ := run_entries_asides asides run
  rw [read_eq run, read_eq runToo]
  have here : entry.many.Reads s entries r := by rw [Rule.Reads, run]
  by_cases left : r.dropWhile isGap = []
  · simp only [left, if_true]
    refine .inl ⟨notes.flatten, entries.flatten, rfl, ?_, texts, within_of_reads_entries here⟩
    rw [List.flatten_append]
  · simp only [left, if_false]
    have inside : ∀ tried ∈ fs, tried <:+ s := by
      intro tried mem
      exact inside_entry.many.tried s tried (by rwa [run])
    have blanks : r.dropWhile isGap <:+ s :=
      (List.dropWhile_suffix _).trans (inside_entry.many.suffix here)
    refine .inr ⟨_, rfl, by rw [furthest_append inside blanks front], suffix_furthest ?_⟩
    intro tried mem
    simp only [List.mem_cons, List.mem_append, List.not_mem_nil, or_false] at mem
    rcases mem with rfl | mem | rfl
    · exact List.suffix_refl _
    · exact inside tried mem
    · exact blanks

/-- A text behind lines with nothing but comments has the same statements behind these comments, or
the same error as many lines further down. -/
theorem parse_asides (registry : Registry) (asides : List Aside) (source : String) :
    parse registry (String.ofList (asides.flatMap Aside.written) ++ source) =
      match parse registry source with
      | .ok statements =>
        .ok ((asides.filterMap Aside.text?).map Statement.comment ++ statements)
      | .error e => .error (e.lowered asides.length) := by
  have text : (String.ofList (asides.flatMap Aside.written) ++ source).toList ++ ['\n'] =
      asides.flatMap Aside.written ++ (source.toList ++ ['\n']) := by simp
  rw [parse, parse, text]
  generalize source.toList ++ ['\n'] = s
  have below {place : List Char} (within : place <:+ s) :
      lineAt (asides.flatMap Aside.written ++ s) place = lineAt s place + asides.length := by
    rw [lineAt_front within, Aside.count_flatMap_written]
  unfold parseLines
  obtain ⟨notes, items, here, front, texts, within⟩ | ⟨place, here, front, within⟩ :=
    read_asides asides s
  · have same : checkAll registry [] (notes ++ items) = (checkAll registry [] items).map
        ((asides.filterMap Aside.text?).map Statement.comment ++ ·) := by
      rw [checkAll_comments registry _ texts, List.nil_append,
        ← checkAll_behind_comments, List.append_nil]
    simp only [here, front, same]
    cases checked : checkAll registry [] items with
    | error fault =>
        obtain ⟨other, inside⟩ := finds_checkAll within [] fault checked
        simp only [Except.map, below inside, ParseError.lowered, other, if_false]
    | ok statements =>
        simp only [Except.map, hasHeader_comments]
        split <;> rfl
  · simp only [here, front, below within, ParseError.lowered]

end Checker
end SynthPatch
