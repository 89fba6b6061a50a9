import SynthPatch.Language.Grammar
/-!
# What a rule reads

Whether a rule succeeds at the front of a text, what it makes of it and what it leaves does not
depend on the places it remembers.  Here that is said without them: a rule reads a thing and leaves
a rest, or it fails.  Each way to build a rule has its own laws, and from these follow the laws of
the smaller parts of the grammar.

Main results:

- Definitions {lit}`Rule.Reads` and {lit}`Rule.Fails`: a rule succeeds, or does not.
- Theorems {lit}`Rule.reads_bind_iff`, {lit}`Rule.fails_bind_iff`, {lit}`Rule.reads_many_iff`: how a
  rule that was built from others came to succeed or to fail.
- Theorems {lit}`Rule.Reads.bind`, {lit}`Rule.Reads.orElse_right`, {lit}`Rule.Reads.many_cons`:
  sequence, choice and repetition.
- Theorems {lit}`Grammar.reads_identifier`, {lit}`Grammar.reads_endpoint`: names and endpoints are
  read up to a character that cannot continue them.
-/

namespace SynthPatch
namespace Rule

variable {β γ : Type} {p q : Rule β} {f : β → Rule γ} {s r t : List Char} {x : β} {y : γ}

/-- The rule reads a thing at the front of a text and leaves a rest. -/
def Reads (p : Rule β) (s : List Char) (x : β) (r : List Char) : Prop :=
  (p.run s).result = some (x, r)

/-- The rule fails at the front of a text. -/
def Fails (p : Rule β) (s : List Char) : Prop :=
  (p.run s).result = none

theorem Reads.exists_run (h : p.Reads s x r) : ∃ fs, p.run s = ⟨some (x, r), fs⟩ :=
  ⟨(p.run s).failures, by rw [← h]⟩

theorem Fails.exists_run (h : p.Fails s) : ∃ fs, p.run s = ⟨none, fs⟩ :=
  ⟨(p.run s).failures, by rw [← h]⟩

/-! ## Sequence -/

theorem Reads.pure (x : β) (s : List Char) : (pure x : Rule β).Reads s x s :=
  rfl

theorem Reads.bind (hp : p.Reads s x r) (hf : (f x).Reads r y t) : (p >>= f).Reads s y t := by
  obtain ⟨fs, run⟩ := hp.exists_run
  rw [Reads, run_bind_of_eq_some run]
  exact hf

/-- What is read is put to use. -/
theorem Reads.bind_pure (g : β → γ) (hp : p.Reads s x r) :
    (p >>= fun x => Pure.pure (g x)).Reads s (g x) r :=
  hp.bind (.pure _ _)

theorem Fails.bind (h : p.Fails s) : (p >>= f).Fails s := by
  obtain ⟨fs, run⟩ := h.exists_run
  rw [Fails, run_bind_of_eq_none run]

theorem Reads.bind_fails (hp : p.Reads s x r) (hf : (f x).Fails r) : (p >>= f).Fails s := by
  obtain ⟨fs, run⟩ := hp.exists_run
  rw [Fails, run_bind_of_eq_some run]
  exact hf

/-! ## Choice and repetition -/

theorem Reads.orElse_left (h : p.Reads s x r) : (p.orElse q).Reads s x r := by
  obtain ⟨fs, run⟩ := h.exists_run
  simp only [Reads, orElse, run]

theorem Reads.orElse_right (hp : p.Fails s) (hq : q.Reads s x r) : (p.orElse q).Reads s x r := by
  obtain ⟨fs, run⟩ := hp.exists_run
  simp only [Reads, orElse, run]
  exact hq

theorem Fails.orElse (hp : p.Fails s) (hq : q.Fails s) : (p.orElse q).Fails s := by
  obtain ⟨fs, run⟩ := hp.exists_run
  simp only [Fails, Rule.orElse, run]
  exact hq

theorem Reads.optional (h : p.Reads s x r) : p.optional.Reads s (some x) r := by
  obtain ⟨fs, run⟩ := h.exists_run
  simp only [Reads, Rule.optional, run]

theorem Fails.optional (h : p.Fails s) : p.optional.Reads s none s := by
  obtain ⟨fs, run⟩ := h.exists_run
  simp only [Reads, Rule.optional, run]

theorem Reads.named (h : p.Reads s x r) : p.named.Reads s x r := by
  obtain ⟨fs, run⟩ := h.exists_run
  simp only [Reads, Rule.named, run]

theorem Fails.named (h : p.Fails s) : p.named.Fails s := by
  obtain ⟨fs, run⟩ := h.exists_run
  simp only [Fails, Rule.named, run]

/-- A row of things ends where the next one fails. -/
theorem Fails.many (h : p.Fails s) : p.many.Reads s [] s := by
  obtain ⟨fs, run⟩ := h.exists_run
  change (manyFrom p s).result = _
  rw [manyFrom, run]

/-- A row of things goes on behind a thing that takes text away. -/
theorem Reads.many_cons {xs : List β} (one : p.Reads s x r) (short : r.length < s.length)
    (more : p.many.Reads r xs t) : p.many.Reads s (x :: xs) t := by
  obtain ⟨fs, run⟩ := one.exists_run
  obtain ⟨gs, runMore⟩ := more.exists_run
  change (manyFrom p s).result = _
  change manyFrom p r = _ at runMore
  rw [manyFrom, run]
  simp only [short, if_true, runMore]
  rfl

/-- A thing that takes no text away ends the row. -/
theorem Reads.many_once (one : p.Reads s x r) (long : ¬ r.length < s.length) :
    p.many.Reads s [x] r := by
  obtain ⟨fs, run⟩ := one.exists_run
  change (manyFrom p s).result = _
  rw [manyFrom, run]
  simp only [long, if_false]

/-- A row of things is read wherever it is tried, if it is an empty one. -/
theorem many_succeeds (p : Rule β) (s : List Char) : ¬ p.many.Fails s := by
  change ¬ (manyFrom p s).result = none
  fun_induction manyFrom p s with
  | case1 s fs run => simp
  | case2 s x r fs run short more gs inner ih => simpa [inner] using ih
  | case3 s x r fs run long => simp

theorem Reads.located (h : p.Reads s x r) : (Grammar.located p).Reads s ⟨s, x⟩ r := by
  obtain ⟨fs, run⟩ := h.exists_run
  simp only [Reads, Grammar.located, run]

theorem Fails.located (h : p.Fails s) : (Grammar.located p).Fails s := by
  obtain ⟨fs, run⟩ := h.exists_run
  simp only [Fails, Grammar.located, run]

/-! ## How a rule succeeded or failed -/

theorem reads_pure_iff {x y : β} : (pure x : Rule β).Reads s y r ↔ y = x ∧ r = s := by
  constructor
  · intro h
    cases h
    exact ⟨rfl, rfl⟩
  · rintro ⟨rfl, rfl⟩
    exact .pure _ _

theorem reads_or_fails (p : Rule β) (s : List Char) : (∃ x r, p.Reads s x r) ∨ p.Fails s := by
  cases read : (p.run s).result with
  | none => exact .inr read
  | some found => exact .inl ⟨found.1, found.2, read⟩

theorem Reads.unique {x' : β} {r' : List Char} (h : p.Reads s x r) (h' : p.Reads s x' r') :
    x = x' ∧ r = r' := by
  cases h.symm.trans h'
  exact ⟨rfl, rfl⟩

theorem Reads.not_fails (h : p.Reads s x r) : ¬ p.Fails s := by
  intro fails
  cases h.symm.trans fails

/-- A rule behind another succeeded where that one had stopped. -/
theorem reads_bind_iff : (p >>= f).Reads s y t ↔ ∃ x r, p.Reads s x r ∧ (f x).Reads r y t := by
  constructor
  · intro h
    rcases reads_or_fails p s with ⟨x, r, hp⟩ | hp
    · obtain ⟨fs, run⟩ := hp.exists_run
      rw [Reads, run_bind_of_eq_some run] at h
      exact ⟨x, r, hp, h⟩
    · exact absurd hp.bind h.not_fails
  · rintro ⟨x, r, hp, hf⟩
    exact hp.bind hf

/-- A row of two rules failed in the first of them or in the second. -/
theorem fails_bind_iff : (p >>= f).Fails s ↔ p.Fails s ∨ ∃ x r, p.Reads s x r ∧ (f x).Fails r := by
  constructor
  · intro h
    rcases reads_or_fails p s with ⟨x, r, hp⟩ | hp
    · obtain ⟨fs, run⟩ := hp.exists_run
      rw [Fails, run_bind_of_eq_some run] at h
      exact .inr ⟨x, r, hp, h⟩
    · exact .inl hp
  · rintro (hp | ⟨x, r, hp, hf⟩)
    · exact hp.bind
    · exact hp.bind_fails hf

theorem reads_orElse_iff :
    (p.orElse q).Reads s x r ↔ p.Reads s x r ∨ p.Fails s ∧ q.Reads s x r := by
  constructor
  · intro h
    rcases reads_or_fails p s with ⟨y, t, hp⟩ | hp
    · obtain ⟨rfl, rfl⟩ := hp.orElse_left.unique h
      exact .inl hp
    · obtain ⟨fs, run⟩ := hp.exists_run
      simp only [Reads, orElse, run] at h
      exact .inr ⟨hp, h⟩
  · rintro (hp | ⟨hp, hq⟩)
    · exact hp.orElse_left
    · exact hq.orElse_right hp

theorem fails_orElse_iff : (p.orElse q).Fails s ↔ p.Fails s ∧ q.Fails s := by
  constructor
  · intro h
    rcases reads_or_fails p s with ⟨y, t, hp⟩ | hp
    · exact absurd h hp.orElse_left.not_fails
    · rcases reads_or_fails q s with ⟨y, t, hq⟩ | hq
      · exact absurd h (hq.orElse_right hp).not_fails
      · exact ⟨hp, hq⟩
  · rintro ⟨hp, hq⟩
    exact hp.orElse hq

theorem reads_optional_iff {found : Option β} : p.optional.Reads s found r ↔
    (∃ x, found = some x ∧ p.Reads s x r) ∨ (found = none ∧ r = s ∧ p.Fails s) := by
  constructor
  · intro h
    rcases reads_or_fails p s with ⟨x, t, hp⟩ | hp
    · obtain ⟨rfl, rfl⟩ := hp.optional.unique h
      exact .inl ⟨x, rfl, hp⟩
    · obtain ⟨rfl, rfl⟩ := hp.optional.unique h
      exact .inr ⟨rfl, rfl, hp⟩
  · rintro (⟨x, rfl, hp⟩ | ⟨rfl, rfl, hp⟩)
    · exact hp.optional
    · exact hp.optional

/-- Something that may be missing does not keep a row from being read. -/
theorem not_fails_optional : ¬ p.optional.Fails s := by
  rcases reads_or_fails p s with ⟨x, t, hp⟩ | hp
  · exact hp.optional.not_fails
  · exact hp.optional.not_fails

theorem reads_named_iff : p.named.Reads s x r ↔ p.Reads s x r := by
  refine ⟨fun h => ?_, Reads.named⟩
  rcases reads_or_fails p s with ⟨y, t, hp⟩ | hp
  · obtain ⟨rfl, rfl⟩ := hp.named.unique h
    exact hp
  · exact absurd hp.named h.not_fails

theorem fails_named_iff : p.named.Fails s ↔ p.Fails s := by
  refine ⟨fun h => ?_, Fails.named⟩
  rcases reads_or_fails p s with ⟨y, t, hp⟩ | hp
  · exact absurd h hp.named.not_fails
  · exact hp

theorem reads_located_iff {l : Located β} :
    (Grammar.located p).Reads s l r ↔ l.place = s ∧ p.Reads s l.item r := by
  constructor
  · intro h
    rcases reads_or_fails p s with ⟨y, t, hp⟩ | hp
    · obtain ⟨rfl, rfl⟩ := hp.located.unique h
      exact ⟨rfl, hp⟩
    · exact absurd hp.located h.not_fails
  · obtain ⟨place, item⟩ := l
    rintro ⟨rfl, hp⟩
    exact hp.located

theorem fails_located_iff : (Grammar.located p).Fails s ↔ p.Fails s := by
  refine ⟨fun h => ?_, Fails.located⟩
  rcases reads_or_fails p s with ⟨y, t, hp⟩ | hp
  · exact absurd h hp.located.not_fails
  · exact hp

/-- A row of things ends at once, or where a thing took no text away, or goes on behind a thing. -/
theorem reads_many_iff {xs : List β} : p.many.Reads s xs t ↔
    (xs = [] ∧ t = s ∧ p.Fails s) ∨
    (∃ x, xs = [x] ∧ p.Reads s x t ∧ ¬ t.length < s.length) ∨
    ∃ x rest r, xs = x :: rest ∧ p.Reads s x r ∧ r.length < s.length ∧ p.many.Reads r rest t := by
  constructor
  · intro h
    rcases reads_or_fails p s with ⟨x, r, hp⟩ | hp
    · by_cases short : r.length < s.length
      · obtain ⟨rest, t', more⟩ : ∃ rest t', p.many.Reads r rest t' := by
          refine (reads_or_fails p.many r).elim id fun fails => ?_
          exact absurd fails (many_succeeds p r)
        obtain ⟨rfl, rfl⟩ := (hp.many_cons short more).unique h
        exact .inr (.inr ⟨x, rest, r, rfl, hp, short, more⟩)
      · obtain ⟨rfl, rfl⟩ := (hp.many_once short).unique h
        exact .inr (.inl ⟨x, rfl, hp, short⟩)
    · obtain ⟨rfl, rfl⟩ := hp.many.unique h
      exact .inl ⟨rfl, rfl, hp⟩
  · rintro (⟨rfl, rfl, hp⟩ | ⟨x, rfl, hp, long⟩ | ⟨x, rest, r, rfl, hp, short, more⟩)
    · exact hp.many
    · exact hp.many_once long
    · exact hp.many_cons short more

/-! ## Characters -/

/-- A row of such characters ends in front of the text. -/
def Ends (among : Char → Bool) (s : List Char) : Prop :=
  ∀ c ∈ s.head?, among c = false

variable {among first : Char → Bool} {c : Char} {word text : List Char}

theorem ends_cons : Ends among (c :: s) ↔ among c = false := by
  simp [Ends]

theorem reads_literal (text rest : List Char) : (literal text).Reads (text ++ rest) () rest := by
  induction text with
  | nil => rfl
  | cons c more ih => simpa [Reads, literal] using ih

theorem fails_literal (other : Ends (· == c) s) : (literal (c :: text)).Fails s := by
  cases s with
  | nil => rfl
  | cons d rest =>
      have differ : d ≠ c := by simpa using ends_cons.1 other
      simp [Fails, literal, differ.symm]

theorem reads_row (inside : ∀ c ∈ word, among c = true) (ends : Ends among s) :
    (row among).Reads (word ++ s) word s := by
  have taken : (word ++ s).takeWhile among = word := by
    rw [List.takeWhile_append_of_pos inside]
    cases s with
    | nil => simp
    | cons c rest => simp [ends_cons.1 ends]
  have left : (word ++ s).dropWhile among = s := by
    rw [List.dropWhile_append_of_pos inside]
    cases s with
    | nil => simp
    | cons c rest => simp [ends_cons.1 ends]
  simp only [Reads, row, taken, left]

theorem reads_word (head : first c = true) (inside : ∀ d ∈ word, among d = true)
    (ends : Ends among s) : (Rule.word first among).Reads (c :: word ++ s) (c :: word) s := by
  have rest := reads_row inside ends
  simp only [Reads, row, Option.some.injEq, Prod.mk.injEq] at rest
  simp only [Reads, Rule.word, List.cons_append, head, if_true, rest]

theorem fails_word (other : Ends first s) : (Rule.word first among).Fails s := by
  cases s with
  | nil => rfl
  | cons c rest => simp [Fails, Rule.word, ends_cons.1 other]

end Rule

/-! ## Blanks, line breaks and names -/

/-- An identifier is a head with tails behind it. -/
theorem Identifier.exists_of_isValid {name : List Char} (valid : isValid name = true) :
    ∃ c more, name = c :: more ∧ isHead c = true ∧ ∀ d ∈ more, isTail d = true := by
  cases name with
  | nil => cases valid
  | cons c more =>
      rw [isValid, Bool.and_eq_true, List.all_eq_true] at valid
      exact ⟨c, more, rfl, valid⟩

namespace Grammar

open Rule

variable {s t : List Char}

/-- A character that some function tells from the blanks of an entry is none of them. -/
theorem isGap_eq_false {among : Char → Bool} {b : Bool} {c : Char} (h : among c = b)
    (space : among ' ' ≠ b) (tab : among '\t' ≠ b) : isGap c = false := by
  rw [isGap, Bool.or_eq_false_iff, beq_eq_false_iff_ne, beq_eq_false_iff_ne]
  constructor
  · rintro rfl
    exact space h
  · rintro rfl
    exact tab h

/-- A character that some function tells from another is not the other. -/
theorem beq_eq_false {among : Char → Bool} {b : Bool} {c d : Char} (h : among c = b)
    (other : among d ≠ b) : (c == d) = false := by
  rw [beq_eq_false_iff_ne]
  rintro rfl
  exact other h

theorem reads_gap (ends : Ends isGap s) : gap.Reads s () s :=
  (reads_row (by simp : ∀ c ∈ [], isGap c = true) ends).bind_pure _

theorem reads_gap_space (ends : Ends isGap s) : gap.Reads (' ' :: s) () s :=
  (reads_row (by simp [isGap] : ∀ c ∈ [' '], isGap c = true) ends).bind_pure _

theorem reads_mark {text : String} (h : gap.Reads s () (text.toList ++ t)) :
    (mark text).Reads s () t :=
  h.bind (reads_literal text.toList t)

theorem fails_mark {text : String} (h : gap.Reads s () t)
    (other : (Rule.literal text.toList).Fails t) : (mark text).Fails s :=
  h.bind_fails other

theorem reads_newline (s : List Char) : newline.Reads ('\n' :: s) () s :=
  (reads_literal ['\n'] s).orElse_left

theorem fails_newline (other : Ends isBreak s) : newline.Fails s := by
  have noBreak : ∀ c ∈ s.head?, (c == '\n') = false ∧ (c == '\r') = false := by
    intro c mem
    simpa [isBreak] using other c mem
  have noReturn : Ends (· == '\r') s := fun c mem => (noBreak c mem).2
  exact (fails_literal fun c mem => (noBreak c mem).1).orElse
    ((fails_literal noReturn).orElse (fails_literal noReturn))

/-- An identifier is read up to a character that cannot continue it. -/
theorem reads_identifier {name : String} (valid : Identifier.isValid name.toList = true)
    (ends : Ends Identifier.isTail s) : identifier.Reads (name.toList ++ s) name s := by
  obtain ⟨c, more, chars, head, tail⟩ := Identifier.exists_of_isValid valid
  have read := (reads_word head tail ends).bind_pure String.ofList
  rw [← chars, String.ofList_toList] at read
  exact read.named

theorem fails_identifier (other : Ends Identifier.isHead s) : identifier.Fails s :=
  ((fails_word other).bind).named

/-- An endpoint is read up to a character that cannot continue its port. -/
theorem reads_endpoint {e : Endpoint} (module : Identifier.isValid e.module.toList = true)
    (port : Identifier.isValid e.port.toList = true) (ends : Ends Identifier.isTail s) :
    endpoint.Reads (e.text.toList ++ s) e s := by
  have text : e.text.toList ++ s = e.module.toList ++ ('.' :: (e.port.toList ++ s)) := by
    simp [Endpoint.text]
  rw [text]
  have name := reads_identifier module
    (ends_cons.2 (by decide) : Ends _ ('.' :: (e.port.toList ++ s)))
  exact (name.bind ((reads_literal ['.'] _).bind ((reads_identifier port ends).bind_pure _))).named

theorem fails_endpoint (other : Ends Identifier.isHead s) : endpoint.Fails s :=
  (fails_identifier other).bind.named

theorem reads_quoted {text : List Char} (noQuote : '"' ∉ text) (s : List Char) :
    quoted.Reads ('"' :: (text ++ '"' :: s)) (String.ofList text) s := by
  have inside : ∀ c ∈ text, (c != '"') = true :=
    fun c mem => bne_iff_ne.2 fun same => noQuote (same ▸ mem)
  have row := reads_row inside (ends_cons.2 (by decide) : Ends (· != '"') ('"' :: s))
  exact ((reads_literal ['"'] _).bind (row.bind ((reads_literal ['"'] s).bind_pure _))).named

/-! ## Ends of lines -/

/-- A line may end right away. -/
theorem reads_lineEnd (s : List Char) : lineEnd.Reads ('\n' :: s) none s := by
  have blank : gap.Reads ('\n' :: s) () ('\n' :: s) := reads_gap (ends_cons.2 (by decide))
  have noNote : comment.Fails ('\n' :: s) := (fails_word (ends_cons.2 (by decide))).named
  exact blank.bind (noNote.located.optional.bind (blank.bind ((reads_newline s).bind_pure _)))

/-- A line may end in a comment. -/
theorem reads_lineEnd_comment {note : List Char} (inside : ∀ c ∈ note, isBreak c = false)
    (s : List Char) :
    lineEnd.Reads ('#' :: note ++ '\n' :: s) (some ⟨'#' :: note ++ '\n' :: s, '#' :: note⟩) s := by
  have front : gap.Reads ('#' :: note ++ '\n' :: s) () ('#' :: note ++ '\n' :: s) :=
    reads_gap (ends_cons.2 (by decide))
  have noted : comment.Reads ('#' :: note ++ '\n' :: s) ('#' :: note) ('\n' :: s) :=
    (reads_word (by decide) (by simpa using inside) (ends_cons.2 (by decide))).named
  have blank : gap.Reads ('\n' :: s) () ('\n' :: s) := reads_gap (ends_cons.2 (by decide))
  exact front.bind (noted.located.optional.bind (blank.bind ((reads_newline s).bind_pure _)))

/-- The line goes on, or there is none. -/
theorem fails_lineEnd (goesOn : Ends (fun c => isGap c || isBreak c || c == '#') s) :
    lineEnd.Fails s := by
  have other : ∀ c ∈ s.head?, isGap c = false ∧ isBreak c = false ∧ (c == '#') = false := by
    intro c mem
    simpa [and_assoc] using goesOn c mem
  have blank : gap.Reads s () s := reads_gap fun c mem => (other c mem).1
  have noNote : comment.Fails s := (fails_word fun c mem => (other c mem).2.2).named
  have noBreak : newline.Fails s := fails_newline fun c mem => (other c mem).2.1
  exact blank.bind_fails (noNote.located.optional.bind_fails (blank.bind_fails noBreak.bind))

/-! ## Places where no statement begins -/

/-- A block is not read where no at-sign stands. -/
theorem fails_block {opening : String} {text : List Char} (mark : opening.toList = '@' :: text)
    (other : Ends (· == '@') s) : (block opening).Fails s := by
  have noMark : (Rule.literal opening.toList).Fails s := by
    rw [mark]
    exact fails_literal other
  exact noMark.bind.named

/-- No statement is read where none can begin. -/
theorem fails_statement (noMark : Ends (· == '@') s) (noTag : Ends Char.isUpper s)
    (noHead : Ends Identifier.isHead s) : statement.Fails s := by
  have noBlock {opening : String} {text : List Char} (mark : opening.toList = '@' :: text) :
      (block opening).Fails s :=
    fails_block mark noMark
  have noModule : moduleDecl.Fails s := (fails_word noTag).bind.named.bind.named
  have noEndpoint : endpoint.Fails s := fails_endpoint noHead
  exact (noBlock rfl).bind.orElse ((noBlock rfl).bind.orElse
    (noModule.orElse (noEndpoint.bind.named.orElse noEndpoint.bind.named)))

end Grammar
end SynthPatch
