import Mathlib.Data.List.TakeWhile
import SynthPatch.Proofs.Language.Placing
/-!
# Rules that do not look behind a line

Most rules of the grammar stop at a line feed at the latest.  On a text that ends in one they do the
same whatever stands behind that text.  A quoted value is the exception: it may run over the end of
its line, and where no other quote closes it the rest of the line is taken as it is.  So entries are
read as before unless a quote is left open in them.

Main results:

- Structure {lit}`Rule.Steady`: a rule stops within its line.
- Definition {lit}`Located.IsOpen`: the value of an attribute begins with a quote that is left open.
- Theorem {lit}`Grammar.reads_value_append`: a value is read as before unless its quote is open.
- Theorem {lit}`Grammar.chain_entry_append`: so are entries.
-/

namespace SynthPatch

/-! ## Texts made of lines -/

/-- The text ends in a line feed. -/
def Lined (s : List Char) : Prop :=
  s.getLast? = some '\n'

namespace Lined

variable {s r : List Char}

theorem ne_nil (h : Lined s) : s ≠ [] := by
  rintro rfl
  cases h

/-- What is left of lines are lines again. -/
theorem of_suffix (h : Lined s) (sub : r <:+ s) (filled : r ≠ []) : Lined r := by
  obtain ⟨front, rfl⟩ := sub
  rwa [Lined, List.getLast?_append_of_ne_nil _ filled] at h

/-- A character other than a line feed is not the last. -/
theorem of_cons {c : Char} (h : Lined (c :: s)) (other : c ≠ '\n') : Lined s := by
  refine h.of_suffix (List.suffix_cons c s) ?_
  rintro rfl
  exact other (by simpa [Lined] using h)

/-- Characters among which there is no line feed do not make up the whole text. -/
theorem dropWhile_ne_nil (h : Lined s) {among : Char → Bool} (noFeed : among '\n' = false) :
    s.dropWhile among ≠ [] := by
  have mem : '\n' ∈ s := List.mem_of_getLast? h
  intro all
  have := List.dropWhile_eq_nil_iff.1 all '\n' mem
  rw [noFeed] at this
  cases this

end Lined

/-! ## Rules -/

namespace Rule

variable {β γ : Type} {p q : Rule β} {f : β → Rule γ} {s r : List Char} {x : β}

/-- Things are read one after another; each takes text away. -/
inductive Chain (p : Rule β) : List Char → List β → List Char → Prop
  | nil (s : List Char) : Chain p s [] s
  | cons {s r t : List Char} {x : β} {xs : List β} (one : p.Reads s x r)
      (short : r.length < s.length) (more : Chain p r xs t) : Chain p s (x :: xs) t

namespace Chain

variable {xs ys : List β} {t : List Char}

theorem append_iff : p.Chain s (xs ++ ys) t ↔ ∃ r, p.Chain s xs r ∧ p.Chain r ys t := by
  constructor
  · intro h
    induction xs generalizing s with
    | nil => exact ⟨s, .nil s, h⟩
    | cons x xs ih =>
        obtain _ | ⟨one, short, more⟩ := h
        obtain ⟨r, front, back⟩ := ih more
        exact ⟨r, .cons one short front, back⟩
  · rintro ⟨r, front, back⟩
    induction front with
    | nil => exact back
    | cons one short _ ih => exact .cons one short (ih back)

theorem suffix (h : p.Chain s xs r) (left : p.Shortens) : r <:+ s := by
  induction h with
  | nil => exact List.suffix_refl _
  | cons one _ _ ih =>
      obtain ⟨fs, run⟩ := one.exists_run
      exact ih.trans (left run)

end Chain

/-- A rule that takes text away is tried until it fails. -/
theorem reads_many_iff_chain (shortens : ∀ {s x r}, p.Reads s x r → r.length < s.length)
    {xs : List β} : p.many.Reads s xs r ↔ p.Chain s xs r ∧ p.Fails r := by
  constructor
  · intro h
    induction xs generalizing s with
    | nil =>
        rcases reads_many_iff.1 h with ⟨-, rfl, failed⟩ | ⟨_, none, -⟩ | ⟨_, _, _, none, -⟩
        · exact ⟨.nil _, failed⟩
        · cases none
        · cases none
    | cons x xs ih =>
        rcases reads_many_iff.1 h with
          ⟨none, -⟩ | ⟨_, -, one, long⟩ | ⟨_, _, _, same, one, short, more⟩
        · cases none
        · exact absurd (shortens one) long
        · cases same
          exact ⟨.cons one short (ih more).1, (ih more).2⟩
  · rintro ⟨chain, failed⟩
    induction chain with
    | nil => exact failed.many
    | cons one short _ ih => exact one.many_cons short (ih failed)

/-- On lines the rule does the same, whatever stands behind them. -/
structure Stable (p : Rule β) : Prop where
  left : p.Shortens
  reads : ∀ {s x r}, Lined s → p.Reads s x r → ∀ t, p.Reads (s ++ t) x (r ++ t)
  fails : ∀ {s}, Lined s → p.Fails s → ∀ t, p.Fails (s ++ t)

/-- The rule stops within its line at that. -/
structure Steady (p : Rule β) : Prop extends Stable p where
  keeps : ∀ {s x r}, Lined s → p.Reads s x r → Lined r

theorem Stable.suffix (h : p.Stable) (read : p.Reads s x r) : r <:+ s := by
  obtain ⟨fs, run⟩ := read.exists_run
  exact h.left run

theorem reads_row_iff {among : Char → Bool} {word : List Char} :
    (row among).Reads s word r ↔ s.takeWhile among = word ∧ s.dropWhile among = r := by
  simp [Reads, row]

/-- A row that ends within a text is the same with more text behind it. -/
theorem Reads.row_append {among : Char → Bool} {word : List Char}
    (h : (row among).Reads s word r) (ended : r ≠ []) (t : List Char) :
    (row among).Reads (s ++ t) word (r ++ t) := by
  obtain ⟨rfl, rfl⟩ := reads_row_iff.1 h
  have behind : (s ++ t).dropWhile among = s.dropWhile among ++ t := by
    rw [List.dropWhile_append, if_neg (by simpa using ended)]
  have front : (s ++ t).takeWhile among = s.takeWhile among := by
    refine (List.append_left_inj (s.dropWhile among ++ t)).1 ?_
    rw [← behind, List.takeWhile_append_dropWhile, behind, ← List.append_assoc,
      List.takeWhile_append_dropWhile]
  exact reads_row_iff.2 ⟨front, behind⟩

/-- A fixed text that is read stands in front. -/
theorem eq_append_of_reads_literal {text : List Char} {u : Unit}
    (h : (literal text).Reads s u r) : s = text ++ r := by
  induction text generalizing s with
  | nil => exact (reads_pure_iff.1 h).2.symm
  | cons c rest ih =>
      cases s with
      | nil => cases h
      | cons d more =>
          simp only [Reads, literal] at h
          split at h
          · next same =>
              obtain rfl : c = d := by simpa using same
              rw [ih h, List.cons_append]
          · cases h

/-- A word is a first character and the row behind it. -/
theorem reads_word_iff {first among : Char → Bool} {word : List Char} :
    (Rule.word first among).Reads s word r ↔
      ∃ c rest more, s = c :: rest ∧ first c = true ∧ (row among).Reads rest more r ∧
        word = c :: more := by
  cases s with
  | nil => simp [Reads, Rule.word]
  | cons c rest =>
      cases head : first c with
      | true =>
          simp only [Reads, Rule.word, row, head, if_true, Option.some.injEq, Prod.mk.injEq]
          constructor
          · rintro ⟨rfl, rfl⟩
            exact ⟨c, rest, _, rfl, head, ⟨rfl, rfl⟩, rfl⟩
          · rintro ⟨_, _, more, same, -, ⟨rfl, rfl⟩, rfl⟩
            cases same
            exact ⟨rfl, rfl⟩
      | false =>
          refine iff_of_false (by simp [Reads, Rule.word, head]) ?_
          rintro ⟨_, _, _, same, head', -⟩
          cases same
          rw [head] at head'
          cases head'

theorem fails_word_iff {first among : Char → Bool} :
    (Rule.word first among).Fails s ↔ Ends first s := by
  refine ⟨fun failed => ?_, fails_word⟩
  cases s with
  | nil => simp [Ends]
  | cons c rest =>
      cases head : first c with
      | true => simp [Fails, Rule.word, head] at failed
      | false => exact ends_cons.2 head

theorem Stable.literal {text : List Char} (oneLine : '\n' ∉ text.dropLast) :
    (Rule.literal text).Stable where
  left := Shortens.literal text
  reads {s x r} lined read t := by
    clear oneLine lined
    induction text generalizing s with
    | nil =>
        obtain ⟨-, rfl⟩ := reads_pure_iff.1 read
        exact .pure _ _
    | cons c rest ih =>
        cases s with
        | nil => cases read
        | cons d more =>
            simp only [Reads, Rule.literal, List.cons_append] at read ⊢
            split at read
            · next same =>
                rw [if_pos same]
                exact ih read
            · cases read
  fails {s} lined failed t := by
    induction text generalizing s with
    | nil => cases failed
    | cons c rest ih =>
        cases s with
        | nil => exact absurd rfl lined.ne_nil
        | cons d more =>
            simp only [Fails, Rule.literal, List.cons_append] at failed ⊢
            split at failed
            · next same =>
                obtain rfl : c = d := by simpa using same
                rw [if_pos same]
                cases rest with
                | nil => cases failed
                | cons e others =>
                    rw [List.dropLast_cons_cons, List.mem_cons, not_or] at oneLine
                    exact ih oneLine.2 (lined.of_cons fun is => oneLine.1 is.symm) failed
            · next other => rw [if_neg other]

theorem Stable.orElse (hp : p.Stable) (hq : q.Stable) : (p.orElse q).Stable where
  left := Shortens.orElse hp.left hq.left
  reads lined read t := by
    rcases reads_orElse_iff.1 read with read | ⟨failed, read⟩
    · exact (hp.reads lined read t).orElse_left
    · exact (hq.reads lined read t).orElse_right (hp.fails lined failed t)
  fails lined failed t := by
    obtain ⟨first, second⟩ := fails_orElse_iff.1 failed
    exact (hp.fails lined first t).orElse (hq.fails lined second t)

namespace Steady

theorem pure (x : β) : (Pure.pure x : Rule β).Steady where
  left := Shortens.pure x
  keeps lined read := by
    obtain ⟨-, rfl⟩ := reads_pure_iff.1 read
    exact lined
  reads _ read t := by
    obtain ⟨rfl, rfl⟩ := reads_pure_iff.1 read
    exact .pure _ _
  fails _ failed _ := by cases failed

theorem literal {text : List Char} (oneLine : '\n' ∉ text) : (Rule.literal text).Steady where
  toStable := .literal fun mem => oneLine (List.dropLast_subset _ mem)
  keeps {s x r} lined read := by
    induction text generalizing s with
    | nil =>
        obtain ⟨-, rfl⟩ := reads_pure_iff.1 read
        exact lined
    | cons c rest ih =>
        rw [List.mem_cons, not_or] at oneLine
        cases s with
        | nil => cases read
        | cons d more =>
            simp only [Reads, Rule.literal] at read
            split at read
            · next same =>
                obtain rfl : c = d := by simpa using same
                exact ih oneLine.2 (lined.of_cons fun is => oneLine.1 is.symm) read
            · cases read

theorem row {among : Char → Bool} (noFeed : among '\n' = false) : (Rule.row among).Steady where
  left := Shortens.row among
  keeps lined read := by
    rw [← (reads_row_iff.1 read).2]
    exact lined.of_suffix (List.dropWhile_suffix _) (lined.dropWhile_ne_nil noFeed)
  reads lined read t := by
    refine read.row_append ?_ t
    rw [← (reads_row_iff.1 read).2]
    exact lined.dropWhile_ne_nil noFeed
  fails _ failed _ := by cases failed

theorem word {first among : Char → Bool} (noFeed : first '\n' = false)
    (noFeed' : among '\n' = false) : (Rule.word first among).Steady where
  left := Shortens.word first among
  keeps lined read := by
    obtain ⟨c, rest, more, rfl, head, read, -⟩ := reads_word_iff.1 read
    refine (row noFeed').keeps (lined.of_cons ?_) read
    rintro rfl
    rw [noFeed] at head
    cases head
  reads lined read t := by
    obtain ⟨c, rest, more, rfl, head, others, rfl⟩ := reads_word_iff.1 read
    have feed : c ≠ '\n' := by
      rintro rfl
      rw [noFeed] at head
      cases head
    have behind := (row noFeed').reads (lined.of_cons feed) others t
    exact reads_word_iff.2 ⟨c, rest ++ t, more, rfl, head, behind, rfl⟩
  fails {s} lined failed t := by
    cases s with
    | nil => exact absurd rfl lined.ne_nil
    | cons c rest => exact fails_word (ends_cons.2 (ends_cons.1 (fails_word_iff.1 failed)))

theorem bind_stable (hp : p.Steady) (hf : ∀ x, (f x).Stable) : (p >>= f).Stable where
  left := Shortens.bind hp.left fun x => (hf x).left
  reads lined read t := by
    obtain ⟨x, r, first, read⟩ := reads_bind_iff.1 read
    exact (hp.reads lined first t).bind ((hf x).reads (hp.keeps lined first) read t)
  fails lined failed t := by
    rcases fails_bind_iff.1 failed with failed | ⟨x, r, first, failed⟩
    · exact (hp.fails lined failed t).bind
    · exact (hp.reads lined first t).bind_fails ((hf x).fails (hp.keeps lined first) failed t)

theorem bind (hp : p.Steady) (hf : ∀ x, (f x).Steady) : (p >>= f).Steady where
  toStable := hp.bind_stable fun x => (hf x).toStable
  keeps lined read := by
    obtain ⟨x, r, first, read⟩ := reads_bind_iff.1 read
    exact (hf x).keeps (hp.keeps lined first) read

theorem optional (hp : p.Steady) : p.optional.Steady where
  left := Shortens.optional hp.left
  keeps lined read := by
    rcases reads_optional_iff.1 read with ⟨x, -, read⟩ | ⟨-, rfl, -⟩
    · exact hp.keeps lined read
    · exact lined
  reads lined read t := by
    rcases reads_optional_iff.1 read with ⟨x, rfl, found⟩ | ⟨rfl, rfl, failed⟩
    · exact (hp.reads lined found t).optional
    · exact (hp.fails lined failed t).optional
  fails _ failed _ := absurd failed not_fails_optional

theorem named (hp : p.Steady) : p.named.Steady where
  left := Shortens.named hp.left
  keeps lined read := hp.keeps lined (reads_named_iff.1 read)
  reads lined read t := (hp.reads lined (reads_named_iff.1 read) t).named
  fails lined failed t := (hp.fails lined (fails_named_iff.1 failed) t).named

end Steady
end Rule

/-! ## The parts of a line -/

namespace Grammar

open Rule

variable {s r : List Char}

theorem steady_gap : gap.Steady :=
  (Steady.row (by decide)).bind fun _ => .pure _

theorem steady_mark {text : String} (oneLine : '\n' ∉ text.toList) : (mark text).Steady :=
  steady_gap.bind fun _ => .literal oneLine

theorem steady_comment : comment.Steady :=
  (Steady.word (by decide) (by decide)).named

theorem steady_identifier : identifier.Steady :=
  ((Steady.word (by decide) (by decide)).bind fun _ => .pure _).named

theorem steady_typeTag : typeTag.Steady :=
  ((Steady.word (by decide) (by decide)).bind fun _ => .pure _).named

theorem steady_endpoint : endpoint.Steady :=
  (steady_identifier.bind fun _ => (Steady.literal (by decide)).bind fun _ =>
    steady_identifier.bind fun _ => .pure _).named

theorem steady_bare : bare.Steady :=
  (Steady.word (by decide) (by decide)).named

theorem steady_moduleDecl : moduleDecl.Steady :=
  (steady_typeTag.bind fun _ => (steady_mark (by decide)).bind fun _ => steady_gap.bind fun _ =>
    steady_identifier.bind fun _ => steady_gap.bind fun _ =>
      (((Steady.literal (by decide)).bind fun _ => steady_gap.bind fun _ =>
        steady_identifier).named.optional).bind fun _ => .pure _).named

theorem steady_cable : cable.Steady :=
  (steady_endpoint.bind fun _ => (steady_mark (by decide)).bind fun _ => steady_gap.bind fun _ =>
    steady_endpoint.bind fun _ => .pure _).named

theorem steady_tweak : tweak.Steady :=
  (steady_endpoint.bind fun _ => (steady_mark (by decide)).bind fun _ => steady_gap.bind fun _ =>
    steady_bare.bind fun _ => .pure _).named

theorem stable_newline : newline.Stable :=
  (Stable.literal (by decide)).orElse ((Stable.literal (by decide)).orElse (.literal (by decide)))

end Grammar

/-! ## The same with more text behind -/

/-- The value of the attribute begins with a quote that no other quote closes. -/
def Located.IsOpen (a : Located Attribute) : Prop :=
  ∃ front back inner, (∀ c ∈ front ++ back, Grammar.isGap c = true) ∧ '"' ∉ inner ∧
    a.place = a.item.key.toList ++ (front ++ ':' :: (back ++ '"' :: inner))

/-- The same thing, with more text behind its place. -/
def Located.extend {β : Type} (t : List Char) (l : Located β) : Located β :=
  ⟨l.place ++ t, l.item⟩

/-- The same item, with more text behind the places of its attributes. -/
def Item.extend (t : List Char) : Item → Item
  | synth name fields => synth name (fields.map (·.extend t))
  | param name fields => param name (fields.map (·.extend t))
  | module tag id table => module tag id table
  | patch cable => patch cable
  | tweak target source => tweak target source
  | comment text => comment text

/-- The same item, with more text behind its place and those of its attributes. -/
def Located.extendItem (t : List Char) (i : Located Item) : Located Item :=
  ⟨i.place ++ t, i.item.extend t⟩

/-- No attribute of the item is open. -/
def Item.Closed (i : Item) : Prop :=
  ∀ a ∈ i.attributes, ¬ a.IsOpen

namespace Grammar

open Rule

variable {s r t : List Char}

/-! ## Blocks -/

/-- A quoted value within lines ends within them. -/
theorem reads_quoted_append {x : String} (lined : Lined s) (read : quoted.Reads s x r)
    (t : List Char) : Lined r ∧ quoted.Reads (s ++ t) x (r ++ t) := by
  have quote : (Rule.literal ['"']).Steady := .literal (by decide)
  obtain ⟨_, u, opened, read⟩ := reads_bind_iff.1 (reads_named_iff.1 read)
  obtain ⟨inner, v, row, read⟩ := reads_bind_iff.1 read
  obtain ⟨_, w, closed, read⟩ := reads_bind_iff.1 read
  obtain ⟨rfl, rfl⟩ := reads_pure_iff.1 read
  have filled : v ≠ [] := by
    rintro rfl
    cases closed
  have inside := quote.keeps lined opened
  have here := inside.of_suffix ((Inside.row _).suffix row) filled
  refine ⟨quote.keeps here closed, Reads.named ?_⟩
  exact (quote.reads lined opened t).bind ((row.row_append filled t).bind
    ((quote.reads here closed t).bind (.pure _ _)))

/-- What does not begin with a quote is no quoted value. -/
theorem fails_quoted (other : Ends (· == '"') s) : quoted.Fails s :=
  (fails_literal other).bind.named

theorem lined_of_reads_value {x : String} (lined : Lined s) (read : value.Reads s x r) :
    Lined r := by
  rcases reads_orElse_iff.1 read with read | ⟨-, read⟩
  · exact (reads_quoted_append lined read []).1
  · obtain ⟨text, u, word, read⟩ := reads_bind_iff.1 read
    obtain ⟨-, rfl⟩ := reads_pure_iff.1 read
    exact steady_bare.keeps lined word

/-- A value is read as before, unless it begins with a quote that is not closed. -/
theorem reads_value_append {x : String} (lined : Lined s) (read : value.Reads s x r)
    (closed : ∀ inner, '"' ∉ inner → s ≠ '"' :: inner) (t : List Char) :
    value.Reads (s ++ t) x (r ++ t) := by
  rcases reads_orElse_iff.1 read with read | ⟨unquoted, read⟩
  · exact (reads_quoted_append lined read t).2.orElse_left
  · obtain ⟨text, u, word, read⟩ := reads_bind_iff.1 read
    obtain ⟨rfl, rfl⟩ := reads_pure_iff.1 read
    refine Reads.orElse_right ?_ ((steady_bare.reads lined word t).bind (.pure _ _))
    cases s with
    | nil => exact absurd rfl lined.ne_nil
    | cons c rest =>
        refine fails_quoted (ends_cons.2 (beq_eq_false_iff_ne.2 ?_))
        rintro rfl
        -- A quote further down would have closed this one.
        refine closed rest (fun mem => ?_) rfl
        obtain ⟨inner, behind, rfl, noQuote⟩ := List.eq_append_cons_of_mem mem
        exact (reads_quoted noQuote behind).not_fails unquoted

theorem fails_value_append (lined : Lined s) (failed : value.Fails s) (t : List Char) :
    value.Fails (s ++ t) := by
  obtain ⟨unquoted, failed⟩ := fails_orElse_iff.1 failed
  have noBare : bare.Fails s := by
    rcases fails_bind_iff.1 failed with noBare | ⟨_, _, -, never⟩
    · exact noBare
    · cases never
  refine Fails.orElse (fails_quoted fun c mem => ?_) (steady_bare.fails lined noBare t).bind
  -- What begins with a quote can be read as a bare value.
  have first := fails_word_iff.1 (fails_named_iff.1 noBare)
  cases s with
  | nil => exact absurd rfl lined.ne_nil
  | cons d rest =>
      obtain rfl : d = c := by simpa using mem
      have stop := ends_cons.1 first
      rw [beq_eq_false_iff_ne]
      rintro rfl
      cases stop

theorem eq_append_of_reads_gap (read : gap.Reads s () r) :
    ∃ blanks, (∀ c ∈ blanks, isGap c = true) ∧ s = blanks ++ r := by
  obtain ⟨blanks, u, row, read⟩ := reads_bind_iff.1 read
  obtain ⟨-, rfl⟩ := reads_pure_iff.1 read
  obtain ⟨rfl, rfl⟩ := reads_row_iff.1 row
  exact ⟨_, fun c mem => List.mem_takeWhile_imp mem, (List.takeWhile_append_dropWhile).symm⟩

theorem eq_append_of_reads_identifier {name : String} (read : identifier.Reads s name r) :
    s = name.toList ++ r := by
  obtain ⟨word, u, one, read⟩ := reads_bind_iff.1 (reads_named_iff.1 read)
  obtain ⟨rfl, rfl⟩ := reads_pure_iff.1 read
  obtain ⟨c, rest, more, rfl, -, row, rfl⟩ := reads_word_iff.1 one
  obtain ⟨rfl, rfl⟩ := reads_row_iff.1 row
  rw [String.toList_ofList, List.cons_append, List.takeWhile_append_dropWhile]

/-- An attribute is read as before, unless it is open. -/
theorem reads_field_append {a : Attribute} (lined : Lined s) (read : field.Reads s a r) :
    Lined r ∧ (¬ Located.IsOpen ⟨s, a⟩ → ∀ t, field.Reads (s ++ t) a (r ++ t)) := by
  have colon : (mark ":").Steady := steady_mark (by decide)
  obtain ⟨key, u, named, read⟩ := reads_bind_iff.1 (reads_named_iff.1 read)
  obtain ⟨_, v, marked, read⟩ := reads_bind_iff.1 read
  obtain ⟨_, w, gapped, read⟩ := reads_bind_iff.1 read
  obtain ⟨found, z, valued, read⟩ := reads_bind_iff.1 read
  obtain ⟨rfl, rfl⟩ := reads_pure_iff.1 read
  have lined₁ := steady_identifier.keeps lined named
  have lined₂ := colon.keeps lined₁ marked
  have lined₃ := steady_gap.keeps lined₂ gapped
  have whole {t : List Char} (more : value.optional.Reads (w ++ t) found (r ++ t)) :
      field.Reads (s ++ t) ⟨key, found.getD ""⟩ (r ++ t) :=
    Reads.named <| (steady_identifier.reads lined named t).bind <|
      (colon.reads lined₁ marked t).bind <| (steady_gap.reads lined₂ gapped t).bind <|
        more.bind (.pure _ _)
  rcases reads_optional_iff.1 valued with ⟨x, rfl, one⟩ | ⟨rfl, rfl, none⟩
  · refine ⟨lined_of_reads_value lined₃ one, fun closed t => whole (Reads.optional ?_)⟩
    refine reads_value_append lined₃ one (fun inner noQuote quote => closed ?_) t
    obtain ⟨_, y, gapped', opened⟩ := reads_bind_iff.1 marked
    obtain ⟨front, blank, split⟩ := eq_append_of_reads_gap gapped'
    obtain ⟨back, blank', split'⟩ := eq_append_of_reads_gap gapped
    have split'' := eq_append_of_reads_literal opened
    refine ⟨front, back, inner, ?_, noQuote, ?_⟩
    · simpa [or_imp, forall_and] using ⟨blank, blank'⟩
    · rw [eq_append_of_reads_identifier named, split, split'', split', quote]
      rfl
  · exact ⟨lined₃, fun _ t => whole (fails_value_append lined₃ none t).optional⟩

theorem fails_field_append (lined : Lined s) (failed : field.Fails s) (t : List Char) :
    field.Fails (s ++ t) := by
  have colon : (mark ":").Steady := steady_mark (by decide)
  rcases fails_bind_iff.1 (fails_named_iff.1 failed) with failed | ⟨key, u, named, failed⟩
  · exact (steady_identifier.fails lined failed t).bind.named
  have lined₁ := steady_identifier.keeps lined named
  refine ((steady_identifier.reads lined named t).bind_fails ?_).named
  rcases fails_bind_iff.1 failed with failed | ⟨_, v, marked, failed⟩
  · exact (colon.fails lined₁ failed t).bind
  · rcases fails_bind_iff.1 failed with never | ⟨_, w, -, failed⟩
    · cases never
    · rcases fails_bind_iff.1 failed with never | ⟨_, _, -, never⟩
      · exact absurd never not_fails_optional
      · cases never

/-- The end of a line within lines is read as before. -/
theorem reads_lineEnd_append {note : Option (Located (List Char))} (lined : Lined s)
    (read : lineEnd.Reads s note r) (t : List Char) :
    lineEnd.Reads (s ++ t) (note.map (·.extend t)) (r ++ t) := by
  obtain ⟨_, u, front, read⟩ := reads_bind_iff.1 read
  obtain ⟨found, v, noted, read⟩ := reads_bind_iff.1 read
  obtain ⟨_, w, back, read⟩ := reads_bind_iff.1 read
  obtain ⟨_, z, ended, read⟩ := reads_bind_iff.1 read
  obtain ⟨rfl, rfl⟩ := reads_pure_iff.1 read
  have lined₁ := steady_gap.keeps lined front
  have whole (lined₂ : Lined v)
      (more : (located comment).optional.Reads (u ++ t) (note.map (·.extend t)) (v ++ t)) :
      lineEnd.Reads (s ++ t) (note.map (·.extend t)) (r ++ t) :=
    (steady_gap.reads lined front t).bind <| more.bind <| (steady_gap.reads lined₂ back t).bind <|
      (stable_newline.reads (steady_gap.keeps lined₂ back) ended t).bind (.pure _ _)
  rcases reads_optional_iff.1 noted with ⟨n, rfl, one⟩ | ⟨rfl, rfl, none⟩
  · obtain ⟨place, one⟩ := reads_located_iff.1 one
    refine whole (steady_comment.keeps lined₁ one) (Reads.optional (reads_located_iff.2 ?_))
    exact ⟨congrArg (· ++ t) place, steady_comment.reads lined₁ one t⟩
  · refine whole lined₁ (Fails.optional (Fails.located ?_))
    exact steady_comment.fails lined₁ (fails_located_iff.1 none) t

theorem length_lt_of_reads_newline (read : newline.Reads s () r) : r.length < s.length := by
  have shorter {text : List Char} (filled : text ≠ []) (read : (Rule.literal text).Reads s () r) :
      r.length < s.length := by
    rw [eq_append_of_reads_literal read, List.length_append]
    have := List.length_pos_iff.2 filled
    omega
  rcases reads_orElse_iff.1 read with read | ⟨-, read⟩
  · exact shorter (by simp) read
  · rcases reads_orElse_iff.1 read with read | ⟨-, read⟩
    · exact shorter (by simp) read
    · exact shorter (by simp) read

/-- The end of a line takes text away. -/
theorem length_lt_of_reads_lineEnd {note : Option (Located (List Char))}
    (read : lineEnd.Reads s note r) : r.length < s.length := by
  obtain ⟨_, u, front, read⟩ := reads_bind_iff.1 read
  obtain ⟨found, v, noted, read⟩ := reads_bind_iff.1 read
  obtain ⟨_, w, back, read⟩ := reads_bind_iff.1 read
  obtain ⟨_, z, ended, read⟩ := reads_bind_iff.1 read
  obtain ⟨-, rfl⟩ := reads_pure_iff.1 read
  have first := (inside_gap.suffix front).length_le
  have second := (inside_comment.located.optional.suffix noted).length_le
  have third := (inside_gap.suffix back).length_le
  have := length_lt_of_reads_newline ended
  omega

/-- A line of a block is read as before, unless its attribute is open. -/
theorem reads_blockLine_append {found : Option (Located Attribute)} (lined : Lined s)
    (read : blockLine.Reads s found r) (closed : ∀ a ∈ found, ¬ a.IsOpen) (t : List Char) :
    blockLine.Reads (s ++ t) (found.map (·.extend t)) (r ++ t) := by
  obtain ⟨_, u, front, read⟩ := reads_bind_iff.1 read
  obtain ⟨entry, v, field, read⟩ := reads_bind_iff.1 read
  obtain ⟨_, w, ended, read⟩ := reads_bind_iff.1 read
  obtain ⟨rfl, rfl⟩ := reads_pure_iff.1 read
  have lined₁ := steady_gap.keeps lined front
  have whole (lined₂ : Lined v)
      (more : (located Grammar.field).optional.Reads (u ++ t) (found.map (·.extend t)) (v ++ t)) :
      blockLine.Reads (s ++ t) (found.map (·.extend t)) (r ++ t) :=
    (steady_gap.reads lined front t).bind <| more.bind <|
      (reads_lineEnd_append lined₂ ended t).bind (.pure _ _)
  rcases reads_optional_iff.1 field with ⟨a, rfl, one⟩ | ⟨rfl, rfl, none⟩
  · obtain ⟨place, one⟩ := reads_located_iff.1 one
    obtain ⟨kept, more⟩ := reads_field_append lined₁ one
    refine whole kept (Reads.optional (reads_located_iff.2 ⟨congrArg (· ++ t) place, more ?_ t⟩))
    exact place ▸ closed a rfl
  · exact whole lined₁ (fails_field_append lined₁ (fails_located_iff.1 none) t).located.optional

theorem length_lt_of_reads_blockLine {found : Option (Located Attribute)}
    (read : blockLine.Reads s found r) : r.length < s.length := by
  obtain ⟨_, u, front, read⟩ := reads_bind_iff.1 read
  obtain ⟨entry, v, field, read⟩ := reads_bind_iff.1 read
  obtain ⟨_, w, ended, read⟩ := reads_bind_iff.1 read
  obtain ⟨-, rfl⟩ := reads_pure_iff.1 read
  have first := (inside_gap.suffix front).length_le
  have second := (inside_field.located.optional.suffix field).length_le
  have := length_lt_of_reads_lineEnd ended
  omega

/-- The end of a block is no line of it. -/
theorem fails_blockLine_append {u : List Char} (final : (mark "@end").Reads s () u)
    (t : List Char) : blockLine.Fails (s ++ t) := by
  obtain ⟨_, v, front, read⟩ := reads_bind_iff.1 final
  obtain rfl := eq_append_of_reads_literal read
  have filled : "@end".toList ++ u ≠ [] := by simp
  have blank : gap.Reads (s ++ t) () ("@end".toList ++ u ++ t) := by
    obtain ⟨word, w, row, same⟩ := reads_bind_iff.1 front
    obtain ⟨-, rfl⟩ := reads_pure_iff.1 same
    exact (row.row_append filled t).bind (.pure _ _)
  have noField : field.Fails ("@end".toList ++ u ++ t) :=
    (fails_identifier (ends_cons.2 (by decide))).bind.named
  exact blank.bind_fails (noField.located.optional.bind_fails
    (fails_lineEnd (ends_cons.2 (by decide))).bind)

/-- Lines of a block are read as before, unless an attribute is open. -/
theorem chain_blockLine_append {found : List (Option (Located Attribute))} (lined : Lined s)
    (read : blockLine.Chain s found r) (ended : Lined r)
    (closed : ∀ a, some a ∈ found → ¬ a.IsOpen) (t : List Char) :
    blockLine.Chain (s ++ t) (found.map (Option.map (·.extend t))) (r ++ t) := by
  induction read with
  | nil => exact .nil _
  | @cons s u r a rest one short more ih =>
      have filled : u ≠ [] := by
        rintro rfl
        exact ended.ne_nil (List.suffix_nil.1 (more.suffix inside_blockLine.left))
      have lined' := lined.of_suffix (inside_blockLine.suffix one) filled
      have first := reads_blockLine_append lined one (fun a mem => closed a (by simp_all)) t
      exact .cons first (by simpa using short)
        (ih lined' ended fun a mem => closed a (List.mem_cons_of_mem _ mem))

/-- A block consists of its first line, which is read as before, and the lines up to its end. -/
theorem exists_lines_of_reads_block {opening name : String} {fields : List (Located Attribute)}
    (oneLine : '\n' ∉ opening.toList) (lined : Lined s)
    (read : (block opening).Reads s (name, fields) r) :
    ∃ lines u v, fields = lines.filterMap id ∧ u <:+ s ∧ Lined u ∧ Lined v ∧
      blockLine.Chain u lines v ∧ (mark "@end").Reads v () r ∧
      ∀ {t w r' : List Char} {others}, blockLine.many.Reads (u ++ t) others w →
        (mark "@end").Reads w () r' →
        (block opening).Reads (s ++ t) (name, others.filterMap id) r' := by
  have opened : (Rule.literal opening.toList).Steady := .literal oneLine
  obtain ⟨_, u₁, one, read⟩ := reads_bind_iff.1 (reads_named_iff.1 read)
  obtain ⟨_, u₂, two, read⟩ := reads_bind_iff.1 read
  obtain ⟨_, u₃, three, read⟩ := reads_bind_iff.1 read
  obtain ⟨_, u, four, read⟩ := reads_bind_iff.1 read
  obtain ⟨lines, v, five, read⟩ := reads_bind_iff.1 read
  obtain ⟨_, _, six, read⟩ := reads_bind_iff.1 read
  obtain ⟨same, rfl⟩ := reads_pure_iff.1 read
  cases same
  have lined₁ := opened.keeps lined one
  have lined₂ := steady_gap.keeps lined₁ two
  have lined₃ := steady_identifier.keeps lined₂ three
  have filled : v ≠ [] := by
    rintro rfl
    cases six
  have filled' : u ≠ [] := by
    rintro rfl
    exact filled (List.suffix_nil.1 (inside_blockLine.many.suffix five))
  have linedU := lined₃.of_suffix (inside_lineEnd.suffix four) filled'
  have linedV := linedU.of_suffix (inside_blockLine.many.suffix five) filled
  have sub : u <:+ s :=
    (inside_lineEnd.suffix four).trans <| (inside_identifier.suffix three).trans <|
      (inside_gap.suffix two).trans (opened.suffix one)
  refine ⟨lines, u, v, rfl, sub, linedU, linedV,
    ((reads_many_iff_chain length_lt_of_reads_blockLine).1 five).1, six, fun others final => ?_⟩
  exact Reads.named <| (opened.reads lined one _).bind <| (steady_gap.reads lined₁ two _).bind <|
    (steady_identifier.reads lined₂ three _).bind <|
      (reads_lineEnd_append lined₃ four _).bind <| others.bind <| final.bind (.pure _ _)

/-- A block is read as before, unless an attribute is open. -/
theorem reads_block_append {opening name : String} {fields : List (Located Attribute)}
    (oneLine : '\n' ∉ opening.toList) (lined : Lined s)
    (read : (block opening).Reads s (name, fields) r) (closed : ∀ a ∈ fields, ¬ a.IsOpen)
    (t : List Char) :
    Lined r ∧ (block opening).Reads (s ++ t) (name, fields.map (·.extend t)) (r ++ t) := by
  have final : (mark "@end").Steady := steady_mark (by decide)
  obtain ⟨lines, u, v, rfl, -, linedU, linedV, chain, ended, whole⟩ :=
    exists_lines_of_reads_block oneLine lined read
  have chain' := chain_blockLine_append linedU chain linedV
    (fun a mem => closed a (by simpa using mem)) t
  have lines' := (reads_many_iff_chain length_lt_of_reads_blockLine).2
    ⟨chain', fails_blockLine_append ended t⟩
  have same : (lines.map (Option.map (·.extend t))).filterMap id =
      (lines.filterMap id).map (Located.extend t) := by
    rw [List.filterMap_map, List.map_filterMap]
    rfl
  rw [← same]
  exact ⟨final.keeps linedV ended, whole lines' (final.reads linedV ended t)⟩

/-! ## Entries -/

/-- Behind what can begin a module or an endpoint stands no block. -/
theorem fails_blocks_append {first among : Char → Bool} {word : List Char}
    (read : (Rule.word first among).Reads s word r) (noMark : first '@' = false) (t : List Char) :
    synthBlock.Fails (s ++ t) ∧ paramBlock.Fails (s ++ t) := by
  obtain ⟨c, rest, more, rfl, head, -⟩ := reads_word_iff.1 read
  have other : Ends (· == '@') (c :: rest ++ t) := by
    refine ends_cons.2 (beq_eq_false_iff_ne.2 ?_)
    rintro rfl
    rw [noMark] at head
    cases head
  exact ⟨(fails_block rfl other).bind, (fails_block rfl other).bind⟩

theorem word_of_reads_endpoint {e : Endpoint} (read : endpoint.Reads s e r) :
    ∃ word u, (Rule.word Identifier.isHead Identifier.isTail).Reads s word u := by
  obtain ⟨_, _, named, -⟩ := reads_bind_iff.1 (reads_named_iff.1 read)
  obtain ⟨word, u, one, -⟩ := reads_bind_iff.1 (reads_named_iff.1 named)
  exact ⟨word, u, one⟩

/-- A module, a cable or a tweak is read as before. -/
theorem reads_line_append {p : Rule Item} {i : Item} {first among : Char → Bool}
    {word u : List Char} (steady : p.Steady) (lined : Lined s) (read : p.Reads s i r)
    (begins : (Rule.word first among).Reads s word u) (noMark : first '@' = false)
    (plain : ∀ t, i.extend t = i) (t : List Char)
    (chosen : p.Reads (s ++ t) i (r ++ t) →
      (moduleDecl.orElse (cable.orElse tweak)).Reads (s ++ t) i (r ++ t)) :
    Lined r ∧ statement.Reads (s ++ t) (i.extend t) (r ++ t) := by
  obtain ⟨noSynth, noParam⟩ := fails_blocks_append begins noMark t
  rw [plain]
  refine ⟨steady.keeps lined read, Reads.orElse_right noSynth (Reads.orElse_right noParam ?_)⟩
  exact chosen (steady.reads lined read t)

/-- A statement is read as before, unless an attribute is open. -/
theorem reads_statement_append {i : Item} (lined : Lined s) (read : statement.Reads s i r)
    (closed : i.Closed) (t : List Char) :
    Lined r ∧ statement.Reads (s ++ t) (i.extend t) (r ++ t) := by
  rcases reads_orElse_iff.1 read with read | ⟨-, read⟩
  · obtain ⟨⟨name, fields⟩, u, one, read⟩ := reads_bind_iff.1 read
    obtain ⟨rfl, rfl⟩ := reads_pure_iff.1 read
    obtain ⟨kept, more⟩ := reads_block_append (by decide) lined one closed t
    exact ⟨kept, (more.bind (.pure (Item.synth name _) _)).orElse_left⟩
  rcases reads_orElse_iff.1 read with read | ⟨-, read⟩
  · obtain ⟨⟨name, fields⟩, u, one, read⟩ := reads_bind_iff.1 read
    obtain ⟨rfl, rfl⟩ := reads_pure_iff.1 read
    obtain ⟨kept, more⟩ := reads_block_append (by decide) lined one closed t
    obtain ⟨_, v, opened, -⟩ := reads_bind_iff.1 (reads_named_iff.1 one)
    obtain rfl := eq_append_of_reads_literal opened
    have noSynth : (Rule.literal "@synth".toList).Fails ("@param".toList ++ v ++ t) := rfl
    refine ⟨kept, Reads.orElse_right noSynth.bind.named.bind (Reads.orElse_left ?_)⟩
    exact more.bind (.pure (Item.param name _) _)
  rcases reads_orElse_iff.1 read with read | ⟨noModule, read⟩
  · obtain ⟨_, _, _, rfl⟩ := exists_of_reads_moduleDecl read
    obtain ⟨tag, _, one, -⟩ := reads_bind_iff.1 (reads_named_iff.1 read)
    obtain ⟨word, _, begins, -⟩ := reads_bind_iff.1 (reads_named_iff.1 one)
    exact reads_line_append steady_moduleDecl lined read begins (by decide) (fun _ => rfl) t
      (·.orElse_left)
  have noModule := steady_moduleDecl.fails lined noModule t
  rcases reads_orElse_iff.1 read with read | ⟨noCable, read⟩
  · obtain ⟨_, rfl⟩ := exists_of_reads_cable read
    obtain ⟨_, _, one, -⟩ := reads_bind_iff.1 (reads_named_iff.1 read)
    obtain ⟨word, _, begins⟩ := word_of_reads_endpoint one
    exact reads_line_append steady_cable lined read begins (by decide) (fun _ => rfl) t
      fun more => more.orElse_left.orElse_right noModule
  · have noCable := steady_cable.fails lined noCable t
    obtain ⟨_, _, rfl⟩ := exists_of_reads_tweak read
    obtain ⟨_, _, one, -⟩ := reads_bind_iff.1 (reads_named_iff.1 read)
    obtain ⟨word, _, begins⟩ := word_of_reads_endpoint one
    exact reads_line_append steady_tweak lined read begins (by decide) (fun _ => rfl) t
      fun more => (more.orElse_right noCable).orElse_right noModule

/-- A line ends at a blank, a comment or a line break. -/
theorem begins_of_reads_lineEnd {note : Option (Located (List Char))}
    (ended : lineEnd.Reads s note r) :
    ∃ c rest, s = c :: rest ∧ (c = ' ' ∨ c = '\t' ∨ c = '\n' ∨ c = '\r' ∨ c = '#') := by
  by_contra other
  refine ended.not_fails (fails_lineEnd fun c mem => ?_)
  cases s with
  | nil => cases mem
  | cons d rest =>
      obtain rfl : d = c := by simpa using mem
      simp only [isGap, isBreak, Bool.or_eq_false_iff, beq_eq_false_iff_ne]
      refine ⟨⟨⟨?_, ?_⟩, ?_, ?_⟩, ?_⟩ <;> rintro rfl <;> exact other ⟨_, rest, rfl, by simp⟩

/-- Where a line can end no statement begins. -/
theorem fails_statement_append {note : Option (Located (List Char))}
    (ended : lineEnd.Reads s note r) (t : List Char) : statement.Fails (s ++ t) := by
  obtain ⟨c, rest, rfl, stop⟩ := begins_of_reads_lineEnd ended
  refine fails_statement (ends_cons.2 ?_) (ends_cons.2 ?_) (ends_cons.2 ?_) <;>
    rcases stop with rfl | rfl | rfl | rfl | rfl <;> decide

/-- An entry is read as before, unless an attribute is open. -/
theorem reads_entry_append {items : List (Located Item)} (lined : Lined s)
    (read : entry.Reads s items r) (closed : ∀ i ∈ items, i.item.Closed) (t : List Char) :
    entry.Reads (s ++ t) (items.map (·.extendItem t)) (r ++ t) := by
  obtain ⟨_, u, front, read⟩ := reads_bind_iff.1 read
  obtain ⟨found, v, stated, read⟩ := reads_bind_iff.1 read
  obtain ⟨note, w, ended, read⟩ := reads_bind_iff.1 read
  obtain ⟨rfl, rfl⟩ := reads_pure_iff.1 read
  have lined₁ := steady_gap.keeps lined front
  have whole {first : Option (Located Item)} (lined₂ : Lined v)
      (more : (located statement).optional.Reads (u ++ t) first (v ++ t)) :
      entry.Reads (s ++ t) (first.toList ++ (note.map (·.extend t)).toList.map fun n =>
        ⟨n.place, .comment (commentText n.item)⟩) (r ++ t) :=
    (steady_gap.reads lined front t).bind <| more.bind <|
      (reads_lineEnd_append lined₂ ended t).bind (.pure _ _)
  have notes : (note.toList.map fun n => (⟨n.place, .comment (commentText n.item)⟩ :
      Located Item)).map (·.extendItem t) = (note.map (·.extend t)).toList.map fun n =>
        ⟨n.place, .comment (commentText n.item)⟩ := by
    cases note <;> rfl
  rw [List.map_append, notes]
  rcases reads_optional_iff.1 stated with ⟨i, rfl, one⟩ | ⟨rfl, rfl, none⟩
  · obtain ⟨place, one⟩ := reads_located_iff.1 one
    obtain ⟨kept, more⟩ := reads_statement_append lined₁ one (closed i (by simp)) t
    exact whole kept (Reads.optional (reads_located_iff.2 ⟨congrArg (· ++ t) place, more⟩))
  · exact whole lined₁ (fails_statement_append ended t).located.optional

theorem length_lt_of_reads_entry {items : List (Located Item)} (read : entry.Reads s items r) :
    r.length < s.length := by
  obtain ⟨_, u, front, read⟩ := reads_bind_iff.1 read
  obtain ⟨found, v, stated, read⟩ := reads_bind_iff.1 read
  obtain ⟨note, w, ended, read⟩ := reads_bind_iff.1 read
  obtain ⟨-, rfl⟩ := reads_pure_iff.1 read
  have first := (inside_gap.suffix front).length_le
  have second := (inside_statement.located.optional.suffix stated).length_le
  have := length_lt_of_reads_lineEnd ended
  omega

/-- Entries are read as before, unless an attribute is open. -/
theorem chain_entry_append {entries : List (List (Located Item))} (lined : s = [] ∨ Lined s)
    (read : entry.Chain s entries r) (closed : ∀ i ∈ entries.flatten, i.item.Closed)
    (t : List Char) :
    entry.Chain (s ++ t) (entries.map (·.map (·.extendItem t))) (r ++ t) := by
  induction read with
  | nil => exact .nil _
  | @cons s u r items rest one short more ih =>
      rw [List.flatten_cons] at closed
      have lined : Lined s := by
        refine lined.resolve_left ?_
        rintro rfl
        exact Nat.not_lt_zero _ short
      have below : u = [] ∨ Lined u :=
        or_iff_not_imp_left.2 (lined.of_suffix (inside_entry.suffix one))
      have first := reads_entry_append lined one
        (fun i mem => closed i (List.mem_append_left _ mem)) t
      exact .cons first (by simpa using short)
        (ih below fun i mem => closed i (List.mem_append_right _ mem))

/-! ## Whole texts -/

/-- No quote is left open in the text. -/
def Closed (source : List Char) : Prop :=
  ∀ items, read source = .ok items → ∀ i ∈ items, i.item.Closed

/-- Where there is no quote none is left open. -/
theorem closed_of_not_mem (noQuote : '"' ∉ s) : Closed s := by
  intro items h i mem a isField isOpen
  obtain ⟨front, back, inner, -, -, place⟩ := isOpen
  have within := (within_of_read h i mem).2 a isField
  exact noQuote (within.subset (by simp [place]))

/-- The entries of lines that were read make up the whole text. -/
theorem chain_of_read {items : List (Located Item)} (lined : Lined s) (h : read s = .ok items) :
    ∃ entries, entry.Chain s entries [] ∧ items = entries.flatten := by
  obtain ⟨entries, r, fs, run⟩ := exists_entries s
  have reads : entry.many.Reads s entries r := by rw [Reads, run]
  rw [read_eq run] at h
  split at h
  · next blank =>
      cases h
      obtain rfl : r = [] := by
        by_contra filled
        have left := lined.of_suffix (inside_entry.many.suffix reads) filled
        exact left.dropWhile_ne_nil (by decide) blank
      exact ⟨entries, ((reads_many_iff_chain length_lt_of_reads_entry).1 reads).1, rfl⟩
  · cases h

end Grammar
end SynthPatch
