import SynthPatch.Language.Checker
import SynthPatch.Proofs.Language.Reading
import SynthPatch.Proofs.Outcome
/-!
# Places within a text

A place is the text behind it.  Whatever a rule leaves, remembers or puts into an item lies within
the text it was tried on, so that the line feeds behind a place are among those of the text.  The
same goes for the faults that the checker finds in the items.

Main results:

- Structure {lit}`Rule.Inside`: what a rule leaves and where it failed lies within its text.
- Theorem {lit}`Grammar.within_of_reads_entries`: so do the places of the items that are read.
- Theorem {lit}`Checker.finds_checkAll`: and the faults that are found in them.
- Theorem {lit}`Grammar.furthest_le`: no place is further than the furthest.
-/

namespace SynthPatch

/-- A place is as many lines further down as there are in front of its text. -/
theorem lineAt_front {s place : List Char} (within : place <:+ s) (front : List Char) :
    lineAt (front ++ s) place = lineAt s place + front.count '\n' := by
  have fewer : place.count '\n' ≤ s.count '\n' := within.sublist.count_le _
  rw [lineAt, lineAt, List.count_append]
  omega

/-! ## Rules -/

namespace Rule

variable {β γ : Type} {p q : Rule β} {s r : List Char} {x : β}

/-- What a rule leaves, and every place where it was tried in vain, lies within the text it was
tried on. -/
structure Inside (p : Rule β) : Prop where
  left : p.Shortens
  tried : ∀ s, ∀ place ∈ (p.run s).failures, place <:+ s

theorem Inside.suffix (h : p.Inside) (read : p.Reads s x r) : r <:+ s := by
  obtain ⟨fs, run⟩ := read.exists_run
  exact h.left run

theorem run_named_of_eq_some {fs : List (List Char)} (h : p.run s = ⟨some (x, r), fs⟩) :
    p.named.run s = ⟨some (x, r), fs⟩ := by
  simp only [named, h]

/-- A rule with a name remembers where it failed. -/
theorem run_named_of_eq_none {fs : List (List Char)} (h : p.run s = ⟨none, fs⟩) :
    p.named.run s = ⟨none, s :: fs⟩ := by
  simp only [named, h]

@[simp]
theorem failures_row (among : Char → Bool) (s : List Char) : ((row among).run s).failures = [] :=
  rfl

@[simp]
theorem failures_word (first rest : Char → Bool) (s : List Char) :
    ((word first rest).run s).failures = [] := by
  unfold word
  dsimp only
  split
  · split <;> rfl
  · rfl

@[simp]
theorem failures_literal (text s : List Char) : ((literal text).run s).failures = [] := by
  induction text generalizing s with
  | nil => rfl
  | cons c rest ih =>
      unfold literal
      dsimp only
      split
      · split
        · exact ih _
        · rfl
      · rfl

namespace Inside

/-- A rule that remembers no place is inside its text if it only takes text away. -/
theorem of_silent (left : p.Shortens) (silent : ∀ s, (p.run s).failures = []) : p.Inside where
  left := left
  tried s place mem := by
    rw [silent] at mem
    cases mem

theorem pure (x : β) : (Pure.pure x : Rule β).Inside :=
  of_silent (Shortens.pure x) fun _ => rfl

theorem row (among : Char → Bool) : (Rule.row among).Inside :=
  of_silent (Shortens.row among) (failures_row among)

theorem word (first rest : Char → Bool) : (Rule.word first rest).Inside :=
  of_silent (Shortens.word first rest) (failures_word first rest)

theorem literal (text : List Char) : (Rule.literal text).Inside :=
  of_silent (Shortens.literal text) (failures_literal text)

theorem bind {f : β → Rule γ} (hp : p.Inside) (hf : ∀ x, (f x).Inside) : (p >>= f).Inside where
  left := Shortens.bind hp.left fun x => (hf x).left
  tried s place mem := by
    rcases reads_or_fails p s with ⟨x, r, read⟩ | fails
    · obtain ⟨fs, run⟩ := read.exists_run
      rw [run_bind_of_eq_some run] at mem
      rcases List.mem_append.1 mem with mem | mem
      · exact hp.tried s place (by rwa [run])
      · exact ((hf x).tried r place mem).trans (hp.suffix read)
    · obtain ⟨fs, run⟩ := fails.exists_run
      rw [run_bind_of_eq_none run] at mem
      exact hp.tried s place (by rwa [run])

theorem orElse (hp : p.Inside) (hq : q.Inside) : (p.orElse q).Inside where
  left := Shortens.orElse hp.left hq.left
  tried s place mem := by
    simp only [Rule.orElse] at mem
    split at mem
    · next fs run =>
        rcases List.mem_append.1 mem with mem | mem
        · exact hp.tried s place (by rwa [run])
        · exact hq.tried s place mem
    · exact hp.tried s place mem

theorem optional (hp : p.Inside) : p.optional.Inside where
  left := Shortens.optional hp.left
  tried s place mem := by
    simp only [Rule.optional] at mem
    split at mem <;> next run => exact hp.tried s place (by rwa [run])

theorem named (hp : p.Inside) : p.named.Inside where
  left := Shortens.named hp.left
  tried s place mem := by
    simp only [Rule.named] at mem
    split at mem
    · next fs run =>
        rcases List.mem_cons.1 mem with rfl | mem
        · exact List.suffix_refl _
        · exact hp.tried s place (by rwa [run])
    · exact hp.tried s place mem

theorem located (hp : p.Inside) : (Grammar.located p).Inside where
  left {s x r fs} h := by
    have read : (Grammar.located p).Reads s x r := by rw [Reads, h]
    exact hp.suffix (reads_located_iff.1 read).2
  tried s place mem := by
    simp only [Grammar.located] at mem
    split at mem <;> next run => exact hp.tried s place (by rwa [run])

theorem many (hp : p.Inside) : p.many.Inside where
  left := Shortens.many hp.left
  tried s := by
    change ∀ place ∈ (manyFrom p s).failures, place <:+ s
    fun_induction manyFrom p s with
    | case1 s fs run =>
        intro place mem
        exact hp.tried s place (by rwa [run])
    | case2 s x r fs run short more gs inner ih =>
        intro place mem
        rcases List.mem_append.1 mem with mem | mem
        · exact hp.tried s place (by rwa [run])
        · exact (ih place (by rwa [inner])).trans (hp.left run)
    | case3 s x r fs run long =>
        intro place mem
        exact hp.tried s place (by rwa [run])

end Inside
end Rule

/-! ## The grammar -/

namespace Grammar

open Rule

theorem inside_gap : gap.Inside :=
  (Inside.row _).bind fun _ => .pure _

theorem inside_newline : newline.Inside :=
  (Inside.literal _).orElse ((Inside.literal _).orElse (.literal _))

theorem inside_mark (text : String) : (mark text).Inside :=
  inside_gap.bind fun _ => .literal _

theorem inside_comment : comment.Inside :=
  (Inside.word _ _).named

theorem inside_identifier : identifier.Inside :=
  ((Inside.word _ _).bind fun _ => .pure _).named

theorem inside_typeTag : typeTag.Inside :=
  ((Inside.word _ _).bind fun _ => .pure _).named

theorem inside_endpoint : endpoint.Inside :=
  (inside_identifier.bind fun _ => (Inside.literal _).bind fun _ =>
    inside_identifier.bind fun _ => .pure _).named

theorem inside_quoted : quoted.Inside :=
  ((Inside.literal _).bind fun _ => (Inside.row _).bind fun _ => (Inside.literal _).bind fun _ =>
    .pure _).named

theorem inside_bare : bare.Inside :=
  (Inside.word _ _).named

theorem inside_value : value.Inside :=
  inside_quoted.orElse (inside_bare.bind fun _ => .pure _)

theorem inside_field : field.Inside :=
  (inside_identifier.bind fun _ => (inside_mark _).bind fun _ => inside_gap.bind fun _ =>
    inside_value.optional.bind fun _ => .pure _).named

theorem inside_lineEnd : lineEnd.Inside :=
  inside_gap.bind fun _ => inside_comment.located.optional.bind fun _ => inside_gap.bind fun _ =>
    inside_newline.bind fun _ => .pure _

theorem inside_blockLine : blockLine.Inside :=
  inside_gap.bind fun _ => inside_field.located.optional.bind fun _ => inside_lineEnd.bind fun _ =>
    .pure _

theorem inside_block (opening : String) : (block opening).Inside :=
  ((Inside.literal _).bind fun _ => inside_gap.bind fun _ => inside_identifier.bind fun _ =>
    inside_lineEnd.bind fun _ => inside_blockLine.many.bind fun _ => (inside_mark _).bind fun _ =>
      .pure _).named

theorem inside_moduleDecl : moduleDecl.Inside :=
  (inside_typeTag.bind fun _ => (inside_mark _).bind fun _ => inside_gap.bind fun _ =>
    inside_identifier.bind fun _ => inside_gap.bind fun _ =>
      (((Inside.literal _).bind fun _ => inside_gap.bind fun _ =>
        inside_identifier).named.optional).bind fun _ => .pure _).named

theorem inside_cable : cable.Inside :=
  (inside_endpoint.bind fun _ => (inside_mark _).bind fun _ => inside_gap.bind fun _ =>
    inside_endpoint.bind fun _ => .pure _).named

theorem inside_tweak : tweak.Inside :=
  (inside_endpoint.bind fun _ => (inside_mark _).bind fun _ => inside_gap.bind fun _ =>
    inside_bare.bind fun _ => .pure _).named

theorem inside_statement : statement.Inside :=
  ((inside_block _).bind fun _ => .pure _).orElse (((inside_block _).bind fun _ => .pure _).orElse
    (inside_moduleDecl.orElse (inside_cable.orElse inside_tweak)))

theorem inside_entry : entry.Inside :=
  inside_gap.bind fun _ => inside_statement.located.optional.bind fun _ =>
    inside_lineEnd.bind fun _ => .pure _

end Grammar

/-! ## Items -/

/-- The attributes of an item. -/
def Item.attributes : Item → List (Located Attribute)
  | .synth _ fields | .param _ fields => fields
  | _ => []

/-- An item and its attributes lie within a text. -/
def Located.Within (source : List Char) (i : Located Item) : Prop :=
  i.place <:+ source ∧ ∀ a ∈ i.item.attributes, a.place <:+ source

theorem Located.Within.mono {s t : List Char} {i : Located Item} (h : i.Within s) (sub : s <:+ t) :
    i.Within t :=
  ⟨h.1.trans sub, fun a mem => (h.2 a mem).trans sub⟩

namespace Grammar

open Rule

variable {s r : List Char}

theorem place_of_reads_blockLine {a : Located Attribute} (h : blockLine.Reads s (some a) r) :
    a.place <:+ s := by
  obtain ⟨_, t, front, h⟩ := reads_bind_iff.1 h
  obtain ⟨found, t', read, h⟩ := reads_bind_iff.1 h
  obtain ⟨_, t'', -, h⟩ := reads_bind_iff.1 h
  obtain ⟨rfl, -⟩ := reads_pure_iff.1 h
  rcases reads_optional_iff.1 read with ⟨b, same, read⟩ | ⟨same, -⟩
  · cases same
    rw [(reads_located_iff.1 read).1]
    exact inside_gap.suffix front
  · cases same

theorem places_of_reads_lines {found : List (Option (Located Attribute))}
    (h : blockLine.many.Reads s found r) : ∀ a, some a ∈ found → a.place <:+ s := by
  induction found generalizing s with
  | nil => intro a mem; cases mem
  | cons b rest ih =>
      intro a mem
      rcases reads_many_iff.1 h with ⟨none, -⟩ | ⟨c, one, read, -⟩ | ⟨c, others, t, all, read, -, h⟩
      · cases none
      · cases one
        cases List.mem_singleton.1 mem
        exact place_of_reads_blockLine read
      · cases all
        rcases List.mem_cons.1 mem with rfl | mem
        · exact place_of_reads_blockLine read
        · exact (ih h a mem).trans (inside_blockLine.suffix read)

theorem places_of_reads_block {opening name : String} {fields : List (Located Attribute)}
    (h : (block opening).Reads s (name, fields) r) : ∀ a ∈ fields, a.place <:+ s := by
  intro a mem
  obtain ⟨_, t, opened, h⟩ := reads_bind_iff.1 (reads_named_iff.1 h)
  obtain ⟨_, t', gapped, h⟩ := reads_bind_iff.1 h
  obtain ⟨_, t'', named, h⟩ := reads_bind_iff.1 h
  obtain ⟨_, t''', ended, h⟩ := reads_bind_iff.1 h
  obtain ⟨lines, _, read, h⟩ := reads_bind_iff.1 h
  obtain ⟨_, _, -, h⟩ := reads_bind_iff.1 h
  obtain ⟨same, -⟩ := reads_pure_iff.1 h
  cases same
  have mem : some a ∈ lines := by simpa using mem
  exact (places_of_reads_lines read a mem).trans <| (inside_lineEnd.suffix ended).trans <|
    (inside_identifier.suffix named).trans <| (inside_gap.suffix gapped).trans <|
      (Inside.literal _).suffix opened

theorem exists_of_reads_moduleDecl {i : Item} (h : moduleDecl.Reads s i r) :
    ∃ tag id table, i = .module tag id table := by
  obtain ⟨_, _, -, h⟩ := reads_bind_iff.1 (reads_named_iff.1 h)
  obtain ⟨_, _, -, h⟩ := reads_bind_iff.1 h
  obtain ⟨_, _, -, h⟩ := reads_bind_iff.1 h
  obtain ⟨_, _, -, h⟩ := reads_bind_iff.1 h
  obtain ⟨_, _, -, h⟩ := reads_bind_iff.1 h
  obtain ⟨_, _, -, h⟩ := reads_bind_iff.1 h
  exact ⟨_, _, _, (reads_pure_iff.1 h).1⟩

theorem exists_of_reads_cable {i : Item} (h : cable.Reads s i r) : ∃ c, i = .patch c := by
  obtain ⟨_, _, -, h⟩ := reads_bind_iff.1 (reads_named_iff.1 h)
  obtain ⟨_, _, -, h⟩ := reads_bind_iff.1 h
  obtain ⟨_, _, -, h⟩ := reads_bind_iff.1 h
  obtain ⟨_, _, -, h⟩ := reads_bind_iff.1 h
  exact ⟨_, (reads_pure_iff.1 h).1⟩

theorem exists_of_reads_tweak {i : Item} (h : tweak.Reads s i r) :
    ∃ target source, i = .tweak target source := by
  obtain ⟨_, _, -, h⟩ := reads_bind_iff.1 (reads_named_iff.1 h)
  obtain ⟨_, _, -, h⟩ := reads_bind_iff.1 h
  obtain ⟨_, _, -, h⟩ := reads_bind_iff.1 h
  obtain ⟨_, _, -, h⟩ := reads_bind_iff.1 h
  exact ⟨_, _, (reads_pure_iff.1 h).1⟩

/-- Only blocks have attributes. -/
theorem attributes_of_reads_line {i : Item}
    (h : (moduleDecl.orElse (cable.orElse tweak)).Reads s i r) : i.attributes = [] := by
  rcases reads_orElse_iff.1 h with h | ⟨-, h⟩
  · obtain ⟨_, _, _, rfl⟩ := exists_of_reads_moduleDecl h
    rfl
  rcases reads_orElse_iff.1 h with h | ⟨-, h⟩
  · obtain ⟨_, rfl⟩ := exists_of_reads_cable h
    rfl
  · obtain ⟨_, _, rfl⟩ := exists_of_reads_tweak h
    rfl

theorem places_of_reads_statement {i : Item} (h : statement.Reads s i r) :
    ∀ a ∈ i.attributes, a.place <:+ s := by
  rcases reads_orElse_iff.1 h with h | ⟨-, h⟩
  · obtain ⟨⟨name, fields⟩, _, read, h⟩ := reads_bind_iff.1 h
    obtain ⟨rfl, -⟩ := reads_pure_iff.1 h
    exact places_of_reads_block read
  rcases reads_orElse_iff.1 h with h | ⟨-, h⟩
  · obtain ⟨⟨name, fields⟩, _, read, h⟩ := reads_bind_iff.1 h
    obtain ⟨rfl, -⟩ := reads_pure_iff.1 h
    exact places_of_reads_block read
  · rw [attributes_of_reads_line h]
    intro a mem
    cases mem

theorem within_of_reads_entry {items : List (Located Item)} (h : entry.Reads s items r) :
    ∀ i ∈ items, i.Within s := by
  obtain ⟨_, t, front, h⟩ := reads_bind_iff.1 h
  obtain ⟨found, t', read, h⟩ := reads_bind_iff.1 h
  obtain ⟨note, _, ended, h⟩ := reads_bind_iff.1 h
  obtain ⟨rfl, -⟩ := reads_pure_iff.1 h
  have front := inside_gap.suffix front
  have left := (inside_statement.located.optional.suffix read).trans front
  intro i mem
  rcases List.mem_append.1 mem with mem | mem
  · rcases reads_optional_iff.1 read with ⟨j, rfl, read⟩ | ⟨rfl, -⟩
    · obtain rfl : i = j := by simpa using mem
      obtain ⟨place, read⟩ := reads_located_iff.1 ‹(located statement).Reads _ _ _›
      exact ⟨place ▸ front, fun a mem => (places_of_reads_statement read a mem).trans front⟩
    · cases mem
  · obtain ⟨n, here, rfl⟩ := List.mem_map.1 mem
    obtain rfl : note = some n := by simpa using here
    refine ⟨?_, by simp [Item.attributes]⟩
    obtain ⟨_, u, gapped, ended⟩ := reads_bind_iff.1 ended
    obtain ⟨noted, u', read, ended⟩ := reads_bind_iff.1 ended
    obtain ⟨_, _, -, ended⟩ := reads_bind_iff.1 ended
    obtain ⟨_, _, -, ended⟩ := reads_bind_iff.1 ended
    obtain ⟨rfl, -⟩ := reads_pure_iff.1 ended
    rcases reads_optional_iff.1 read with ⟨m, same, read⟩ | ⟨none, -⟩
    · cases same
      rw [(reads_located_iff.1 read).1]
      exact (inside_gap.suffix gapped).trans left
    · cases none

/-- The items that are read from a text, and their attributes, lie within it. -/
theorem within_of_reads_entries {entries : List (List (Located Item))}
    (h : entry.many.Reads s entries r) : ∀ i ∈ entries.flatten, i.Within s := by
  induction entries generalizing s with
  | nil => simp
  | cons items rest ih =>
      intro i mem
      rw [List.flatten_cons] at mem
      rcases reads_many_iff.1 h with ⟨none, -⟩ | ⟨c, one, read, -⟩ | ⟨c, others, t, all, read, -, h⟩
      · cases none
      · cases one
        rw [List.flatten_nil, List.append_nil] at mem
        exact within_of_reads_entry read i mem
      · cases all
        rcases List.mem_append.1 mem with mem | mem
        · exact within_of_reads_entry read i mem
        · exact (ih h i mem).mono (inside_entry.suffix read)

/-! ## Whole texts -/

/-- A text is read as entries, and blanks behind them; where more is left it is not read. -/
theorem run_program {entries : List (List (Located Item))} {fs : List (List Char)}
    (h : entry.many.run s = ⟨some (entries, r), fs⟩) :
    program.run s =
      if r.dropWhile isGap = [] then ⟨some (entries.flatten, []), fs⟩
      else ⟨none, s :: (fs ++ [r.dropWhile isGap])⟩ := by
  have blank : gap.run r = ⟨some ((), r.dropWhile isGap), []⟩ := rfl
  cases left : r.dropWhile isGap with
  | nil =>
      rw [left] at blank
      refine run_named_of_eq_some ?_
      rw [run_bind_of_eq_some h, run_bind_of_eq_some blank]
      simp [run_bind_of_eq_some (show Rule.ending.named.run [] = ⟨some ((), []), []⟩ from rfl)]
  | cons c rest =>
      rw [left] at blank
      refine run_named_of_eq_none ?_
      rw [run_bind_of_eq_some h, run_bind_of_eq_some blank, run_bind_of_eq_none
        (show Rule.ending.named.run (c :: rest) = ⟨none, [c :: rest]⟩ from rfl)]
      rfl

/-- A text whose entries are known is read, or not read at the furthest of its places. -/
theorem read_eq {entries : List (List (Located Item))} {fs : List (List Char)}
    (h : entry.many.run s = ⟨some (entries, r), fs⟩) :
    read s =
      if r.dropWhile isGap = [] then .ok entries.flatten
      else .error (furthest s (s :: (fs ++ [r.dropWhile isGap]))) := by
  rw [read, run_program h]
  by_cases left : r.dropWhile isGap = [] <;> simp only [left, if_true, if_false]

/-- The entries of a text are read in any case. -/
theorem exists_entries (s : List Char) :
    ∃ entries r fs, entry.many.run s = ⟨some (entries, r), fs⟩ := by
  rcases reads_or_fails entry.many s with ⟨entries, r, read⟩ | fails
  · obtain ⟨fs, run⟩ := read.exists_run
    exact ⟨entries, r, fs, run⟩
  · exact absurd fails (many_succeeds entry s)

/-- The items of a text, and their attributes, lie within it. -/
theorem within_of_read {items : List (Located Item)} (h : read s = .ok items) :
    ∀ i ∈ items, i.Within s := by
  obtain ⟨entries, r, fs, run⟩ := exists_entries s
  have reads : entry.many.Reads s entries r := by rw [Reads, run]
  rw [read_eq run] at h
  split at h
  · cases h
    exact within_of_reads_entries reads
  · cases h

theorem furthest_mem (source : List Char) (places : List (List Char)) :
    furthest source places ∈ source :: places := by
  unfold furthest
  induction places generalizing source with
  | nil => simp
  | cons p rest ih =>
      rw [List.foldl_cons]
      split
      · exact List.mem_cons_of_mem _ (ih p)
      · rcases List.mem_cons.1 (ih source) with same | mem
        · rw [same]
          exact List.mem_cons_self
        · exact List.mem_cons_of_mem _ (List.mem_cons_of_mem _ mem)

/-- The furthest of places within a text is within it. -/
theorem suffix_furthest {places : List (List Char)} (inside : ∀ p ∈ places, p <:+ s) :
    furthest s places <:+ s := by
  rcases List.mem_cons.1 (furthest_mem s places) with same | mem
  · exact ⟨[], same⟩
  · exact inside _ mem

/-- No place is further than the furthest. -/
theorem furthest_le (source : List Char) (places : List (List Char)) :
    ∀ p ∈ source :: places, (furthest source places).length ≤ p.length := by
  unfold furthest
  induction places generalizing source with
  | nil => simp
  | cons p rest ih =>
      rw [List.foldl_cons]
      split
      · next below =>
          have best := ih p
          intro q mem
          rcases List.mem_cons.1 mem with rfl | mem
          · exact Nat.le_trans (best p List.mem_cons_self) (Nat.le_of_lt below)
          · exact best q mem
      · next above =>
          have best := ih source
          intro q mem
          rcases List.mem_cons.1 mem with rfl | mem
          · exact best q List.mem_cons_self
          · rcases List.mem_cons.1 mem with rfl | mem
            · exact Nat.le_trans (best source List.mem_cons_self) (Nat.not_lt.1 above)
            · exact best q (List.mem_cons_of_mem _ mem)

end Grammar

/-! ## Faults -/

namespace Checker

variable {β γ : Type} {P : Located Fault → Prop} {x : Checked β} {place : List Char}

/-- All faults that the check can find are of one sort. -/
def Finds (P : Located Fault → Prop) (x : Checked β) : Prop :=
  ∀ fault, x = .error fault → P fault

namespace Finds

theorem ok (b : β) : Finds P (.ok b : Checked β) := by
  intro fault h
  cases h

theorem fail {fault : Fault} (h : P ⟨place, fault⟩) :
    Finds P (Checker.fail place fault : Checked β) := by
  intro fault h
  cases h
  assumption

theorem require {holds : Bool} {fault : Fault} (h : P ⟨place, fault⟩) :
    Finds P (Checker.require holds place fault) := by
  unfold Checker.require
  split
  · exact ok ()
  · exact fail h

theorem bind {f : β → Checked γ} (hx : Finds P x) (hf : ∀ b, Finds P (f b)) :
    Finds P (x >>= f) := by
  intro fault h
  rcases Outcome.bind_eq_error_iff.1 h with h | ⟨b, -, h⟩
  · exact hx fault h
  · exact hf b fault h

theorem map (hx : Finds P x) (f : β → γ) : Finds P (x.map f) := by
  intro fault h
  cases x with
  | error e =>
      cases h
      exact hx _ rfl
  | ok b => cases h

theorem foldlM {δ : Type} {f : β → δ → Checked β} {fields : List δ}
    (step : ∀ field ∈ fields, ∀ b, Finds P (f b field)) (b : β) :
    Finds P (fields.foldlM f b) := by
  induction fields generalizing b with
  | nil => exact ok b
  | cons field rest ih =>
      rw [List.foldlM_cons]
      exact (step field List.mem_cons_self b).bind fun c =>
        ih (fun other mem => step other (List.mem_cons_of_mem _ mem)) c

end Finds

/-- The fault is at an item or at one of its attributes, and is not that there is no header. -/
def AtItem (i : Located Item) (fault : Located Fault) : Prop :=
  fault.item ≠ .missingHeader ∧
    (fault.place = i.place ∨ ∃ a ∈ i.item.attributes, fault.place = a.place)

section AtItem

variable {registry : Registry} {before : List (Statement Float)} {item : Item}
  {field : Located Attribute}

theorem atItem_here {fault : Fault} (other : fault ≠ .missingHeader) :
    AtItem ⟨place, item⟩ ⟨place, fault⟩ :=
  ⟨other, .inl rfl⟩

theorem atItem_field {fault : Fault} (other : fault ≠ .missingHeader)
    (mem : field ∈ item.attributes) : AtItem ⟨place, item⟩ ⟨field.place, fault⟩ :=
  ⟨other, .inr ⟨field, mem, rfl⟩⟩

theorem finds_setHeaderField (mem : field ∈ item.attributes) (header : Header) :
    Finds (AtItem ⟨place, item⟩) (setHeaderField header field) := by
  unfold setHeaderField
  dsimp only
  split
  iterate 5 exact .ok _
  exact .fail (atItem_field (by simp) mem)

theorem finds_numberField (mem : field ∈ item.attributes) :
    Finds (AtItem ⟨place, item⟩) (numberField field) := by
  unfold numberField
  split
  · exact .ok _
  · exact .fail (atItem_field (by simp) mem)

theorem finds_setParameterField (mem : field ∈ item.attributes) (draft : Draft) :
    Finds (AtItem ⟨place, item⟩) (setParameterField draft field) := by
  unfold setParameterField
  dsimp only
  split
  · split
    · exact .ok _
    · exact .fail (atItem_field (by simp) mem)
  · split
    · exact .ok _
    · exact .ok _
    · exact .fail (atItem_field (by simp) mem)
  iterate 4 exact (finds_numberField mem).map _
  · exact .ok _
  · exact .fail (atItem_field (by simp) mem)

theorem finds_requiredField (name key : String) (found : Option Float) :
    Finds (AtItem ⟨place, item⟩) (requiredField place name key found) := by
  unfold requiredField
  split
  · exact .ok _
  · exact .fail (atItem_here (by simp))

theorem finds_portsOf (id : String) :
    Finds (AtItem ⟨place, item⟩) (portsOf registry before place id) := by
  unfold portsOf
  split
  · exact .ok _
  · exact .fail (atItem_here (by simp))

/-- A fault that is found in an item is found at it or at one of its attributes. -/
theorem finds_check (i : Located Item) : Finds (AtItem i) (check registry before i) := by
  obtain ⟨place, item⟩ := i
  have here {holds : Bool} {fault : Fault} (other : fault ≠ .missingHeader) :
      Finds (AtItem ⟨place, item⟩) (require holds place fault) :=
    .require (atItem_here other)
  have ports (id : String) := @finds_portsOf place registry before item id
  cases item with
  | synth name fields =>
      refine .bind (.bind (here (by simp)) fun _ => ?_) fun _ => .ok _
      exact .foldlM (fun field mem header => finds_setHeaderField mem header) _
  | param name fields =>
      refine .bind ?_ fun _ => .ok _
      refine .bind (here (by simp)) fun _ => .bind (here (by simp)) fun _ => .bind ?_ fun _ => ?_
      · exact .foldlM (fun field mem draft => finds_setParameterField mem draft) _
      · exact .bind (finds_requiredField _ _ _) fun _ => .bind (finds_requiredField _ _ _) fun _ =>
          .bind (finds_requiredField _ _ _) fun _ => .ok _
  | module tag id table =>
      refine .bind ?_ fun _ => .ok _
      unfold checkModule
      split
      · exact .fail (atItem_here (by simp))
      · exact .bind (here (by simp)) fun _ => .bind (here (by simp)) fun _ =>
          .bind (here (by simp)) fun _ => .bind (here (by simp)) fun _ => .ok _
  | patch cable =>
      refine .bind ?_ fun _ => .ok _
      exact .bind (ports _) fun _ => .bind (ports _) fun _ => .bind (here (by simp)) fun _ =>
        .bind (here (by simp)) fun _ => .bind (here (by simp)) fun _ =>
          .bind (here (by simp)) fun _ => .ok _
  | tweak target source =>
      refine .bind ?_ fun _ => .ok _
      refine .bind (ports _) fun _ =>
        .bind (here (by simp)) fun _ => .bind (here (by simp)) fun _ => ?_
      split
      · exact .fail (atItem_here (by simp))
      · split
        · exact .fail (atItem_here (by simp))
        · exact .ok _
  | comment text => exact .ok _

/-- A fault that is found in items within a text is within it. -/
theorem finds_checkAll {source : List Char} {items : List (Located Item)}
    (within : ∀ i ∈ items, i.Within source) (before : List (Statement Float)) :
    Finds (fun fault => fault.item ≠ .missingHeader ∧ fault.place <:+ source)
      (checkAll registry before items) := by
  induction items generalizing before with
  | nil => exact .ok _
  | cons i rest ih =>
      obtain ⟨inside, fields⟩ := within i List.mem_cons_self
      rw [checkAll_cons]
      refine .bind (fun fault h => ?_) fun s =>
        ih (fun other mem => within other (List.mem_cons_of_mem _ mem)) _
      obtain ⟨other, place | ⟨a, mem, place⟩⟩ := finds_check i fault h
      · exact ⟨other, place ▸ inside⟩
      · exact ⟨other, place ▸ fields a mem⟩

end AtItem
end Checker
end SynthPatch
