import SynthPatch.Proofs.Expr.Writing
import SynthPatch.Proofs.Language.Reading
/-!
# Writing a patch

Statements are written one a line, header and parameters as blocks that name every attribute.  Text
values stand in quotes, numbers do not.  Behind a line break the grammar reads what was written as
the item that it was meant to be: no rule that is tried before takes any of it.

Main results:

- Functions {lit}`Statement.written` and {lit}`Statement.source`: the text of a statement and of a
  patch.
- Definition {lit}`Statement.Writable`: the statement can be written.
- Inductive {lit}`Statement.Item`: the items that a statement is read as.
- Theorem {lit}`Grammar.reads_entry`: what was written is read as an item of the statement.
-/

namespace SynthPatch

/-! ## Attributes -/

/-- An attribute as a line of a block, with its value in quotes or without. -/
inductive Line where
  | quoted (key value : String)
  | bare (key value : String)

namespace Line

/-- The attribute of a line. -/
def field : Line → Attribute
  | quoted key value | bare key value => ⟨key, value⟩

/-- The line as it is written. -/
def written : Line → List Char
  | quoted key value => key.toList ++ ':' :: ' ' :: '"' :: (value.toList ++ ['"'])
  | bare key value => key.toList ++ ':' :: ' ' :: value.toList

/-- The character may stand in a value without quotes. -/
def isInner (c : Char) : Bool :=
  !Grammar.isBreak c && c != '#'

/-- The line can be written: its key is an identifier, a value in quotes holds none, and one without
neither begins with one nor with a blank, does not end with a blank, and stays on its line. -/
inductive Writable : Line → Prop
  | quoted {key value : String} (valid : Identifier.isValid key.toList = true)
      (noQuote : '"' ∉ value.toList) : Writable (.quoted key value)
  | bare {key value : String} (valid : Identifier.isValid key.toList = true)
      (framed : Text.Framed value.toList) (noQuote : ∀ c ∈ value.toList.head?, c ≠ '"')
      (inside : ∀ c ∈ value.toList, isInner c = true) :
      Writable (.bare key value)

/-- The text of an expression stays on its line. -/
theorem isInner_of_isSymbol {c : Char} (h : Formula.isSymbol c = true) : isInner c = true := by
  rw [isInner, Grammar.isBreak, Bool.and_eq_true, Bool.not_eq_true', Bool.or_eq_false_iff,
    beq_eq_false_iff_ne, beq_eq_false_iff_ne, bne_iff_ne]
  refine ⟨⟨?_, ?_⟩, ?_⟩ <;> rintro rfl <;> exact absurd h (by decide)

/-- A legible number can be written without quotes. -/
theorem Writable.number {key : String} {x : Float}
    (valid : Identifier.isValid key.toList = true) (legible : Legible x) :
    Writable (.bare key (showNumber x)) := by
  obtain ⟨framed, symbols⟩ := Formula.Neat.number legible
  refine .bare valid framed ?_ fun c mem => isInner_of_isSymbol (symbols c mem)
  intro c mem
  have symbol := symbols c (List.mem_of_mem_head? mem)
  rintro rfl
  exact absurd symbol (by decide)

end Line

/-- The lines of a header. -/
def Header.lines (h : Header) : List Line :=
  [.quoted "longname" h.longname, .quoted "version" h.version, .quoted "author" h.author,
    .quoted "doc" h.doc, .quoted "type" h.type]

/-- The lines of a parameter. -/
def Parameter.lines (p : Parameter Float) : List Line :=
  [.quoted "type" p.type.name, .quoted "mutable" (if p.mutable then "yes" else "no"),
    .bare "step" (showNumber p.step), .bare "min" (showNumber p.min),
    .bare "max" (showNumber p.max), .bare "default" (showNumber p.default), .quoted "doc" p.doc]

/-- A block as it is written. -/
def writtenBlock (opening name : String) (lines : List Line) : List Char :=
  opening.toList ++ ' ' :: (name.toList ++ '\n' ::
    (lines.flatMap (fun l => l.written ++ ['\n']) ++ "@end".toList))

/-! ## Statements -/

/-- Module and port of an endpoint are identifiers. -/
structure Endpoint.IsName (e : Endpoint) : Prop where
  module : Identifier.isValid e.module.toList = true
  port : Identifier.isValid e.port.toList = true

instance (e : Endpoint) : Decidable e.IsName :=
  decidable_of_iff
    (Identifier.isValid e.module.toList = true ∧ Identifier.isValid e.port.toList = true)
    ⟨fun ⟨module, port⟩ => ⟨module, port⟩, fun ⟨module, port⟩ => ⟨module, port⟩⟩

namespace Statement

/-- A statement as it is written. -/
def written : Statement Float → List Char
  | .header h => writtenBlock "@synth" h.shortname h.lines
  | .parameter p => writtenBlock "@param" p.name p.lines
  | .module decl =>
    decl.kind.tag.toList ++ ':' :: decl.id.toList ++
      match decl.table with
      | some table => " TABLE ".toList ++ table.toList
      | none => []
  | .cable c => c.text.toList
  | .tweak t => t.target.text.toList ++ " = ".toList ++ t.value.written
  | .comment text => "# ".toList ++ text.toList

/-- A patch as it is written, a statement a line. -/
def source (statements : List (Statement Float)) : String :=
  "\n".intercalate (statements.map fun s => String.ofList s.written)

example :
    source [.module ⟨"osc", .custom, some "organ"⟩, .cable ⟨⟨"osc", "out"⟩, ⟨"audio", "in"⟩⟩,
      .tweak ⟨⟨"osc", "detune"⟩, [.param "ring", .number (-2), .op .sub, .number 0.5, .op .mul]⟩] =
    "CUSTOM-OSC:osc TABLE organ\nosc.out -> audio.in\nosc.detune = (param.ring - -2) * 0.5" := by
  decide +kernel

/-- The statement can be written: names, ports and tables are identifiers, texts hold no quotes,
numbers are legible, and a comment is a line without blanks around it. -/
def Writable : Statement Float → Prop
  | .header h => Identifier.isValid h.shortname.toList = true ∧
    '"' ∉ h.longname.toList ∧ '"' ∉ h.version.toList ∧ '"' ∉ h.author.toList ∧
    '"' ∉ h.doc.toList ∧ '"' ∉ h.type.toList
  | .parameter p => Identifier.isValid p.name.toList = true ∧ Legible p.step ∧ Legible p.min ∧
    Legible p.max ∧ Legible p.default ∧ '"' ∉ p.doc.toList
  | .module decl => Identifier.isValid decl.id.toList = true ∧
    ∀ table ∈ decl.table, Identifier.isValid table.toList = true
  | .cable c => c.source.IsName ∧ c.target.IsName
  | .tweak t => t.target.IsName ∧ ∀ token ∈ t.value, token.Writable
  | .comment text => Text.trim text.toList = text.toList ∧
    ∀ c ∈ text.toList, Grammar.isBreak c = false

instance : DecidablePred Writable
  | .header h => inferInstanceAs (Decidable (Identifier.isValid h.shortname.toList = true ∧
      '"' ∉ h.longname.toList ∧ '"' ∉ h.version.toList ∧ '"' ∉ h.author.toList ∧
      '"' ∉ h.doc.toList ∧ '"' ∉ h.type.toList))
  | .parameter p => inferInstanceAs (Decidable (Identifier.isValid p.name.toList = true ∧
      Legible p.step ∧ Legible p.min ∧ Legible p.max ∧ Legible p.default ∧ '"' ∉ p.doc.toList))
  | .module decl => inferInstanceAs (Decidable (Identifier.isValid decl.id.toList = true ∧
      ∀ table ∈ decl.table, Identifier.isValid table.toList = true))
  | .cable c => inferInstanceAs (Decidable (c.source.IsName ∧ c.target.IsName))
  | .tweak t => inferInstanceAs (Decidable (t.target.IsName ∧ ∀ token ∈ t.value, token.Writable))
  | .comment text => decidable_of_iff (Text.trim text.toList = text.toList ∧
      text.toList.all (!Grammar.isBreak ·) = true) (by simp [Writable])

theorem Writable.lines_header {h : Header} (writable : (Statement.header h).Writable) :
    ∀ l ∈ h.lines, l.Writable := by
  obtain ⟨-, longname, version, author, doc, type⟩ := writable
  intro l mem
  simp only [Header.lines, List.mem_cons, List.not_mem_nil, or_false] at mem
  rcases mem with rfl | rfl | rfl | rfl | rfl
  · exact .quoted (by decide) longname
  · exact .quoted (by decide) version
  · exact .quoted (by decide) author
  · exact .quoted (by decide) doc
  · exact .quoted (by decide) type

theorem Writable.lines_parameter {p : Parameter Float}
    (writable : (Statement.parameter p).Writable) : ∀ l ∈ p.lines, l.Writable := by
  obtain ⟨-, step, min, max, default, doc⟩ := writable
  intro l mem
  simp only [Parameter.lines, List.mem_cons, List.not_mem_nil, or_false] at mem
  rcases mem with rfl | rfl | rfl | rfl | rfl | rfl | rfl
  · exact .quoted (by decide) (by cases p.type <;> decide)
  · exact .quoted (by decide) (by cases p.mutable <;> decide)
  · exact .number (by decide) step
  · exact .number (by decide) min
  · exact .number (by decide) max
  · exact .number (by decide) default
  · exact .quoted (by decide) doc

/-- The items that a statement is read as; the attributes of a block come with their places. -/
inductive Item : Statement Float → SynthPatch.Item → Prop
  | header {h : Header} {fields : List (Located Attribute)}
      (same : fields.map (·.item) = h.lines.map Line.field) :
      Item (.header h) (.synth h.shortname fields)
  | parameter {p : Parameter Float} {fields : List (Located Attribute)}
      (same : fields.map (·.item) = p.lines.map Line.field) :
      Item (.parameter p) (.param p.name fields)
  | module (decl : ModuleDecl) : Item (.module decl) (.module decl.kind.tag decl.id decl.table)
  | cable (c : Cable) : Item (.cable c) (.patch c)
  | tweak (t : Tweak Float) : Item (.tweak t) (.tweak t.target (String.ofList t.value.written))
  | comment (text : String) : Item (.comment text) (.comment text)

end Statement

namespace Grammar

open Rule

variable {s : List Char}

/-! ## Blocks are read -/

/-- An identifier begins with none of some characters if no head of an identifier is one. -/
theorem ends_identifier {among : Char → Bool} {name : String}
    (valid : Identifier.isValid name.toList = true)
    (other : ∀ c, Identifier.isHead c = true → among c = false) (rest : List Char) :
    Ends among (name.toList ++ rest) := by
  obtain ⟨c, more, chars, head, -⟩ := Identifier.exists_of_isValid valid
  rw [chars]
  exact ends_cons.2 (other c head)

theorem isGap_of_isHead {c : Char} (h : Identifier.isHead c = true) : isGap c = false :=
  isGap_eq_false h (by decide) (by decide)

theorem reads_gap_identifier {name : String} (valid : Identifier.isValid name.toList = true)
    (rest : List Char) : gap.Reads (name.toList ++ rest) () (name.toList ++ rest) :=
  reads_gap (ends_identifier valid (fun _ => isGap_of_isHead) rest)

theorem reads_space_identifier {name : String} (valid : Identifier.isValid name.toList = true)
    (rest : List Char) : gap.Reads (' ' :: (name.toList ++ rest)) () (name.toList ++ rest) :=
  reads_gap_space (ends_identifier valid (fun _ => isGap_of_isHead) rest)

/-- No gap stands in front of a text that does not begin with a blank. -/
theorem ends_framed {cs : List Char} (framed : Text.Framed cs) (rest : List Char) :
    Ends isGap (cs ++ rest) := by
  obtain ⟨c, head, noBlank⟩ := framed.first
  intro d mem
  have same : d = c := by
    rw [List.head?_append, head] at mem
    exact (Option.mem_some_iff.1 mem).symm
  rw [same]
  exact isGap_eq_false noBlank (by decide) (by decide)

theorem reads_bare {text : List Char} (filled : text ≠ [])
    (inside : ∀ c ∈ text, Line.isInner c = true) (s : List Char) :
    bare.Reads (text ++ '\n' :: s) text ('\n' :: s) := by
  obtain ⟨c, more, rfl⟩ := List.exists_cons_of_ne_nil filled
  have ends : Ends Line.isInner ('\n' :: s) := ends_cons.2 (by decide)
  exact (reads_word (inside c (by simp)) (fun d mem => inside d (by simp [mem])) ends).named

/-- A key with a colon and a value behind it is read as an attribute. -/
theorem reads_field {key v : String} (valid : Identifier.isValid key.toList = true)
    {rest r : List Char} (noGap : Ends isGap rest) (read : value.Reads rest v r) :
    field.Reads (key.toList ++ ':' :: ' ' :: rest) ⟨key, v⟩ r := by
  have name := reads_identifier valid (ends_cons.2 (by decide) : Ends _ (':' :: ' ' :: rest))
  have colon : (mark ":").Reads (':' :: ' ' :: rest) () (' ' :: rest) :=
    reads_mark (reads_gap (ends_cons.2 (by decide)))
  exact (name.bind (colon.bind ((reads_gap_space noGap).bind (read.optional.bind_pure _)))).named

theorem reads_value {l : Line} (h : l.Writable) (s : List Char) :
    ∃ text, l.written = l.field.key.toList ++ ':' :: ' ' :: text ∧
      Ends isGap (text ++ '\n' :: s) ∧
      value.Reads (text ++ '\n' :: s) l.field.value ('\n' :: s) := by
  cases h with
  | @quoted key v valid noQuote =>
      have read := reads_quoted noQuote ('\n' :: s)
      rw [String.ofList_toList] at read
      have valued : value.Reads ('"' :: (v.toList ++ '"' :: '\n' :: s)) v ('\n' :: s) :=
        read.orElse_left
      refine ⟨'"' :: (v.toList ++ ['"']), rfl, ends_cons.2 (by decide), ?_⟩
      simpa [Line.field] using valued
  | @bare key v valid framed noQuote inside =>
      have noQuotes : quoted.Fails (v.toList ++ '\n' :: s) := by
        refine (fails_literal fun c mem => ?_).bind.named
        rw [List.head?_append_of_ne_nil _ framed.ne_nil] at mem
        simpa using noQuote c mem
      have read := (reads_bare framed.ne_nil inside s).bind_pure
        fun cs => String.ofList (Text.trim cs)
      rw [framed.trim_eq, String.ofList_toList] at read
      exact ⟨v.toList, rfl, ends_framed framed _, read.orElse_right noQuotes⟩

/-- A line of a block is read as its attribute. -/
theorem reads_line {l : Line} (h : l.Writable) (s : List Char) :
    ∃ place, blockLine.Reads (l.written ++ '\n' :: s) (some ⟨place, l.field⟩) s := by
  have valid : Identifier.isValid l.field.key.toList = true := by
    cases h with
    | quoted valid | bare valid => exact valid
  obtain ⟨text, written, noGap, read⟩ := reads_value h s
  have shape : l.written ++ '\n' :: s =
      l.field.key.toList ++ ':' :: ' ' :: (text ++ '\n' :: s) := by
    simp [written]
  have front : gap.Reads (l.written ++ '\n' :: s) () (l.written ++ '\n' :: s) := by
    rw [shape]
    exact reads_gap_identifier valid _
  have named : field.Reads (l.written ++ '\n' :: s) l.field ('\n' :: s) := by
    rw [shape]
    exact reads_field valid noGap read
  exact ⟨_, front.bind (named.located.optional.bind ((reads_lineEnd s).bind_pure _))⟩

/-- The lines of a block are read up to its end. -/
theorem reads_lines {lines : List Line} (h : ∀ l ∈ lines, l.Writable) (s : List Char) :
    ∃ entries, (entries.filterMap id).map (·.item) = lines.map Line.field ∧
      blockLine.many.Reads (lines.flatMap (fun l => l.written ++ ['\n']) ++ '@' :: s) entries
        ('@' :: s) := by
  induction lines with
  | nil =>
      have noGap : gap.Reads ('@' :: s) () ('@' :: s) := reads_gap (ends_cons.2 (by decide))
      have noField : field.Fails ('@' :: s) :=
        (fails_identifier (ends_cons.2 (by decide))).bind.named
      have noEnd : lineEnd.Fails ('@' :: s) := fails_lineEnd (ends_cons.2 (by decide))
      have stop : blockLine.Fails ('@' :: s) :=
        noGap.bind_fails (noField.located.optional.bind_fails noEnd.bind)
      exact ⟨[], rfl, stop.many⟩
  | cons l more ih =>
      obtain ⟨entries, same, read⟩ := ih fun l mem => h l (by simp [mem])
      obtain ⟨place, one⟩ := reads_line (h l (by simp))
        (more.flatMap (fun l => l.written ++ ['\n']) ++ '@' :: s)
      refine ⟨some ⟨place, l.field⟩ :: entries, by simpa using same, ?_⟩
      rw [List.flatMap_cons, List.append_assoc, List.append_assoc, List.singleton_append]
      exact one.many_cons (by simp; omega) read

/-- A block is read as its name and its attributes. -/
theorem reads_block {opening name : String} {lines : List Line}
    (valid : Identifier.isValid name.toList = true) (h : ∀ l ∈ lines, l.Writable)
    (s : List Char) :
    ∃ fields, fields.map (·.item) = lines.map Line.field ∧
      (block opening).Reads (writtenBlock opening name lines ++ s) (name, fields) s := by
  obtain ⟨entries, same, read⟩ := reads_lines h ("end".toList ++ s)
  have final : (mark "@end").Reads ("@end".toList ++ s) () s :=
    reads_mark (reads_gap (ends_cons.2 (by decide)))
  refine ⟨_, same, ?_⟩
  have shape : writtenBlock opening name lines ++ s = opening.toList ++ ' ' :: (name.toList ++
      '\n' :: (lines.flatMap (fun l => l.written ++ ['\n']) ++ '@' :: ("end".toList ++ s))) := by
    simp [writtenBlock]
  rw [shape]
  generalize lines.flatMap (fun l => l.written ++ ['\n']) ++ '@' :: ("end".toList ++ s) = body
    at read
  have space := reads_space_identifier valid ('\n' :: body)
  have title := reads_identifier valid (ends_cons.2 (by decide) : Ends _ ('\n' :: body))
  refine Reads.named ((reads_literal opening.toList _).bind ?_)
  exact space.bind (title.bind ((reads_lineEnd body).bind (read.bind (final.bind (.pure _ s)))))

/-! ## Statements are read -/

/-- Behind a row of characters and one that ends it stand none of some others. -/
theorem ends_dropWhile {among other : Char → Bool} {row : List Char} {c : Char}
    (inside : ∀ d ∈ row, other d = false) (stop : among c = false) (last : other c = false)
    (s : List Char) : Ends other ((row ++ c :: s).dropWhile among) := by
  induction row with
  | nil => simpa [stop] using ends_cons.2 last
  | cons d more ih =>
      rw [List.cons_append, List.dropWhile_cons]
      split
      · exact ih fun d mem => inside d (by simp [mem])
      · exact ends_cons.2 (inside d (by simp))

/-- The character may continue the tag of a kind. -/
def isTagTail (c : Char) : Bool :=
  c.isUpper || c.isDigit || c == '-'

/-- What begins with an endpoint is not read as a module: a tag may begin its name, but no colon
stands behind. -/
theorem fails_moduleDecl {name : String} (valid : Identifier.isValid name.toList = true)
    (s : List Char) : moduleDecl.Fails (name.toList ++ '.' :: s) := by
  obtain ⟨c, more, chars, -, tail⟩ := Identifier.exists_of_isValid valid
  rw [chars]
  cases upper : c.isUpper with
  | false =>
      have noTag : typeTag.Fails (c :: more ++ '.' :: s) :=
        (fails_word (ends_cons.2 upper)).bind.named
      exact noTag.bind.named
  | true =>
      have tag : (Rule.word Char.isUpper isTagTail).Reads (c :: more ++ '.' :: s)
          (c :: (more ++ '.' :: s).takeWhile isTagTail)
          ((more ++ '.' :: s).dropWhile isTagTail) := by
        simp only [Reads, Rule.word, List.cons_append, upper, if_true]
      have noGap : ∀ d ∈ more, isGap d = false :=
        fun d mem => isGap_eq_false (tail d mem) (by decide) (by decide)
      have noColon : ∀ d ∈ more, (d == ':') = false :=
        fun d mem => beq_eq_false (tail d mem) (by decide)
      have unmarked : (mark ":").Fails ((more ++ '.' :: s).dropWhile isTagTail) :=
        fails_mark (reads_gap (ends_dropWhile noGap (by decide) (by decide) s))
          (fails_literal (ends_dropWhile noColon (by decide) (by decide) s))
      exact ((tag.bind_pure String.ofList).named.bind_fails unmarked.bind).named

theorem exists_tag (k : Kind) : ∃ c more, k.tag.toList = c :: more ∧ c.isUpper = true ∧
    more.all isTagTail = true := by
  cases k <;> exact ⟨_, _, rfl, by decide, by decide⟩

/-- The tag of a kind begins with none of some characters if no capital letter is one. -/
theorem ends_tag {among : Char → Bool} (k : Kind)
    (other : ∀ c, c.isUpper = true → among c = false) (rest : List Char) :
    Ends among (k.tag.toList ++ rest) := by
  obtain ⟨c, more, tag, upper, -⟩ := exists_tag k
  rw [tag]
  exact ends_cons.2 (other c upper)

/-- The tag of a kind is read up to a colon. -/
theorem reads_typeTag (k : Kind) (s : List Char) :
    typeTag.Reads (k.tag.toList ++ ':' :: s) k.tag (':' :: s) := by
  obtain ⟨c, more, tag, upper, inside⟩ := exists_tag k
  have ends : Ends isTagTail (':' :: s) := ends_cons.2 (by decide)
  have read := (reads_word upper (List.all_eq_true.1 inside) ends).bind_pure String.ofList
  rw [← tag, String.ofList_toList] at read
  exact read.named

theorem reads_moduleDecl {decl : ModuleDecl} (h : (Statement.module decl).Writable)
    (s : List Char) :
    moduleDecl.Reads ((Statement.module decl).written ++ '\n' :: s)
      (.module decl.kind.tag decl.id decl.table) ('\n' :: s) := by
  obtain ⟨valid, tables⟩ := h
  obtain ⟨id, kind, table⟩ := decl
  have colon {t : List Char} : (mark ":").Reads (':' :: t) () t :=
    reads_mark (reads_gap (ends_cons.2 (by decide)))
  cases table with
  | none =>
      have shape : (Statement.module ⟨id, kind, none⟩).written ++ '\n' :: s =
          kind.tag.toList ++ ':' :: (id.toList ++ '\n' :: s) := by
        simp [Statement.written]
      have name := reads_identifier valid (ends_cons.2 (by decide) : Ends _ ('\n' :: s))
      have blank : gap.Reads ('\n' :: s) () ('\n' :: s) := reads_gap (ends_cons.2 (by decide))
      have noTable : (Rule.literal "TABLE".toList).Fails ('\n' :: s) :=
        fails_literal (ends_cons.2 (by decide))
      rw [shape]
      refine Reads.named ((reads_typeTag kind _).bind (colon.bind ?_))
      exact (reads_gap_identifier valid _).bind
        (name.bind (blank.bind (noTable.bind.named.optional.bind_pure _)))
  | some table =>
      have valid' := tables table rfl
      have shape : (Statement.module ⟨id, kind, some table⟩).written ++ '\n' :: s =
          kind.tag.toList ++ ':' :: (id.toList ++
            ' ' :: ("TABLE".toList ++ ' ' :: (table.toList ++ '\n' :: s))) := by
        simp [Statement.written]
      have name := reads_identifier valid (ends_cons.2 (by decide) :
        Ends _ (' ' :: ("TABLE".toList ++ ' ' :: (table.toList ++ '\n' :: s))))
      have space : gap.Reads (' ' :: ("TABLE".toList ++ ' ' :: (table.toList ++ '\n' :: s))) () _ :=
        reads_gap_space (ends_cons.2 (by decide))
      have space' := reads_space_identifier valid' ('\n' :: s)
      have name' := reads_identifier valid' (ends_cons.2 (by decide) : Ends _ ('\n' :: s))
      rw [shape]
      refine Reads.named ((reads_typeTag kind _).bind (colon.bind ?_))
      refine (reads_gap_identifier valid _).bind (name.bind (space.bind (Reads.bind_pure _ ?_)))
      exact Reads.optional (Reads.named ((reads_literal _ _).bind (space'.bind name')))

theorem reads_module {decl : ModuleDecl} (h : (Statement.module decl).Writable)
    (s : List Char) :
    statement.Reads ((Statement.module decl).written ++ '\n' :: s)
      (.module decl.kind.tag decl.id decl.table) ('\n' :: s) := by
  have noMark : Ends (· == '@') ((Statement.module decl).written ++ '\n' :: s) := by
    rw [Statement.written, List.append_assoc, List.append_assoc]
    exact ends_tag decl.kind (fun c upper => beq_eq_false upper (by decide)) _
  exact ((reads_moduleDecl h s).orElse_left.orElse_right
    (fails_block rfl noMark).bind).orElse_right (fails_block rfl noMark).bind

theorem toList_text (e : Endpoint) (s : List Char) :
    e.text.toList ++ s = e.module.toList ++ '.' :: (e.port.toList ++ s) := by
  simp [Endpoint.text]

/-- What begins with an endpoint is neither a block nor a module. -/
theorem reads_statement_endpoint {e : Endpoint} (name : e.IsName) {i : Item} {rest : List Char}
    (read : (cable.orElse tweak).Reads (e.text.toList ++ s) i rest) :
    statement.Reads (e.text.toList ++ s) i rest := by
  have noMark : Ends (· == '@') (e.text.toList ++ s) := by
    rw [toList_text]
    exact ends_identifier name.module (fun c isHead => beq_eq_false isHead (by decide)) _
  have noModule : moduleDecl.Fails (e.text.toList ++ s) := by
    rw [toList_text]
    exact fails_moduleDecl name.module _
  exact ((read.orElse_right noModule).orElse_right (fails_block rfl noMark).bind).orElse_right
    (fails_block rfl noMark).bind

theorem reads_cable {c : Cable} (h : (Statement.cable c).Writable) (s : List Char) :
    statement.Reads ((Statement.cable c).written ++ '\n' :: s) (.patch c) ('\n' :: s) := by
  obtain ⟨source, target⟩ := h
  have shape : (Statement.cable c).written ++ '\n' :: s = c.source.text.toList ++
      (' ' :: ("->".toList ++ ' ' :: (c.target.text.toList ++ '\n' :: s))) := by
    simp [Statement.written, Cable.text]
  have first := reads_endpoint source.module source.port (ends_cons.2 (by decide) :
    Ends _ (' ' :: ("->".toList ++ ' ' :: (c.target.text.toList ++ '\n' :: s))))
  have arrow : (mark "->").Reads
      (' ' :: ("->".toList ++ ' ' :: (c.target.text.toList ++ '\n' :: s))) () _ :=
    reads_mark (reads_gap_space (ends_cons.2 (by decide)))
  have space : gap.Reads (' ' :: (c.target.text.toList ++ '\n' :: s)) ()
      (c.target.text.toList ++ '\n' :: s) := by
    rw [toList_text]
    exact reads_space_identifier target.module _
  have second := reads_endpoint target.module target.port
    (ends_cons.2 (by decide) : Ends _ ('\n' :: s))
  rw [shape]
  refine reads_statement_endpoint source (Reads.orElse_left (Reads.named ?_))
  exact first.bind (arrow.bind (space.bind (second.bind_pure _)))

theorem reads_tweak {t : Tweak Float} (h : (Statement.tweak t).Writable)
    (shaped : t.value.checkShape = .ok ()) (s : List Char) :
    statement.Reads ((Statement.tweak t).written ++ '\n' :: s)
      (.tweak t.target (String.ofList t.value.written)) ('\n' :: s) := by
  obtain ⟨name, writable⟩ := h
  obtain ⟨framed, symbols⟩ := Postfix.neat_written shaped writable
  have shape : (Statement.tweak t).written ++ '\n' :: s =
      t.target.text.toList ++ (' ' :: '=' :: ' ' :: (t.value.written ++ '\n' :: s)) := by
    simp [Statement.written]
  have target := reads_endpoint name.module name.port (ends_cons.2 (by decide) :
    Ends _ (' ' :: '=' :: ' ' :: (t.value.written ++ '\n' :: s)))
  have space : gap.Reads (' ' :: '=' :: ' ' :: (t.value.written ++ '\n' :: s)) () _ :=
    reads_gap_space (ends_cons.2 (by decide))
  have noArrow : (mark "->").Fails (' ' :: '=' :: ' ' :: (t.value.written ++ '\n' :: s)) :=
    fails_mark space (fails_literal (ends_cons.2 (by decide)))
  have noCable : cable.Fails
      (t.target.text.toList ++ (' ' :: '=' :: ' ' :: (t.value.written ++ '\n' :: s))) :=
    (target.bind_fails noArrow.bind).named
  have sign : (mark "=").Reads (' ' :: '=' :: ' ' :: (t.value.written ++ '\n' :: s)) () _ :=
    reads_mark space
  have value := reads_bare framed.ne_nil (fun c mem => Line.isInner_of_isSymbol (symbols c mem)) s
  rw [shape]
  refine reads_statement_endpoint name (Reads.orElse_right noCable (Reads.named ?_))
  refine target.bind (sign.bind ((reads_gap_space (ends_framed framed _)).bind ?_))
  have read := value.bind_pure fun cs => Item.tweak t.target (String.ofList (Text.trim cs))
  rwa [framed.trim_eq] at read

theorem reads_header {h : Header} (writable : (Statement.header h).Writable) (s : List Char) :
    ∃ i, Statement.Item (.header h) i ∧
      statement.Reads ((Statement.header h).written ++ '\n' :: s) i ('\n' :: s) := by
  obtain ⟨fields, same, read⟩ := reads_block writable.1 writable.lines_header ('\n' :: s)
  exact ⟨_, .header same, (read.bind (.pure (Item.synth h.shortname fields) _)).orElse_left⟩

theorem reads_parameter {p : Parameter Float} (writable : (Statement.parameter p).Writable)
    (s : List Char) :
    ∃ i, Statement.Item (.parameter p) i ∧
      statement.Reads ((Statement.parameter p).written ++ '\n' :: s) i ('\n' :: s) := by
  obtain ⟨fields, same, read⟩ := reads_block writable.1 writable.lines_parameter ('\n' :: s)
  have noSynth : (block "@synth").Fails ((Statement.parameter p).written ++ '\n' :: s) := by
    have noMark : (Rule.literal "@synth".toList).Fails
        ((Statement.parameter p).written ++ '\n' :: s) :=
      rfl
    exact noMark.bind.named
  refine ⟨_, .parameter same, Reads.orElse_right noSynth.bind (Reads.orElse_left ?_)⟩
  exact read.bind (.pure (Item.param p.name fields) _)

/-! ## Entries are read -/

/-- A statement is read as an entry of its own. -/
theorem reads_entry_statement {text : List Char} {i : Item} {s : List Char}
    (noGap : Ends isGap (text ++ '\n' :: s))
    (read : statement.Reads (text ++ '\n' :: s) i ('\n' :: s)) :
    entry.Reads (text ++ '\n' :: s) [⟨text ++ '\n' :: s, i⟩] s :=
  (reads_gap noGap).bind (read.located.optional.bind ((reads_lineEnd s).bind_pure _))

/-- A comment is read as an entry of its own. -/
theorem reads_entry_comment {text : String} (h : (Statement.comment text).Writable)
    (s : List Char) :
    entry.Reads ((Statement.comment text).written ++ '\n' :: s)
      [⟨(Statement.comment text).written ++ '\n' :: s, .comment text⟩] s := by
  obtain ⟨trimmed, inside⟩ := h
  have shape : (Statement.comment text).written ++ '\n' :: s =
      '#' :: (' ' :: text.toList) ++ '\n' :: s := by
    simp [Statement.written]
  have noStatement : statement.Fails ('#' :: (' ' :: text.toList) ++ '\n' :: s) :=
    fails_statement (ends_cons.2 (by decide)) (ends_cons.2 (by decide)) (ends_cons.2 (by decide))
  have noBreak : ∀ c ∈ ' ' :: text.toList, isBreak c = false := by
    intro c mem
    rcases List.mem_cons.1 mem with rfl | mem
    · decide
    · exact inside c mem
  have content : commentText ('#' :: ' ' :: text.toList) = text := by
    have blank : Text.trim (' ' :: text.toList) = Text.trim text.toList := rfl
    rw [commentText]
    change String.ofList (Text.trim (' ' :: text.toList)) = text
    rw [blank, trimmed, String.ofList_toList]
  have front : gap.Reads ('#' :: (' ' :: text.toList) ++ '\n' :: s) () _ :=
    reads_gap (ends_cons.2 (by decide))
  rw [shape]
  have noItem : (located statement).optional.Reads _ none _ := noStatement.located.optional
  have read : entry.Reads ('#' :: (' ' :: text.toList) ++ '\n' :: s)
      [⟨_, .comment (commentText ('#' :: ' ' :: text.toList))⟩] s :=
    front.bind (noItem.bind ((reads_lineEnd_comment noBreak s).bind_pure _))
  rwa [content] at read

/-- What was written is read as an item of the statement. -/
theorem reads_entry {statement : Statement Float} (h : statement.Writable)
    (shaped : ∀ t, statement = .tweak t → t.value.checkShape = .ok ()) (s : List Char) :
    ∃ i : Located Item, statement.Item i.item ∧
      entry.Reads (statement.written ++ '\n' :: s) [i] s := by
  have apart {e : Endpoint} (name : e.IsName) (rest : List Char) :
      Ends isGap (e.text.toList ++ rest) := by
    rw [toList_text]
    exact ends_identifier name.module (fun _ => isGap_of_isHead) _
  cases statement with
  | header header =>
      obtain ⟨i, item, read⟩ := reads_header h s
      exact ⟨⟨_, i⟩, item, reads_entry_statement (ends_cons.2 (by decide)) read⟩
  | parameter p =>
      obtain ⟨i, item, read⟩ := reads_parameter h s
      exact ⟨⟨_, i⟩, item, reads_entry_statement (ends_cons.2 (by decide)) read⟩
  | module decl =>
      refine ⟨⟨_, _⟩, .module decl, reads_entry_statement ?_ (reads_module h s)⟩
      rw [Statement.written, List.append_assoc, List.append_assoc]
      exact ends_tag decl.kind (fun c upper => isGap_eq_false upper (by decide) (by decide)) _
  | cable c =>
      refine ⟨⟨_, _⟩, .cable c, reads_entry_statement ?_ (reads_cable h s)⟩
      have noGap := apart h.1 (" -> ".toList ++ (c.target.text.toList ++ '\n' :: s))
      simpa [Statement.written, Cable.text] using noGap
  | tweak t =>
      refine ⟨⟨_, _⟩, .tweak t, reads_entry_statement ?_ (reads_tweak h (shaped t rfl) s)⟩
      have noGap := apart h.1 (" = ".toList ++ (t.value.written ++ '\n' :: s))
      simpa [Statement.written] using noGap
  | comment text => exact ⟨⟨_, _⟩, .comment text, reads_entry_comment h s⟩

/-! ## Whole patches are read -/

/-- Each line of a patch that is written ends in a line break. -/
theorem toList_source {statements : List (Statement Float)} (filled : statements ≠ []) :
    (Statement.source statements).toList ++ ['\n'] =
      statements.flatMap fun s => s.written ++ ['\n'] := by
  rw [Statement.source, String.toList_intercalate, List.map_map]
  induction statements with
  | nil => exact absurd rfl filled
  | cons s rest ih =>
      cases rest with
      | nil => simp
      | cons next more =>
          have others := ih (by simp)
          simp only [List.map_cons, List.intercalate_cons_cons, List.append_assoc] at others ⊢
          rw [others]
          simp

/-- What was written is read as entries of the statements. -/
theorem reads_entries {statements : List (Statement Float)}
    (writable : ∀ s ∈ statements, s.Writable)
    (shaped : ∀ t, .tweak t ∈ statements → t.value.checkShape = .ok ()) :
    ∃ items : List (Located Item), List.Forall₂ (fun s i => s.Item i.item) statements items ∧
      entry.many.Reads (statements.flatMap fun s => s.written ++ ['\n']) (items.map ([·])) [] := by
  have noChar {among : Char → Bool} : Ends among [] := by simp [Ends]
  induction statements with
  | nil =>
      have stop : entry.Fails [] := (reads_gap noChar).bind_fails
        ((fails_statement noChar noChar noChar).located.optional.bind_fails
          (fails_lineEnd noChar).bind)
      exact ⟨[], .nil, stop.many⟩
  | cons s rest ih =>
      obtain ⟨items, same, read⟩ := ih (fun s mem => writable s (by simp [mem]))
        fun t mem => shaped t (by simp [mem])
      obtain ⟨i, item, one⟩ := reads_entry (writable s (by simp))
        (fun t is => shaped t (by simp [is])) (rest.flatMap fun s => s.written ++ ['\n'])
      refine ⟨i :: items, .cons item same, ?_⟩
      rw [List.flatMap_cons, List.append_assoc, List.singleton_append]
      exact one.many_cons (by simp; omega) read

/-- The text of a patch is read as items of its statements. -/
theorem read_source {statements : List (Statement Float)} (filled : statements ≠ [])
    (writable : ∀ s ∈ statements, s.Writable)
    (shaped : ∀ t, .tweak t ∈ statements → t.value.checkShape = .ok ()) :
    ∃ items, read ((Statement.source statements).toList ++ ['\n']) = .ok items ∧
      List.Forall₂ (fun s i => s.Item i.item) statements items := by
  obtain ⟨items, same, entries⟩ := reads_entries writable shaped
  have final : Rule.ending.named.Reads [] () [] := Reads.named rfl
  have whole : program.Reads (statements.flatMap fun s => s.written ++ ['\n'])
      (items.map ([·])).flatten [] :=
    Reads.named (entries.bind ((reads_gap (by simp [Ends])).bind (final.bind_pure _)))
  obtain ⟨fs, run⟩ := whole.exists_run
  refine ⟨items, ?_, same⟩
  rw [toList_source filled, read, run]
  simp only [← List.flatMap_def, List.flatMap_singleton']

end Grammar
end SynthPatch
