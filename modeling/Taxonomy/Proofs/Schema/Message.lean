import Taxonomy.Proofs.Schema.Part
import Taxonomy.Proofs.Token.Line

/-!
# What messages say

A message holds fixed texts, names, which are tokens, numbers, and tokens quoted on one line
(`Block.Tells`). No token holds a blank, so a diagnostic is printed on one line, whatever text it is
about (`report_on_one_line`).
-/

namespace Taxonomy

/-! ## What refusals quote -/

namespace Refusal

/-- All texts of tokens that the refusal quotes are such. -/
def Quotes (P : String → Prop) : Refusal → Prop
  | noName found => ∀ t ∈ found, P t.text
  | noParent name found | noBody name found | noDot name found =>
    P name ∧ ∀ t ∈ found, P t.text
  | unclosed name => P name

end Refusal

namespace Declaration

variable {P : String → Prop} {keyword : Token} {ts rest : List Token} {dropped : Dropped}

theorem quotes_of_readHeader (all : ∀ t ∈ ts, P t.text)
    (error : readHeader keyword ts = .error dropped) : dropped.cause.Quotes P := by
  unfold readHeader at error
  split at error
  · cases error
    exact fun t found => all t (List.mem_of_mem_head? found)
  · cases error
  · rename_i name t us named
    rw [Token.readName_eq_some named, List.forall_mem_cons, List.forall_mem_cons] at all
    split at error
    · split at error
      · cases error
        exact ⟨all.1, fun u found => all.2.2 u (List.mem_of_mem_head? found)⟩
      · cases error
    · cases error

theorem quotes_of_readBody {h : Header} (name : P h.name.text)
    (error : readBody h ts = .error dropped) : dropped.cause.Quotes P := by
  unfold readBody at error
  split at error
  · cases error
  · split at error
    · split at error
      · cases error
      · cases error
        exact name
    · cases error

theorem quotes_of_readDot {h : Header} {body : Option Body} (name : P h.name.text)
    (all : ∀ t ∈ ts, P t.text) (error : readDot h body ts = .error dropped) :
    dropped.cause.Quotes P := by
  have quoted : ∀ t ∈ ts.head?, P t.text := fun t found => all t (List.mem_of_mem_head? found)
  have given : dropped.cause = .noBody h.name.text ts.head? ∨
      dropped.cause = .noDot h.name.text ts.head? := by
    unfold readDot at error
    cases ts with
    | nil =>
      cases error
      exact (ite_eq_or_eq _ _ _)
    | cons t ts =>
      by_cases dot : t.kind = .dot
      · simp only [dot, if_true] at error
        cases error
      · simp only [dot, if_false] at error
        cases error
        exact (ite_eq_or_eq _ _ _)
  rcases given with cause | cause <;> rw [cause] <;> exact ⟨name, quoted⟩

/-- What is quoted when a declaration is given up are texts of its tokens or of the one after
them. -/
theorem quotes_of_read (all : ∀ t ∈ keyword :: ts, P t.text)
    (error : read keyword ts = .error dropped) : dropped.cause.Quotes P := by
  unfold read at error
  split at error
  · rename_i failed
    cases error
    exact quotes_of_readHeader (List.forall_mem_cons.mp all).2 failed
  · rename_i header us readHeader
    have split := readHeader_append keyword ts
    simp only [readHeader] at split
    rw [← split, List.forall_mem_append] at all
    have name : P header.name.text := all.1 header.name (by simp [Header.tokens])
    split at error
    · rename_i failed
      cases error
      exact quotes_of_readBody name failed
    · rename_i body vs readBody
      have split := readBody_append header us
      simp only [readBody] at split
      rw [← split, List.forall_mem_append] at all
      exact quotes_of_readDot name all.2.2 error

end Declaration

namespace Block

/-- The name of the class that the block is about, empty when there is none. -/
def className : Block → String
  | declared d => d.header.name.text
  | abandoned _ _ _ cause => cause.className
  | stray .. => ""

theorem exists_ofDropped (keyword : Token) (d : Dropped) :
    ∃ rest, (ofDropped keyword d).1 = .abandoned keyword rest d.entries d.cause := by
  unfold ofDropped
  split <;> exact ⟨_, rfl⟩

/-- A block that was given up quotes tokens of the text only. -/
theorem quotes_of_mem_ofTokens {P : String → Prop} {ts : List Token}
    (all : ∀ t ∈ ts, P t.text) {keyword : Token} {rest : List Token} {entries : List Entry}
    {cause : Refusal} (block : .abandoned keyword rest entries cause ∈ ofTokens ts) :
    cause.Quotes P := by
  fun_induction ofTokens ts with
  | case1 => cases block
  | case2 t ts _ ih =>
    rcases List.mem_cons.mp block with own | later
    · unfold readDeclaration at own
      split at own
      · cases own
      · rename_i dropped failed
        obtain ⟨more, same⟩ := exists_ofDropped t dropped
        rw [same] at own
        cases own
        exact Declaration.quotes_of_read all failed
    · refine ih (fun u member => all u ?_) later
      rw [← readDeclaration_append t ts]
      exact List.mem_append_right _ member
  | case3 t ts _ ih =>
    rcases List.mem_cons.mp block with own | later
    · cases own
    · refine ih (fun u member => all u (List.mem_cons_of_mem t ?_)) later
      exact (List.dropWhile_sublist _).subset member

/-! ## What diagnostics say -/

/-- What is said about a block: about an item that is no property, about the block as a whole, or
about a declaration that it takes the place of. -/
inductive Tells (s : Source) (b : Block) : Diagnostic → Prop
  | item {first : Token} {rest : List Token} : .junk first rest ∈ b.entries →
    Tells s b (s.junk b.className (Token.coverAll first rest))
  | abandoned {keyword : Token} {rest : List Token} {entries : List Entry} {cause : Refusal} :
    b = .abandoned keyword rest entries cause →
      Tells s b (s.diagnose cause.code b.span cause.message)
  | stray {first : Token} {rest : List Token} : b = .stray first rest → Tells s b (s.stray b.span)
  | redeclared {d : Declaration} (earlier : ClassDeclaration) :
    b = .declared d → Tells s b (s.redeclared earlier d.toClass)

theorem tells_of_mem_ofEntries {s : Source} {b : Block} {d : Diagnostic}
    (member : d ∈ s.ofEntries b.className b.entries) : b.Tells s d := by
  obtain ⟨e, entry, found⟩ := List.mem_filterMap.mp member
  cases e with
  | property => cases found
  | junk first rest =>
    cases found
    exact .item entry

theorem tells_of_mem_ofBlock {s : Source} {b : Block} {d : Diagnostic}
    (member : d ∈ s.ofBlock b) : b.Tells s d := by
  cases b with
  | declared e => exact tells_of_mem_ofEntries (b := .declared e) member
  | abandoned keyword rest entries cause =>
    rcases List.mem_append.mp member with item | whole
    · exact tells_of_mem_ofEntries (b := .abandoned keyword rest entries cause) item
    · obtain rfl := List.mem_singleton.mp whole
      exact .abandoned rfl
  | stray first rest =>
    obtain rfl := List.mem_singleton.mp member
    exact .stray rfl

end Block

/-- Whatever is reported is said about some block. -/
theorem exists_tells {text : String} {d : Diagnostic} (member : d ∈ (parse text).report.items) :
    ∃ b ∈ Block.ofTokens (tokenize text), b.Tells (Source.ofText text) d := by
  rcases Outcome.exists_block_of_mem_foldl member with
    none | ⟨b, block, own | ⟨m, replaced⟩⟩
  · cases none
  · exact ⟨b, block, Block.tells_of_mem_ofBlock own⟩
  · obtain ⟨e, earlier, rfl, rfl⟩ := Outcome.exists_redeclared replaced
    exact ⟨_, block, .redeclared earlier rfl⟩

/-! ## Messages on one line -/

namespace Refusal

theorem oneLine_describe {found : Option Token} (quoted : ∀ t ∈ found, OneLine t.text) :
    OneLine (describe found) := by
  cases found with
  | none => decide
  | some t =>
    rw [describe]
    split
    · show OneLine ("`" ++ t.text ++ "`")
      rw [oneLine_append, oneLine_append]
      exact ⟨⟨by decide, quoted t rfl⟩, by decide⟩
    · cases t.kind <;> decide

/-- What is found in the place of something in a declaration is said in one form. -/
theorem oneLine_expected {expected name : String} {found : Option Token} (fixed : OneLine expected)
    (quotes : OneLine name ∧ ∀ t ∈ found, OneLine t.text) :
    OneLine (expected ++ name ++ "`, found " ++ describe found) := by
  simp only [oneLine_append]
  exact ⟨⟨⟨fixed, quotes.1⟩, by decide⟩, oneLine_describe quotes.2⟩

theorem oneLine_message {cause : Refusal} (quotes : cause.Quotes OneLine) :
    OneLine cause.message := by
  cases cause with
  | noName found =>
    show OneLine ("expected class name after `class`, found " ++ describe found)
    exact oneLine_append.mpr ⟨by decide, oneLine_describe quotes⟩
  | noParent name found =>
    show OneLine
      ("expected parent name after `extends` in `" ++ name ++ "`, found " ++ describe found)
    exact oneLine_expected (by decide) quotes
  | noBody name found =>
    show OneLine ("expected `extends`, `\x7b` or `.` after class name `" ++ name ++ "`, found " ++
      describe found)
    exact oneLine_expected (by decide) quotes
  | noDot name found =>
    show OneLine
      ("expected `.` to end the declaration of `" ++ name ++ "`, found " ++ describe found)
    exact oneLine_expected (by decide) quotes
  | unclosed name =>
    show OneLine ("property block of `" ++ name ++ "` is never closed with `\x7d`")
    simp only [oneLine_append]
    exact ⟨⟨by decide, quotes⟩, by decide⟩

end Refusal

theorem Diagnostic.oneLine_render {d : Diagnostic} (message : OneLine d.message) :
    OneLine d.render := by
  show OneLine (toString d.position.line ++ ":" ++ toString d.position.column ++ ": " ++
    d.severity.name ++ "[" ++ d.code.id ++ "]: " ++ d.message)
  have severity : OneLine d.severity.name := by cases d.severity <;> decide
  have code : OneLine d.code.id := by cases d.code <;> decide
  simp only [oneLine_append]
  exact ⟨⟨⟨⟨⟨⟨⟨⟨oneLine_toString_nat _, by decide⟩, oneLine_toString_nat _⟩,
    by decide⟩, severity⟩, by decide⟩, code⟩, by decide⟩, message⟩

namespace Block

variable {text : String} {b : Block}

theorem oneLine_of_mem {t : Token} (member : t ∈ tokenize text) : OneLine t.text :=
  oneLine_of_visible (visible_of_mem_tokenize member)

theorem oneLine_className (block : b ∈ ofTokens (tokenize text)) : OneLine b.className := by
  cases b with
  | declared d =>
    refine oneLine_of_mem ((infix_of_mem_ofTokens block).subset ?_)
    simp [tokens, Declaration.tokens, Header.tokens]
  | abandoned keyword rest entries cause =>
    have quotes := quotes_of_mem_ofTokens (fun t member => oneLine_of_mem member) block
    cases cause with
    | noName => exact (by decide : OneLine "")
    | unclosed => exact quotes
    | noParent => exact quotes.1
    | noBody => exact quotes.1
    | noDot => exact quotes.1
  | stray => exact (by decide : OneLine "")

theorem oneLine_excerpt {first : Token} {rest : List Token}
    (run : first :: rest <:+: tokenize text) :
    OneLine ((Source.ofText text).excerpt (Token.coverAll first rest)) := by
  rw [excerpt_of_run run]
  exact Token.oneLine_quote fun t member => visible_of_mem_tokenize (run.subset member)

theorem Tells.oneLine (block : b ∈ ofTokens (tokenize text)) {d : Diagnostic}
    (tells : b.Tells (Source.ofText text) d) : OneLine d.message := by
  cases tells with
  | item entry =>
    have run := (infix_of_mem_entries block entry).trans (infix_of_mem_ofTokens block)
    show OneLine ("ignored `" ++ _ ++ "` in class `" ++ b.className ++
      "`: properties are written `*name Range;`")
    simp only [oneLine_append]
    exact ⟨⟨⟨⟨by decide, oneLine_excerpt run⟩, by decide⟩,
      oneLine_className block⟩, by decide⟩
  | abandoned same =>
    subst same
    exact Refusal.oneLine_message
      (quotes_of_mem_ofTokens (fun t member => oneLine_of_mem member) block)
  | stray same =>
    subst same
    show OneLine ("ignored text outside any declaration: `" ++ _ ++ "`")
    simp only [oneLine_append]
    exact ⟨⟨by decide, oneLine_excerpt (infix_of_mem_ofTokens block)⟩, by decide⟩
  | @redeclared d earlier same =>
    subst same
    have name : OneLine d.toClass.name := oneLine_className block
    show OneLine
      ("class `" ++ d.toClass.name ++ "` redeclared; replaces the declaration on line " ++
      toString _)
    simp only [oneLine_append]
    exact ⟨⟨⟨by decide, name⟩, by decide⟩, oneLine_toString_nat _⟩

end Block

/-- A diagnostic is printed without blanks but single spaces. One on text outside, and one on an
item that is no property, quotes the tokens of its span, cut after forty characters. -/
theorem report_on_one_line (text : String) :
    let report := (parse text).report.items
    let quoted := fun d : Diagnostic => Token.quote (Token.inside text d.span)
    (∀ d ∈ report, ∀ c ∈ d.render.toList, Text.isBlank c → c = ' ') ∧
    (∀ d ∈ report, d.code = .strayText →
      d.message = s!"ignored text outside any declaration: `{quoted d}`") ∧
    ∀ d ∈ report, d.code = .malformedProperty → ∃ b ∈ Block.ofTokens (tokenize text),
      d.span.Within b.span ∧ d.message =
      s!"ignored `{quoted d}` in class `{b.className}`: properties are written `*name Range;`" := by
  intro report quoted
  refine ⟨?_, ?_, ?_⟩
  · intro d member
    obtain ⟨b, block, tells⟩ := exists_tells member
    exact Diagnostic.oneLine_render (tells.oneLine block)
  · intro d member code
    obtain ⟨b, block, tells⟩ := exists_tells member
    cases tells with
    | item => cases code
    | @abandoned _ _ _ cause => cases cause <;> cases code
    | @stray first rest same =>
      subst same
      have run := Block.infix_of_mem_ofTokens block
      have tokens : quoted ((Source.ofText text).stray (Token.coverAll first rest)) =
          (Source.ofText text).excerpt (Token.coverAll first rest) := quote_inside_of_run run
      rw [Block.span, tokens]
      rfl
    | redeclared => cases code
  · intro d member code
    obtain ⟨b, block, tells⟩ := exists_tells member
    cases tells with
    | @item first rest entry =>
      have items := Block.infix_of_mem_entries block entry
      have run := items.trans (Block.infix_of_mem_ofTokens block)
      have tokens : quoted ((Source.ofText text).junk b.className (Token.coverAll first rest)) =
          (Source.ofText text).excerpt (Token.coverAll first rest) := quote_inside_of_run run
      refine ⟨b, block, ?_, ?_⟩
      · exact Block.within_span_of_subset (Block.inOrder_of_mem block) items.sublist
      · rw [tokens]
        rfl
    | @abandoned _ _ _ cause => cases cause <;> cases code
    | stray => cases code
    | redeclared => cases code

/-- Blanks of other kinds than the space between tokens, tokens that touch, and a text that is too
long. -/
theorem report_on_three_lines :
    let text := "a\u2028\t\x7b *b\u0085\nclass A \x7b\n no\u3000\r\nway; \x7d .\n" ++
      "one two three four five six seven eight nine"
    let report := (parse text).report.items
    let quoted := fun d : Diagnostic => Token.quote (Token.inside text d.span)
    report.map (fun d => (d.code, quoted d)) =
        [(.strayText, "a \x7b *b"), (.malformedProperty, "no way;"),
          (.strayText, "one two three four five six seven eight ...")] ∧
      (∀ d ∈ report, ∀ c ∈ d.render.toList, Text.isBlank c → c = ' ') ∧
      (∃ d ∈ report, d.code = .strayText ∧
        d.message = s!"ignored text outside any declaration: `{quoted d}`") ∧
      ∃ d ∈ report, d.code = .malformedProperty ∧ ∃ b ∈ Block.ofTokens (tokenize text),
        d.span.Within b.span ∧ d.message =
      s!"ignored `{quoted d}` in class `{b.className}`: properties are written `*name Range;`" := by
  intro text report quoted
  obtain ⟨lines, strays, items⟩ := report_on_one_line text
  have stray : ∃ d ∈ report, d.code = .strayText := by decide +kernel
  have item : ∃ d ∈ report, d.code = .malformedProperty := by decide +kernel
  obtain ⟨d, member, code⟩ := stray
  obtain ⟨e, member', code'⟩ := item
  exact ⟨by decide +kernel, lines, ⟨d, member, code, strays d member code⟩,
    ⟨e, member', code', items e member' code'⟩⟩

end Taxonomy
