import Mathlib.Logic.ExistsUnique
import Taxonomy.Proofs.Schema.ClassMap
import Taxonomy.Proofs.Schema.Extent
import Taxonomy.Proofs.Schema.Reader

/-!
# Nothing is dropped silently

The blocks of a text account for all of it: they share out its tokens, and what none of them turned
into a class is reported once, with the block's span. `Outcome.add` says what one block adds to the
classes and the report; the whole run follows by induction over the blocks.
-/

namespace Taxonomy

/-- Of ranges that come one after another, only one is around a range that is not empty. -/
theorem Span.existsUnique_within {α : Type} {f : α → Span} {as : List α}
    (apart : as.Pairwise fun a b => (f a).stop ≤ (f b).start) {s : Span}
    (nonempty : s.start < s.stop) {a : α} (member : a ∈ as) (within : s.Within (f a)) :
    ∃! i : Fin as.length, s.Within (f as[i]) := by
  obtain ⟨i, bound, rfl⟩ := List.mem_iff_getElem.mp member
  refine ⟨⟨i, bound⟩, within, ?_⟩
  rintro ⟨j, other⟩ also
  have ordered := List.pairwise_iff_getElem.mp apart
  rcases Nat.lt_trichotomy j i with before | same | after
  · exact absurd (ordered j i other bound before) (also.not_before nonempty within)
  · exact Fin.ext same
  · exact absurd (ordered i j bound other after) (within.not_before nonempty also)

/-- The code is that of a diagnostic about a block as a whole. -/
def DiagnosticCode.ofBlock : DiagnosticCode → Bool
  | malformedDeclaration | unterminatedBlock | strayText => true
  | malformedProperty | duplicateClass => false

namespace Block

/-- The tokens of the block are of the kinds that a block of its sort starts with and holds. -/
def Shaped : Block → Prop
  | declared d => d.Shaped Entry.Formed
  | abandoned keyword .. => keyword.kind = .classKeyword
  | stray first rest => ∀ t ∈ first :: rest, t.kind ≠ .classKeyword

/-- The code and the span of the diagnostic about the block as a whole. A declaration that was read
has none. -/
def notice? (b : Block) : Option (DiagnosticCode × Span) :=
  match b with
  | declared _ => none
  | abandoned _ _ _ cause => some (cause.code, b.span)
  | stray .. => some (.strayText, b.span)

/-- The blocks account for all of a text. -/
structure Account (text : String) (blocks : List Block) : Prop where
  /-- The blocks are the tokens of the text, cut into stretches. -/
  cut : blocks.flatMap tokens = tokenize text
  nonempty : ∀ b ∈ blocks, b.tokens ≠ []
  shaped : ∀ b ∈ blocks, b.Shaped
  /-- A block's span goes from the start of its first token to the end of its last. -/
  span : ∀ b ∈ blocks, b.span = ⟨(b.tokens.head b.tokens_ne_nil).span.start,
    (b.tokens.getLast b.tokens_ne_nil).span.stop⟩
  apart : blocks.Pairwise fun a b => a.span.stop ≤ b.span.start
  proper : ∀ b ∈ blocks, b.span.start < b.span.stop
  within : ∀ b ∈ blocks, ∀ t ∈ b.tokens, t.span.Within b.span
  token : ∀ t ∈ tokenize text, ∃! i : Fin blocks.length, t.span.Within blocks[i].span
  /-- Each character that is not blank lies in exactly one block. -/
  char : ∀ (a r : List Char) (c : Char), text.toList = a ++ c :: r → Text.isBlank c = false →
    ∃! i : Fin blocks.length,
      Span.Within ⟨Text.byteLength a, Text.byteLength a + c.utf8Size⟩ blocks[i].span
  /-- The diagnostics about whole blocks are one for each block that was given up or stray, in
  order, with the block's span. -/
  notices : ((parse text).report.items.filter (·.code.ofBlock)).map (fun d => (d.code, d.span)) =
    blocks.filterMap notice?
  abandoned : ∀ keyword rest entries cause, .abandoned keyword rest entries cause ∈ blocks →
    cause.code = .malformedDeclaration ∨ cause.code = .unterminatedBlock
  /-- What is reported while a block is taken into account and is about an item of a property block
  lies inside the block, and classes change at declarations only. -/
  step : ∀ before b after, blocks = before ++ b :: after →
    let earlier := before.foldl (Outcome.add (Source.ofText text)) {}
    let later := Outcome.add (Source.ofText text) earlier b
    (∃ news, later.report.items = earlier.report.items ++ news ∧
      ∀ d ∈ news, d.code = .malformedProperty → d.span.Within b.span) ∧
    (b.declaration? = none → later.classes = earlier.classes)
  run : parse text = blocks.foldl (Outcome.add (Source.ofText text)) {}
  classes : (parse text).classes =
    .ofList (blocks.filterMap fun b => b.declaration?.map Declaration.toClass)

/-! ## The blocks of tokens -/

theorem shaped_ofTokens (ts : List Token) : ∀ b ∈ ofTokens ts, b.Shaped := by
  fun_induction ofTokens ts with
  | case1 => simp
  | case2 t ts kind ih =>
    intro b member
    rcases List.mem_cons.mp member with rfl | member
    · unfold readDeclaration
      split
      · rename_i read
        exact Declaration.shaped_of_read kind read
      · unfold ofDropped
        split <;> exact kind
    · exact ih b member
  | case3 t ts kind ih =>
    intro b member
    rcases List.mem_cons.mp member with rfl | member
    · intro u member
      rcases List.mem_cons.mp member with rfl | member
      · exact kind
      · simpa using List.all_eq_true.mp List.all_takeWhile u member
    · exact ih b member

/-- A range that is not empty and lies in one of the blocks lies in no other. -/
theorem existsUnique_within {bs : List Block}
    (apart : bs.Pairwise fun a b => a.span.stop ≤ b.span.start) {s : Span}
    (nonempty : s.start < s.stop) {b : Block} (member : b ∈ bs) (within : s.Within b.span) :
    ∃! i : Fin bs.length, s.Within bs[i].span :=
  Span.existsUnique_within apart nonempty member within

theorem within_span_of_subset {b : Block} (order : Token.InOrder b.tokens) {first : Token}
    {rest : List Token} (part : (first :: rest).Sublist b.tokens) :
    (Token.coverAll first rest).Within b.span := by
  have start := within_span order first (part.subset List.mem_cons_self)
  have stop := within_span order _
    (part.subset (List.getLast_mem (by simp : first :: rest ≠ [])))
  rw [(order.sublist part).coverAll_eq]
  exact ⟨start.1, stop.2⟩

end Block

/-! ## What one block adds -/

namespace Outcome

/-- Every diagnostic about the items of a property block is about an item that is no property. -/
theorem exists_junk_of_mem_ofEntries {s : Source} {name : String} {es : List Entry}
    {d : Diagnostic} (member : d ∈ s.ofEntries name es) :
    d.code = .malformedProperty ∧
      ∃ first rest, .junk first rest ∈ es ∧ d.span = Token.coverAll first rest := by
  obtain ⟨e, entry, found⟩ := List.mem_filterMap.mp member
  cases e with
  | property => cases found
  | junk first rest =>
    cases found
    exact ⟨rfl, first, rest, entry, rfl⟩

theorem within_of_mem_ofEntries {s : Source} {name : String} {b : Block}
    (order : Token.InOrder b.tokens) (items : ∀ e ∈ b.entries, e.tokens <:+: b.tokens)
    {d : Diagnostic} (member : d ∈ s.ofEntries name b.entries) : d.span.Within b.span := by
  obtain ⟨-, first, rest, entry, span⟩ := exists_junk_of_mem_ofEntries member
  rw [span]
  exact Block.within_span_of_subset order (items _ entry).sublist

/-- The diagnostics that a block adds: those about its items and at most one more. -/
theorem report_add (s : Source) (o : Outcome) (b : Block) :
    ∃ name more, (add s o b).report.items =
      o.report.items ++ (s.ofEntries name b.entries ++ more) ∧
      (∀ d ∈ more, d.code ≠ .malformedProperty) ∧
      (more.filter (·.code.ofBlock)).map (fun d => (d.code, d.span)) = b.notice?.toList := by
  cases b with
  | declared d =>
    refine ⟨d.header.name.text,
      (o.classes.insert d.toClass).1.toList.map (s.redeclared · d.toClass), ?_, ?_, ?_⟩
    · simp [add, Report.append, Block.entries]
    · intro e member
      obtain ⟨earlier, -, rfl⟩ := List.mem_map.mp member
      exact DiagnosticCode.noConfusion
    · cases (o.classes.insert d.toClass).1 <;> rfl
  | abandoned keyword rest entries cause =>
    refine ⟨cause.className,
      [s.diagnose cause.code (Block.abandoned keyword rest entries cause).span
      cause.message], ?_, ?_, ?_⟩
    · simp [add, Report.append, Report.push, Block.entries]
    · cases cause <;> simp [Source.diagnose, Refusal.code]
    · cases cause <;> rfl
  | stray first rest =>
    refine ⟨"", [s.stray (Block.stray first rest).span], ?_, ?_, rfl⟩
    · simp [add, Report.push, Block.entries, Source.ofEntries]
    · simp [Source.stray, Source.diagnose]

theorem classes_add (s : Source) (o : Outcome) (b : Block) :
    (add s o b).classes =
      (b.declaration?.map Declaration.toClass).toList.foldl (fun m d => (m.insert d).2)
        o.classes := by
  cases b <;> rfl

/-- The diagnostics about whole blocks are one for each block that was given up or stray. -/
theorem notices_foldl (s : Source) (bs : List Block) (o : Outcome) :
    ((bs.foldl (add s) o).report.items.filter (·.code.ofBlock)).map (fun d => (d.code, d.span)) =
      (o.report.items.filter (·.code.ofBlock)).map (fun d => (d.code, d.span)) ++
        bs.filterMap Block.notice? := by
  induction bs generalizing o with
  | nil => simp
  | cons b bs ih =>
    obtain ⟨name, more, items, -, notice⟩ := report_add s o b
    have none : (s.ofEntries name b.entries).filter (·.code.ofBlock) = [] := by
      rw [List.filter_eq_nil_iff]
      intro d member
      rw [(exists_junk_of_mem_ofEntries member).1]
      decide
    rw [List.foldl_cons, ih, items, List.filter_append, List.filter_append, none,
      List.nil_append, List.map_append, notice, List.append_assoc]
    cases present : b.notice? <;> simp [present]

theorem classes_foldl (s : Source) (bs : List Block) (o : Outcome) :
    (bs.foldl (add s) o).classes =
      (bs.filterMap fun b => b.declaration?.map Declaration.toClass).foldl
        (fun m d => (m.insert d).2) o.classes := by
  induction bs generalizing o with
  | nil => rfl
  | cons b bs ih =>
    rw [List.foldl_cons, ih, classes_add]
    cases present : b.declaration? <;> simp [present]

/-- What is listed was declared. -/
theorem exists_declared {bs : List Block} {c : ClassDeclaration}
    (member : c ∈ bs.filterMap fun b => b.declaration?.map Declaration.toClass) :
    ∃ d, .declared d ∈ bs ∧ d.toClass = c := by
  obtain ⟨b, block, found⟩ := List.mem_filterMap.mp member
  cases b with
  | declared d => exact ⟨d, block, Option.some.inj found⟩
  | abandoned => cases found
  | stray => cases found

end Outcome

/-- Only what was declared is listed. -/
theorem exists_declared_of_mem_parse {text : String} {c : ClassDeclaration}
    (member : c ∈ (parse text).classes.entries) :
    ∃ d, .declared d ∈ Block.ofTokens (tokenize text) ∧ d.toClass = c := by
  rw [parse, Outcome.classes_foldl] at member
  rcases ClassMap.mem_foldl_insert member with declared | none
  · exact Outcome.exists_declared declared
  · cases none

/-- The blocks that the tokens of a text are cut into account for all of it. -/
theorem account_of_parse (text : String) :
    Block.Account text (Block.ofTokens (tokenize text)) := by
  have cut := Block.ofTokens_append (tokenize text)
  have order := inOrder_tokenize text
  have own : ∀ b ∈ Block.ofTokens (tokenize text), Token.InOrder b.tokens := by
    intro b member
    have part := (Block.infix_flatMap Block.tokens member).sublist
    rw [cut] at part
    exact order.sublist part
  have apart := Block.pairwise_span (cut.symm ▸ order)
  have exists_block : ∀ t ∈ tokenize text,
      ∃ b ∈ Block.ofTokens (tokenize text), t.span.Within b.span := by
    intro t member
    rw [← cut] at member
    obtain ⟨b, block, member⟩ := List.mem_flatMap.mp member
    exact ⟨b, block, Block.within_span (own b block) t member⟩
  refine {
    cut
    nonempty := fun b _ => b.tokens_ne_nil
    shaped := Block.shaped_ofTokens _
    span := fun b member => Block.span_eq (own b member)
    apart
    proper := fun b member => Block.span_nonempty (own b member)
    within := fun b member => Block.within_span (own b member)
    token := ?_
    char := ?_
    notices := Outcome.notices_foldl (Source.ofText text) _ {}
    abandoned := fun _ _ _ cause _ => by cases cause <;> simp [Refusal.code]
    step := ?_
    run := rfl
    classes := Outcome.classes_foldl (Source.ofText text) _ {} }
  · intro t member
    obtain ⟨b, block, within⟩ := exists_block t member
    exact Block.existsUnique_within apart (order.nonempty t member) block within
  · intro a r c split visible
    obtain ⟨t, member, inside⟩ := exists_token_of_not_blank split visible
    obtain ⟨b, block, within⟩ := exists_block t member
    have nonempty : Text.byteLength a < Text.byteLength a + c.utf8Size := by
      have := c.utf8Size_pos
      omega
    exact Block.existsUnique_within apart nonempty block (inside.trans within)
  · intro before b after split
    have block : b ∈ Block.ofTokens (tokenize text) := by simp [split]
    refine ⟨?_, ?_⟩
    · obtain ⟨name, more, items, others, -⟩ := Outcome.report_add (Source.ofText text)
        (before.foldl (Outcome.add (Source.ofText text)) {}) b
      refine ⟨_, items, fun d member code => ?_⟩
      rcases List.mem_append.mp member with member | member
      · exact Outcome.within_of_mem_ofEntries (own b block)
          (fun e entry => Block.infix_of_mem_entries block entry) member
      · exact absurd code (others d member)
    · intro none
      rw [Outcome.classes_add, none]
      rfl

end Taxonomy
