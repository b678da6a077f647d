import Taxonomy.Proofs.Schema.Concatenation

/-!
# A declaration as a text of its own

The text between the ends of a declaration has the tokens of the declaration, and they are read as
it stands whatever comes before and after them. So that text declares the one class, and what is
reported about it is what is reported about the declaration in its place (`parse_excerpt`).
-/

namespace Taxonomy

/-- Tokens that are those of a declaration somewhere else are a declaration. -/
theorem Declaration.exists_alone {ts us : List Token} {d : Declaration} {offset : Nat}
    (found : .declared d ∈ Block.ofTokens us) (moved : ts.map (Token.shift offset) = d.tokens) :
    ∃ e : Declaration, Block.ofTokens ts = [.declared e] ∧ e.map (Token.shift offset) = d := by
  have alone := Block.ofTokens_declared found []
  rw [List.append_nil, Block.ofTokens, ← moved,
    Block.ofTokens_map (Token.text_shift offset)] at alone
  obtain ⟨b, blocks, same⟩ := List.map_eq_singleton_iff.mp alone
  cases b with
  | declared e => exact ⟨e, blocks, Block.declared.inj same⟩
  | abandoned => cases same
  | stray => cases same

/-- A text that is one declaration has its class, and a report on its items. -/
theorem parse_declared {text : String} {d : Declaration}
    (alone : Block.ofTokens (tokenize text) = [.declared d]) :
    (parse text).classes.entries = [d.toClass] ∧
      (parse text).report.items = (Source.ofText text).ofBlock (.declared d) := by
  rw [parse, alone]
  refine ⟨rfl, ?_⟩
  rw [List.foldl_cons, List.foldl_nil, Outcome.items_add]
  exact List.append_nil _

/-! ## What is reported about one block -/

/-- The diagnostic is about a malformed property in the range. -/
def Diagnostic.MalformedIn (s : Span) (d : Diagnostic) : Prop :=
  d.code = .malformedProperty ∧ d.span.Within s

instance (s : Span) (d : Diagnostic) : Decidable (d.MalformedIn s) :=
  inferInstanceAs (Decidable (_ ∧ _))

namespace Outcome

variable {text : String}

theorem within_of_mem_ofBlock {b : Block} (block : b ∈ Block.ofTokens (tokenize text))
    {d : Diagnostic} (member : d ∈ (Source.ofText text).ofBlock b) :
    d.span.Within b.span ∧ d.span.start < d.span.stop := by
  have order := Block.inOrder_of_mem block
  obtain ⟨code, first, rest, message, run, rfl⟩ :=
    exists_run_of_mem_ofBlock (fun e => Block.infix_of_mem_entries block) member
  refine ⟨Block.within_span_of_subset order run.sublist, ?_⟩
  exact Block.span_nonempty (b := .stray first rest) (order.sublist run.sublist)

/-- Nothing that is reported about blocks lies in a range that they stand before or after. -/
theorem malformed_apart {bs : List Block} (part : bs ⊆ Block.ofTokens (tokenize text)) {s : Span}
    (apart : ∀ b ∈ bs, b.span.stop ≤ s.start ∨ s.stop ≤ b.span.start) :
    (bs.flatMap (Source.ofText text).ofBlock).filter (·.MalformedIn s) = [] := by
  apply List.filter_eq_nil_iff.mpr
  intro d member
  obtain ⟨b, block, reported⟩ := List.mem_flatMap.mp member
  obtain ⟨inside, nonempty⟩ := within_of_mem_ofBlock (part block) reported
  intro chosen
  obtain ⟨-, within⟩ := of_decide_eq_true chosen
  rcases apart b block with before | after
  · exact inside.not_before nonempty within before
  · exact within.not_before nonempty inside after

/-- What is reported about malformed properties in the span of a declaration is what is reported
about that declaration. -/
theorem malformed_within {d : Declaration}
    (found : .declared d ∈ Block.ofTokens (tokenize text)) :
    (parse text).report.items.filter (·.MalformedIn d.span) =
      (Source.ofText text).ofBlock (.declared d) := by
  have others : (parse text).report.items.filter (·.MalformedIn d.span) =
      ((parse text).report.items.filter (·.code ≠ .duplicateClass)).filter
        (·.MalformedIn d.span) := by
    rw [List.filter_filter]
    apply List.filter_congr
    intro e _
    by_cases code : e.code = .malformedProperty
    · simp [Diagnostic.MalformedIn, code]
    · simp [Diagnostic.MalformedIn, code]
  have own : ((Source.ofText text).ofBlock (.declared d)).filter (·.MalformedIn d.span) =
      (Source.ofText text).ofBlock (.declared d) := by
    apply List.filter_eq_self.mpr
    intro e member
    have code := (exists_junk_of_mem_ofEntries member).1
    exact decide_eq_true ⟨code, (within_of_mem_ofBlock found member).1⟩
  have apart := Block.pairwise_ofTokens text
  obtain ⟨bs, cs, split⟩ := List.append_of_mem found
  rw [split] at apart
  obtain ⟨-, later, across⟩ := List.pairwise_append.mp apart
  have before : (bs.flatMap (Source.ofText text).ofBlock).filter (·.MalformedIn d.span) = [] := by
    refine malformed_apart ?_ fun b member => ?_
    · rw [split]
      exact List.subset_append_left _ _
    · exact .inl (across b member _ List.mem_cons_self)
  have after : (cs.flatMap (Source.ofText text).ofBlock).filter (·.MalformedIn d.span) = [] := by
    refine malformed_apart ?_ fun b member => ?_
    · rw [split]
      exact List.Subset.trans (List.subset_cons_self _ _) (List.subset_append_right _ _)
    · exact .inr ((List.pairwise_cons.mp later).1 b member)
  rw [others, others_parse, split, List.flatMap_append, List.flatMap_cons, List.filter_append,
    List.filter_append, before, own, after, List.append_nil, List.nil_append]

end Outcome

/-! ## The text of a declaration -/

/-- The text of a declaration is cut into one block, the declaration at the start of a text. -/
theorem Declaration.exists_excerpt {text excerpt : String} {d : Declaration}
    (found : .declared d ∈ Block.ofTokens (tokenize text))
    (slice : excerpt.toList = Text.slice text.toList d.span) :
    Text.Stands excerpt.toList d.span text.toList ∧
      ∃ e : Declaration, Block.ofTokens (tokenize excerpt) = [.declared e] ∧
        e.map (Token.shift d.span.start) = d ∧
        e.span = ⟨0, Text.byteLength excerpt.toList⟩ := by
  have run : d.tokens <:+: tokenize text := Block.infix_of_mem_ofTokens found
  have order : Token.InOrder d.tokens := Block.inOrder_of_mem found
  obtain ⟨first, rest, tokens, span⟩ := Block.span_eq_coverAll (b := .declared d) order
  have tokens : d.tokens = first :: rest := tokens
  have span : d.span = Token.coverAll first rest := span
  obtain ⟨part, stands, read⟩ := exists_stands (tokens ▸ run)
  rw [← span] at stands read
  have chars : excerpt.toList = part := slice.trans stands.slice_eq
  have moved : (tokenize excerpt).map (Token.shift d.span.start) = d.tokens := by
    rw [tokenize, ← Token.tokensFrom_shift, chars, tokens]
    exact read
  obtain ⟨e, alone, same⟩ := exists_alone found moved
  refine ⟨chars ▸ stands, e, alone, same, ?_⟩
  have back : e.span.shift d.span.start = d.span := by
    have spans := Block.span_shift d.span.start (.declared e)
    rw [Block.map, same] at spans
    exact spans.symm
  obtain ⟨before, after, -, place⟩ := stands
  rw [place] at back
  obtain ⟨start, stop⟩ := Span.mk.inj back
  rw [chars]
  exact congrArg₂ Span.mk (Nat.add_eq_left.mp start) (Nat.add_left_cancel stop)

/-- The text of a class's declaration begins with the token `class` and ends with the token `.`, and
as a text of its own it declares the class, and gets the diagnostics about malformed properties in
it and no others. -/
theorem parse_excerpt {text : String} {c : ClassDeclaration}
    (member : c ∈ (parse text).classes.entries) :
    let excerpt := String.ofList (Text.slice text.toList c.span)
    Text.Stands excerpt.toList c.span text.toList ∧
      (∃ opening inner dot, tokenize excerpt = opening :: (inner ++ [dot]) ∧
        opening.kind = .classKeyword ∧ opening.span.start = 0 ∧
        dot.kind = .dot ∧ dot.span.stop = Text.byteLength excerpt.toList) ∧
      (tokenize excerpt).map (Token.shift c.span.start) <:+: tokenize text ∧
      (parse excerpt).classes.entries =
        [{ c with span := ⟨0, Text.byteLength excerpt.toList⟩ }] ∧
      (parse excerpt).report.items.map (Diagnostic.shift (Source.ofText text) c.span.start) =
        (parse text).report.items.filter (·.MalformedIn c.span) := by
  intro excerpt
  obtain ⟨d, found, rfl⟩ := exists_declared_of_mem_parse member
  have slice : excerpt.toList = Text.slice text.toList d.span := String.toList_ofList
  obtain ⟨stands, e, alone, same, span⟩ := Declaration.exists_excerpt found slice
  have block : .declared e ∈ Block.ofTokens (tokenize excerpt) :=
    alone ▸ List.mem_singleton_self _
  have cut : e.tokens = tokenize excerpt := by
    have all := Block.ofTokens_append (tokenize excerpt)
    rwa [alone, List.flatMap_singleton] at all
  obtain ⟨classes, items⟩ := parse_declared alone
  refine ⟨stands, ?_, ?_, ?_, ?_⟩
  · have shaped : e.Shaped Entry.Formed := Block.shaped_ofTokens _ _ block
    have ends := Declaration.span_eq (cut ▸ inOrder_tokenize excerpt)
    obtain ⟨start, stop⟩ := Span.mk.inj (ends.symm.trans span)
    refine ⟨e.header.keyword, e.header.tokens.tail ++ e.body.elim [] Body.tokens, e.dot, ?_,
      shaped.keyword, start, shaped.dot, stop⟩
    exact cut.symm
  · have moved : (tokenize excerpt).map (Token.shift d.span.start) = d.tokens := by
      rw [← cut, ← Declaration.tokens_map, same]
    exact moved ▸ Block.infix_of_mem_ofTokens found
  · have back : d.toClass = e.toClass.shift d.span.start := by
      rw [← Declaration.toClass_shift, same]
    rw [classes, back, ClassDeclaration.shift, ← span]
    rfl
  · show (parse excerpt).report.items.map (Diagnostic.shift _ d.span.start) = _
    obtain ⟨before, after, split, place⟩ := stands
    have offset : d.span.start = Text.byteLength before := congrArg Span.start place
    have reported := Source.ofBlock_shift split block
    rw [← offset, Block.map, same] at reported
    rw [items, ← reported]
    exact (Outcome.malformed_within found).symm

/-- A class named by a keyword, with two malformed properties, after a character of two bytes. -/
theorem parse_excerpt_after_letter :
    let text := "é class class \x7b bad; *class extends; *a \x7d . class B . x"
    let excerpt := "class class \x7b bad; *class extends; *a \x7d ."
    let c : ClassDeclaration :=
      { name := "class", properties := [⟨"class", "extends"⟩], span := ⟨3, 44⟩ }
    c ∈ (parse text).classes.entries ∧
      String.ofList (Text.slice text.toList c.span) = excerpt ∧
      (parse excerpt).classes.entries = [{ c with span := ⟨0, 41⟩ }] ∧
      ((parse excerpt).report.items.map (Diagnostic.shift (Source.ofText text) 3)).map
          (fun d => (d.code, d.span, d.position)) =
        [(.malformedProperty, ⟨17, 21⟩, ⟨1, 17⟩),
          (.malformedProperty, ⟨38, 40⟩, ⟨1, 38⟩)] := by
  intro text excerpt c
  have member : c ∈ (parse text).classes.entries := by decide +kernel
  have slice : String.ofList (Text.slice text.toList c.span) = excerpt := by decide +kernel
  obtain ⟨-, -, -, classes, report⟩ := parse_excerpt member
  rw [slice] at classes report
  refine ⟨member, slice, ?_, ?_⟩
  · rw [classes]
    decide +kernel
  · have report := congrArg (List.map fun d => (d.code, d.span, d.position)) report
    refine report.trans ?_
    decide +kernel

end Taxonomy
