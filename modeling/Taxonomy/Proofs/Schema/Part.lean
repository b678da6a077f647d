import Taxonomy.Proofs.Schema.Account
import Taxonomy.Proofs.Schema.ClassMap
import Taxonomy.Proofs.Schema.Relabel
import Taxonomy.Proofs.Token.Excerpt

/-!
# What is reported about a part of a text

Except for redeclarations, each diagnostic is about a run of tokens of one block, and says nothing
but what stands there (`Source.ofBlock`). So a text in the middle of another one gets the same
diagnostics there, moved to where it stands (`ofBlock_shift`). Each diagnostic points at the first
token that it is about (`placed_of_mem_parse`).
-/

namespace Taxonomy

/-! ## Moved ranges -/

theorem Span.cover_shift (offset : Nat) (a b : Span) :
    (a.shift offset).cover (b.shift offset) = (a.cover b).shift offset := by
  simp only [cover, shift, Nat.add_min_add_left, Nat.add_max_add_left]

theorem Token.text_shift (offset : Nat) (t : Token) : (t.shift offset).text = t.text :=
  rfl

theorem Token.coverAll_shift (offset : Nat) (first : Token) (rest : List Token) :
    coverAll (first.shift offset) (rest.map (shift offset)) =
      (coverAll first rest).shift offset := by
  have last : (rest.map (shift offset)).getLast?.getD (first.shift offset) =
      (rest.getLast?.getD first).shift offset := by
    rw [List.getLast?_map, Option.getD_map]
  rw [coverAll, last]
  exact Span.cover_shift offset _ _

theorem Block.span_shift (offset : Nat) (b : Block) :
    (b.map (Token.shift offset)).span = b.span.shift offset := by
  cases b with
  | declared d => exact Span.cover_shift offset _ _
  | abandoned keyword rest => exact Token.coverAll_shift offset keyword rest
  | stray first rest => exact Token.coverAll_shift offset first rest

/-- The declaration, the given number of bytes further on. -/
def ClassDeclaration.shift (offset : Nat) (c : ClassDeclaration) : ClassDeclaration :=
  { c with span := c.span.shift offset }

theorem Declaration.toClass_shift (offset : Nat) (d : Declaration) :
    (d.map (Token.shift offset)).toClass = d.toClass.shift offset := by
  have span : (d.map (Token.shift offset)).span = d.span.shift offset :=
    Block.span_shift offset (.declared d)
  rw [toClass_map (Token.text_shift offset), span]
  rfl

/-- The diagnostic about the same text in a source in which that text starts at the offset. -/
def Diagnostic.shift (s : Source) (offset : Nat) (d : Diagnostic) : Diagnostic :=
  { d with span := d.span.shift offset, position := s.position (offset + d.span.start) }

theorem Source.diagnose_shift (s s' : Source) (offset : Nat) (code : DiagnosticCode) (span : Span)
    (message : String) :
    s'.diagnose code (span.shift offset) message = (s.diagnose code span message).shift s' offset :=
  rfl

/-! ## What a block adds to the report -/

/-- What is reported about a block, but for its taking the place of an earlier declaration. -/
def Source.ofBlock (s : Source) (b : Block) : List Diagnostic :=
  match b with
  | .declared d => s.ofEntries d.header.name.text d.entries
  | .abandoned _ _ entries cause =>
    s.ofEntries cause.className entries ++ [s.diagnose cause.code b.span cause.message]
  | .stray .. => [s.stray b.span]

/-- The report that a block takes the place of an earlier declaration. -/
def Source.redeclarations (s : Source) (m : ClassMap) : Block → List Diagnostic
  | .declared d => (m.insert d.toClass).1.toList.map (s.redeclared · d.toClass)
  | .abandoned .. | .stray .. => []

namespace Outcome

variable {s : Source}

theorem code_of_mem_ofBlock {b : Block} {d : Diagnostic} (member : d ∈ s.ofBlock b) :
    d.code ≠ .duplicateClass := by
  have item : ∀ name entries, d ∈ s.ofEntries name entries → d.code ≠ .duplicateClass := by
    intro name entries reported
    rw [(exists_junk_of_mem_ofEntries reported).1]
    exact DiagnosticCode.noConfusion
  cases b with
  | declared d => exact item _ _ member
  | abandoned keyword rest entries cause =>
    rcases List.mem_append.mp member with junk | whole
    · exact item _ _ junk
    · obtain rfl := List.mem_singleton.mp whole
      cases cause <;> exact DiagnosticCode.noConfusion
  | stray first rest =>
    obtain rfl := List.mem_singleton.mp member
    exact DiagnosticCode.noConfusion

/-- What is reported about a block is about a run of its tokens. -/
theorem exists_run_of_mem_ofBlock {b : Block} (items : ∀ e ∈ b.entries, e.tokens <:+: b.tokens)
    {d : Diagnostic} (member : d ∈ s.ofBlock b) :
    ∃ code first rest message, first :: rest <:+: b.tokens ∧
      d = s.diagnose code (Token.coverAll first rest) message := by
  have item : ∀ name, d ∈ s.ofEntries name b.entries →
      ∃ code first rest message, first :: rest <:+: b.tokens ∧
        d = s.diagnose code (Token.coverAll first rest) message := by
    intro name reported
    obtain ⟨e, entry, found⟩ := List.mem_filterMap.mp reported
    cases e with
    | property => cases found
    | junk first rest =>
      cases found
      exact ⟨_, first, rest, _, items _ entry, rfl⟩
  cases b with
  | declared d => exact item _ member
  | abandoned keyword rest entries cause =>
    rcases List.mem_append.mp member with junk | whole
    · exact item _ junk
    · obtain rfl := List.mem_singleton.mp whole
      exact ⟨_, keyword, rest, _, List.infix_refl _, rfl⟩
  | stray first rest =>
    obtain rfl := List.mem_singleton.mp member
    exact ⟨_, first, rest, _, List.infix_refl _, rfl⟩

/-- A block adds what is reported about it, and the redeclaration if it is one. -/
theorem items_add (s : Source) (o : Outcome) (b : Block) :
    (add s o b).report.items =
      o.report.items ++ (s.ofBlock b ++ s.redeclarations o.classes b) := by
  cases b <;> simp [add, Report.append, Report.push, Source.ofBlock, Source.redeclarations]

/-- Only a declaration takes the place of another one. -/
theorem exists_redeclared {m : ClassMap} {b : Block} {d : Diagnostic}
    (member : d ∈ s.redeclarations m b) :
    ∃ e earlier, b = .declared e ∧ d = s.redeclared earlier e.toClass := by
  cases b with
  | declared e =>
    obtain ⟨earlier, -, rfl⟩ := List.mem_map.mp member
    exact ⟨e, earlier, rfl, rfl⟩
  | abandoned => cases member
  | stray => cases member

theorem code_of_mem_redeclarations {m : ClassMap} {b : Block} {d : Diagnostic}
    (member : d ∈ s.redeclarations m b) : d.code = .duplicateClass := by
  obtain ⟨e, earlier, rfl, rfl⟩ := exists_redeclared member
  rfl

theorem others_add (o : Outcome) (b : Block) :
    (add s o b).report.items.filter (·.code ≠ .duplicateClass) =
      o.report.items.filter (·.code ≠ .duplicateClass) ++ s.ofBlock b := by
  have all : (s.ofBlock b).filter (·.code ≠ .duplicateClass) = s.ofBlock b := by
    apply List.filter_eq_self.mpr
    intro d member
    exact decide_eq_true (code_of_mem_ofBlock member)
  have none : (s.redeclarations o.classes b).filter (·.code ≠ .duplicateClass) = [] := by
    apply List.filter_eq_nil_iff.mpr
    intro d member
    simp [code_of_mem_redeclarations member]
  rw [items_add, List.filter_append, List.filter_append, all, none, List.append_nil]

theorem others_foldl (bs : List Block) (o : Outcome) :
    (bs.foldl (add s) o).report.items.filter (·.code ≠ .duplicateClass) =
      o.report.items.filter (·.code ≠ .duplicateClass) ++ bs.flatMap s.ofBlock := by
  induction bs generalizing o with
  | nil => simp
  | cons b bs ih =>
    rw [List.foldl_cons, ih, others_add, List.flatMap_cons, List.append_assoc]

/-- Each declaration adds a class to the list or is reported to replace one. -/
theorem duplicates_add (o : Outcome) (b : Block) :
    ((add s o b).report.items.filter (·.code = .duplicateClass)).length +
        (add s o b).classes.size =
      (o.report.items.filter (·.code = .duplicateClass)).length + o.classes.size +
        b.declaration?.toList.length := by
  have none : (s.ofBlock b).filter (·.code = .duplicateClass) = [] := by
    apply List.filter_eq_nil_iff.mpr
    intro d member
    simpa using code_of_mem_ofBlock member
  have all : (s.redeclarations o.classes b).filter (·.code = .duplicateClass) =
      s.redeclarations o.classes b := by
    apply List.filter_eq_self.mpr
    intro d member
    exact decide_eq_true (code_of_mem_redeclarations member)
  have grown : (s.redeclarations o.classes b).length + (add s o b).classes.size =
      o.classes.size + b.declaration?.toList.length := by
    cases b with
    | declared d =>
      have inserted := ClassMap.size_insert o.classes d.toClass
      rwa [Source.redeclarations, List.length_map]
    | abandoned => exact Nat.zero_add _
    | stray => exact Nat.zero_add _
  rw [items_add, List.filter_append, List.filter_append, none, all, List.nil_append,
    List.length_append]
  omega

theorem duplicates_foldl (bs : List Block) (o : Outcome) :
    ((bs.foldl (add s) o).report.items.filter (·.code = .duplicateClass)).length +
        (bs.foldl (add s) o).classes.size =
      (o.report.items.filter (·.code = .duplicateClass)).length + o.classes.size +
        (bs.filterMap Block.declaration?).length := by
  induction bs generalizing o with
  | nil => rfl
  | cons b bs ih =>
    have first := duplicates_add (s := s) o b
    have later := ih (add s o b)
    have counts : ((b :: bs).filterMap Block.declaration?).length =
        b.declaration?.toList.length + (bs.filterMap Block.declaration?).length := by
      rw [List.filterMap_cons]
      cases b.declaration? <;> simp [Nat.add_comm]
    rw [List.foldl_cons, counts]
    omega

/-- What is reported is reported about some block. -/
theorem exists_block_of_mem_foldl {bs : List Block} {o : Outcome} {d : Diagnostic}
    (member : d ∈ (bs.foldl (add s) o).report.items) :
    d ∈ o.report.items ∨
      ∃ b ∈ bs, d ∈ s.ofBlock b ∨ ∃ m, d ∈ s.redeclarations m b := by
  induction bs generalizing o with
  | nil => exact .inl member
  | cons b bs ih =>
    rcases ih member with early | ⟨c, block, reported⟩
    · rw [items_add, List.mem_append, List.mem_append] at early
      rcases early with before | own | replaced
      · exact .inl before
      · exact .inr ⟨b, List.mem_cons_self, .inl own⟩
      · exact .inr ⟨b, List.mem_cons_self, .inr ⟨_, replaced⟩⟩
    · exact .inr ⟨c, List.mem_cons_of_mem b block, reported⟩

end Outcome

/-- The report on a text, but for redeclarations. -/
theorem others_parse (text : String) :
    (parse text).report.items.filter (·.code ≠ .duplicateClass) =
      (Block.ofTokens (tokenize text)).flatMap (Source.ofText text).ofBlock := by
  rw [parse, Outcome.others_foldl]
  rfl

/-! ## A part of a text -/

namespace Source

variable {whole part : String} {front rest : List Char}
  (split : whole.toList = front ++ (part.toList ++ rest))

include split

/-- A run of tokens is quoted the same where the text stands in another one. -/
theorem excerpt_shift {first : Token} {more : List Token} (run : first :: more <:+: tokenize part) :
    (ofText whole).excerpt ((Token.coverAll first more).shift (Text.byteLength front)) =
      (ofText part).excerpt (Token.coverAll first more) := by
  obtain ⟨cs, stands, -⟩ := exists_stands run
  have moved := stands.shift front rest
  rw [← split] at moved
  rw [excerpt, excerpt, ofText, ofText, moved.slice_eq, stands.slice_eq]

theorem ofEntries_shift (name : String) {es : List Entry}
    (parts : ∀ e ∈ es, e.tokens <:+: tokenize part) :
    (ofText whole).ofEntries name (es.map (Entry.map (Token.shift (Text.byteLength front)))) =
      ((ofText part).ofEntries name es).map
        (Diagnostic.shift (ofText whole) (Text.byteLength front)) := by
  induction es with
  | nil => rfl
  | cons e es ih =>
    obtain ⟨own, later⟩ := List.forall_mem_cons.mp parts
    cases e with
    | property => exact ih later
    | junk t ts =>
      have same : (ofText whole).junk name
          (Token.coverAll (t.shift (Text.byteLength front))
            (ts.map (Token.shift (Text.byteLength front)))) =
          ((ofText part).junk name (Token.coverAll t ts)).shift (ofText whole)
            (Text.byteLength front) := by
        rw [Token.coverAll_shift, junk, excerpt_shift split own]
        rfl
      exact congrArg₂ List.cons same (ih later)

/-- A block of the part adds the same to the report on the whole, moved. -/
theorem ofBlock_shift {b : Block} (block : b ∈ Block.ofTokens (tokenize part)) :
    (ofText whole).ofBlock (b.map (Token.shift (Text.byteLength front))) =
      ((ofText part).ofBlock b).map (Diagnostic.shift (ofText whole) (Text.byteLength front)) := by
  have run := Block.infix_of_mem_ofTokens block
  have items := fun name => ofEntries_shift split name fun e entry =>
    (Block.infix_of_mem_entries block entry).trans run
  have span := Block.span_shift (Text.byteLength front) b
  cases b with
  | declared d =>
    have entries : (d.map (Token.shift (Text.byteLength front))).entries =
        d.entries.map (Entry.map (Token.shift (Text.byteLength front))) :=
      Block.entries_map _ (.declared d)
    rw [Block.map, ofBlock, entries]
    exact items _
  | abandoned keyword ts entries cause =>
    rw [Block.map, ofBlock, ← Block.map, span, Refusal.className_map, Refusal.code_map,
      Refusal.message_map (Token.text_shift _), ofBlock, List.map_append]
    exact congrArg (· ++ _) (items cause.className)
  | stray t ts =>
    rw [Block.map, ofBlock, ← Block.map, span, stray]
    show [(ofText whole).diagnose _ _ _] = _
    rw [Block.span, excerpt_shift split run]
    rfl

/-- So do all of them. -/
theorem flatMap_ofBlock_shift :
    ((Block.ofTokens (tokenize part)).map
        (Block.map (Token.shift (Text.byteLength front)))).flatMap (ofText whole).ofBlock =
      ((Block.ofTokens (tokenize part)).flatMap (ofText part).ofBlock).map
        (Diagnostic.shift (ofText whole) (Text.byteLength front)) := by
  rw [List.flatMap_map, List.map_flatMap, List.flatMap_def, List.flatMap_def]
  refine congrArg List.flatten (List.map_congr_left fun b block => ?_)
  exact ofBlock_shift split block

end Source

/-! ## Where diagnostics point -/

theorem Source.position_ofText {text : String} {before after : List Char}
    (split : text.toList = before ++ after) :
    (ofText text).position (Text.byteLength before) = .after before := by
  rw [ofText, position, split]
  exact LineTable.position_append before after

/-- The position at which a run of tokens starts is the one after all text before it. -/
theorem Source.position_of_run {text : String} {first : Token} {rest : List Token}
    (run : first :: rest <:+: tokenize text) :
    (ofText text).position (Token.coverAll first rest).start =
      .after (Text.takeBytes (Token.coverAll first rest).start text.toList) := by
  obtain ⟨part, stands, -⟩ := exists_stands run
  obtain ⟨after, split⟩ := Text.takeBytes_prefix (Token.coverAll first rest).start text.toList
  have position := position_ofText split.symm
  rwa [stands.byteLength_takeBytes] at position

/-- The diagnostic is about a run of tokens of the text, and gives the position of its start. -/
def Diagnostic.Placed (text : String) (d : Diagnostic) : Prop :=
  ∃ first rest, first :: rest <:+: tokenize text ∧ d.span = Token.coverAll first rest ∧
    d.position = .after (Text.takeBytes d.span.start text.toList)

/-- The span of a diagnostic is not empty. -/
theorem Diagnostic.Placed.nonempty {text : String} {d : Diagnostic} (placed : d.Placed text) :
    d.span.start < d.span.stop := by
  obtain ⟨first, rest, run, span, -⟩ := placed
  have order := (inOrder_tokenize text).sublist run.sublist
  rw [span]
  exact Block.span_nonempty (b := .stray first rest) order

/-- Of two diagnostics, the one whose span starts first has the earlier position. -/
theorem Diagnostic.Placed.before {text : String} {d e : Diagnostic} (first : d.Placed text)
    (second : e.Placed text) (lt : d.span.start < e.span.start) : d.position.Before e.position := by
  obtain ⟨t, ts, run, span, position⟩ := first
  obtain ⟨t', ts', run', span', position'⟩ := second
  obtain ⟨part, stands, -⟩ := exists_stands run
  obtain ⟨part', stands', -⟩ := exists_stands run'
  rw [← span] at stands
  rw [← span'] at stands'
  rw [position, position']
  exact Position.before_of_stands stands stands' lt

theorem Block.exists_run {text : String} {b : Block} (block : b ∈ ofTokens (tokenize text)) :
    ∃ first rest, first :: rest <:+: tokenize text ∧ b.span = Token.coverAll first rest := by
  obtain ⟨first, rest, tokens, span⟩ := span_eq_coverAll (inOrder_of_mem block)
  exact ⟨first, rest, tokens ▸ infix_of_mem_ofTokens block, span⟩

/-- Each diagnostic has its place. -/
theorem placed_of_mem_parse {text : String} {d : Diagnostic}
    (member : d ∈ (parse text).report.items) : d.Placed text := by
  rcases Outcome.exists_block_of_mem_foldl member with
    none | ⟨b, block, own | ⟨m, replaced⟩⟩
  · cases none
  · obtain ⟨code, first, rest, message, run, rfl⟩ :=
      Outcome.exists_run_of_mem_ofBlock (fun e => Block.infix_of_mem_entries block) own
    have run := run.trans (Block.infix_of_mem_ofTokens block)
    exact ⟨first, rest, run, rfl, Source.position_of_run run⟩
  · obtain ⟨e, earlier, rfl, rfl⟩ := Outcome.exists_redeclared replaced
    obtain ⟨first, rest, run, span⟩ := Block.exists_run block
    have span : e.toClass.span = Token.coverAll first rest := span
    refine ⟨first, rest, run, span, ?_⟩
    rw [Source.redeclared, Source.diagnose, span]
    exact Source.position_of_run run

/-! ## The front of a text -/

theorem Token.shift_zero (t : Token) : t.shift 0 = t := by
  simp only [shift, Span.shift, Nat.zero_add]

/-- What is reported about the front of a text is reported where it is if the front is all there
is. -/
theorem Diagnostic.shift_zero {whole front : String} {rest : List Char}
    (split : whole.toList = front.toList ++ rest) {b : Block}
    (block : b ∈ Block.ofTokens (tokenize front)) {d : Diagnostic}
    (member : d ∈ (Source.ofText front).ofBlock b) : d.shift (Source.ofText whole) 0 = d := by
  obtain ⟨code, first, more, message, run, rfl⟩ :=
    Outcome.exists_run_of_mem_ofBlock (fun e => Block.infix_of_mem_entries block) member
  obtain ⟨cs, ⟨before, after, here, span⟩, -⟩ :=
    exists_stands (run.trans (Block.infix_of_mem_ofTokens block))
  have there : whole.toList = before ++ (cs ++ after ++ rest) := by
    rw [split, here, List.append_assoc]
  rw [← Source.diagnose_shift, span, Source.diagnose, Source.diagnose, Span.shift, Nat.zero_add,
    Nat.zero_add, Source.position_ofText here, Source.position_ofText there]

/-- The blocks of the front of a text add what they add to the report on the front. -/
theorem Source.flatMap_ofBlock_front {whole front : String} {rest : List Char}
    (split : whole.toList = front.toList ++ rest) :
    (Block.ofTokens (tokenize front)).flatMap (ofText whole).ofBlock =
      (Block.ofTokens (tokenize front)).flatMap (ofText front).ofBlock := by
  have same : (tokenize front).map (Token.shift 0) = tokenize front := by
    rw [List.map_congr_left fun t _ => Token.shift_zero t, List.map_id']
  have parts : whole.toList = [] ++ (front.toList ++ rest) := split
  have moved := flatMap_ofBlock_shift parts
  rw [Text.byteLength, ← Block.ofTokens_map (Token.text_shift 0), same] at moved
  rw [moved]
  refine (List.map_congr_left fun d member => ?_).trans (List.map_id' _)
  obtain ⟨b, block, reported⟩ := List.mem_flatMap.mp member
  exact Diagnostic.shift_zero split block reported

end Taxonomy
