import Taxonomy.Proofs.Schema.Redeclaration

/-!
# Slices in range

A slice of a text needs a range whose ends are in order and lie between characters, and the start of
a line is looked up in a table that has to list it. `parse?` reads a schema and gives nothing where
one of these is missing. It never comes to that (`parse_in_range`): whatever is covered or quoted
goes from the first of some tokens to the last one consumed, and these are parts of the text.
-/

namespace Taxonomy

/-! ## Checked slices -/

namespace Text

/-- The range holds some bytes of the text and has its ends between characters. -/
structure IsPart (cs : List Char) (s : Span) : Prop where
  nonempty : s.start < s.stop
  inside : s.stop ≤ byteLength cs
  start : IsBoundary cs s.start
  stop : IsBoundary cs s.stop

/-- The characters in a range, if it can be cut out. A boundary is no further on than the text's
end. -/
def slice? (cs : List Char) (s : Span) : Option (List Char) :=
  if s.start ≤ s.stop ∧ IsBoundary cs s.start ∧ IsBoundary cs s.stop then some (slice cs s)
  else none

variable {cs : List Char} {s : Span}

theorem slice?_eq (ordered : s.start ≤ s.stop) (start : IsBoundary cs s.start)
    (stop : IsBoundary cs s.stop) : slice? cs s = some (slice cs s) :=
  if_pos ⟨ordered, start, stop⟩

theorem IsPart.slice?_eq (part : IsPart cs s) : slice? cs s = some (slice cs s) :=
  Text.slice?_eq (Nat.le_of_lt part.nonempty) part.start part.stop

theorem Stands.isPart {part : List Char} (stands : Stands part s cs) (nonempty : s.start < s.stop) :
    IsPart cs s := by
  have inside := stands.stop_le
  obtain ⟨before, after, rfl, rfl⟩ := stands
  refine ⟨nonempty, inside, ⟨before, part ++ after, rfl, rfl⟩, before ++ part,
    after, ?_, ?_⟩
  · rw [List.append_assoc]
  · rw [byteLength_append]

end Text

namespace LineTable

/-- The position of an offset, if its line is listed and the text from the line's start to the
offset can be cut out. -/
def position? (table : LineTable) (cs : List Char) (offset : Nat) : Option Position :=
  -- `line - 1` would be out of range for line 0
  if table.line offset = 0 then none
  else do
    let start ← table.starts[table.line offset - 1]?
    let before ← Text.slice? cs ⟨start, offset⟩
    return ⟨table.line offset, before.length + 1⟩

/-- The line of the offset is listed, and starts at the offset or before it. -/
structure Finds (table : LineTable) (cs : List Char) (offset : Nat) : Prop where
  counted : 1 ≤ table.line offset
  listed : ∃ start, table.starts[table.line offset - 1]? = some start ∧ start ≤ offset ∧
    Text.IsBoundary cs start

variable {cs : List Char} {offset : Nat}

theorem finds_of_isBoundary (boundary : Text.IsBoundary cs offset) :
    (ofText cs).Finds cs offset := by
  obtain ⟨before, after, rfl, rfl⟩ := boundary
  obtain ⟨front, split, listed⟩ := exists_start before after
  have line := line_append before after
  refine ⟨by omega, Text.byteLength front, ?_, ?_, front,
    before.rtakeWhile (· != '\n') ++ after, ?_, rfl⟩
  · rw [line, Nat.add_sub_cancel, listed]
  · rw [split, Text.byteLength_append]
    omega
  · rw [← List.append_assoc, ← split]

/-- With the checks, the position of a boundary is the same. -/
theorem position?_eq (boundary : Text.IsBoundary cs offset) :
    (ofText cs).position? cs offset = some ((ofText cs).position cs offset) := by
  obtain ⟨counted, start, listed, before, front⟩ := finds_of_isBoundary boundary
  have slice := Text.slice?_eq (s := ⟨start, offset⟩) before front boundary
  rw [position?, if_neg (by omega), listed, Option.bind_eq_bind, Option.bind_some, slice, position,
    Array.getD_eq_getD_getElem?, listed]
  rfl

end LineTable

/-! ## Checked parsing -/

namespace Source

def position? (s : Source) (offset : Nat) : Option Position :=
  s.lines.position? s.chars offset

def excerpt? (s : Source) (span : Span) : Option String := do
  let cs ← Text.slice? s.chars span
  return String.ofList (Text.clip excerptLimit (Text.collapse cs))

def diagnose? (s : Source) (code : DiagnosticCode) (span : Span) (message : String) :
    Option Diagnostic := do
  let position ← s.position? span.start
  return { code, message, span, position }

def junk? (s : Source) (className : String) (span : Span) : Option Diagnostic := do
  let quoted ← s.excerpt? span
  s.diagnose? .malformedProperty span
    s!"ignored `{quoted}` in class `{className}`: properties are written `*name Range;`"

def stray? (s : Source) (span : Span) : Option Diagnostic := do
  let quoted ← s.excerpt? span
  s.diagnose? .strayText span s!"ignored text outside any declaration: `{quoted}`"

def redeclared? (s : Source) (earlier later : ClassDeclaration) : Option Diagnostic := do
  let replaced ← s.position? earlier.span.start
  s.diagnose? .duplicateClass later.span
    (s!"class `{later.name}` redeclared; replaces the declaration on line " ++
      toString replaced.line)

def ofEntries? (s : Source) (className : String) : List Entry → Option (List Diagnostic)
  | [] => some []
  | .property .. :: es => s.ofEntries? className es
  | .junk first rest :: es => do
    let d ← s.junk? className (Token.coverAll first rest)
    let ds ← s.ofEntries? className es
    return d :: ds

end Source

/-- `Outcome.add`, if all that is cut out for the block can be. -/
def Outcome.add? (s : Source) (o : Outcome) : Block → Option Outcome
  | .declared d => do
    let inserted := o.classes.insert d.toClass
    let items ← s.ofEntries? d.header.name.text d.entries
    let replaced ← inserted.1.toList.mapM (s.redeclared? · d.toClass)
    return { classes := inserted.2, report := (o.report.append items).append replaced }
  | .abandoned keyword rest entries cause => do
    let items ← s.ofEntries? cause.className entries
    let whole ← s.diagnose? cause.code (Token.coverAll keyword rest) cause.message
    return { o with report := (o.report.append items).push whole }
  | .stray first rest => do
    let whole ← s.stray? (Token.coverAll first rest)
    return { o with report := o.report.push whole }

/-- `parse`, if all that is cut out of the text can be. -/
def parse? (text : String) : Option Outcome :=
  (Block.ofTokens (tokenize text)).foldlM (Outcome.add? (Source.ofText text)) {}

namespace Source

variable {text : String} {span : Span}

theorem position?_eq (part : Text.IsPart text.toList span) :
    (ofText text).position? span.start = some ((ofText text).position span.start) :=
  LineTable.position?_eq part.start

theorem diagnose?_eq (part : Text.IsPart text.toList span) (code : DiagnosticCode)
    (message : String) :
    (ofText text).diagnose? code span message =
      some ((ofText text).diagnose code span message) := by
  rw [diagnose?, position?_eq part]
  rfl

theorem excerpt?_eq (part : Text.IsPart text.toList span) :
    (ofText text).excerpt? span = some ((ofText text).excerpt span) := by
  rw [excerpt?, ofText, part.slice?_eq]
  rfl

theorem junk?_eq (part : Text.IsPart text.toList span) (className : String) :
    (ofText text).junk? className span = some ((ofText text).junk className span) := by
  rw [junk?, excerpt?_eq part, Option.bind_eq_bind, Option.bind_some, diagnose?_eq part, junk]

theorem stray?_eq (part : Text.IsPart text.toList span) :
    (ofText text).stray? span = some ((ofText text).stray span) := by
  rw [stray?, excerpt?_eq part, Option.bind_eq_bind, Option.bind_some, diagnose?_eq part, stray]

theorem redeclared?_eq {earlier later : ClassDeclaration}
    (first : Text.IsPart text.toList earlier.span) (second : Text.IsPart text.toList later.span) :
    (ofText text).redeclared? earlier later = some ((ofText text).redeclared earlier later) := by
  rw [redeclared?, position?_eq first, Option.bind_eq_bind, Option.bind_some, diagnose?_eq second,
    redeclared]

theorem ofEntries?_eq {es : List Entry}
    (parts : ∀ first rest, .junk first rest ∈ es →
      Text.IsPart text.toList (Token.coverAll first rest))
    (className : String) :
    (ofText text).ofEntries? className es = some ((ofText text).ofEntries className es) := by
  induction es with
  | nil => rfl
  | cons e es ih =>
    have later := ih fun first rest member => parts first rest (List.mem_cons_of_mem _ member)
    cases e with
    | property => exact later
    | junk first rest =>
      have part := parts first rest List.mem_cons_self
      rw [ofEntries?, junk?_eq part, later]
      rfl

end Source

/-! ## Parts of the text -/

/-- From the first of some tokens in a row to the last one there is a part of the text. -/
theorem isPart_of_run {text : String} {first : Token} {rest : List Token}
    (run : first :: rest <:+: tokenize text) :
    Text.IsPart text.toList (Token.coverAll first rest) := by
  obtain ⟨excerpt, stands, -⟩ := exists_stands run
  have order := (inOrder_tokenize text).sublist run.sublist
  exact stands.isPart (Block.span_nonempty (b := .stray first rest) order)

namespace Block

variable {text : String} {b : Block}

theorem isPart_span (block : b ∈ ofTokens (tokenize text)) : Text.IsPart text.toList b.span := by
  obtain ⟨first, rest, run, span⟩ := exists_run block
  rw [span]
  exact isPart_of_run run

theorem isPart_of_mem_entries (block : b ∈ ofTokens (tokenize text)) {first : Token}
    {rest : List Token} (member : .junk first rest ∈ b.entries) :
    Text.IsPart text.toList (Token.coverAll first rest) :=
  isPart_of_run ((infix_of_mem_entries block member).trans (infix_of_mem_ofTokens block))

end Block

namespace Outcome

variable {text : String} {o : Outcome}

/-- The classes were declared in the text. -/
def Located (text : String) (o : Outcome) : Prop :=
  ∀ c ∈ o.classes.entries, Text.IsPart text.toList c.span

/-- A block leaves the classes located. -/
theorem located_add (located : o.Located text) {b : Block}
    (block : b ∈ Block.ofTokens (tokenize text)) :
    (add (Source.ofText text) o b).Located text := by
  cases b with
  | declared d =>
    intro c member
    rcases ClassMap.mem_put member with rfl | earlier
    · exact Block.isPart_span block
    · exact located c earlier
  | abandoned => exact located
  | stray => exact located

/-- What is reported about a block is in range, and so is the declaration that it replaces. -/
theorem add?_eq (located : o.Located text) {b : Block}
    (block : b ∈ Block.ofTokens (tokenize text)) :
    add? (Source.ofText text) o b = some (add (Source.ofText text) o b) := by
  have span := Block.isPart_span block
  have items := Source.ofEntries?_eq fun _ _ => Block.isPart_of_mem_entries block
  cases b with
  | declared d =>
    rw [Block.entries] at items
    rw [add?, items, Option.bind_eq_bind, Option.bind_some, add]
    cases replaced : (o.classes.insert d.toClass).1 with
    | none => rfl
    | some earlier =>
      rw [ClassMap.insert_fst] at replaced
      have first := located earlier (ClassMap.get?_eq_some_iff.mp replaced).1
      have second : Text.IsPart text.toList d.toClass.span := span
      simp [Source.redeclared?_eq first second]
  | abandoned keyword rest entries cause =>
    have whole := Source.diagnose?_eq span cause.code cause.message
    rw [Block.span] at whole
    rw [Block.entries] at items
    rw [add?, items, Option.bind_eq_bind, Option.bind_some, whole]
    rfl
  | stray first rest =>
    have whole := Source.stray?_eq span
    rw [Block.span] at whole
    rw [add?, whole]
    rfl

theorem foldlM_add?_eq {bs : List Block} (located : o.Located text)
    (part : bs ⊆ Block.ofTokens (tokenize text)) :
    bs.foldlM (add? (Source.ofText text)) o = some (bs.foldl (add (Source.ofText text)) o) := by
  induction bs generalizing o with
  | nil => rfl
  | cons b bs ih =>
    obtain ⟨block, rest⟩ := List.cons_subset.mp part
    rw [List.foldlM_cons, add?_eq located block, Option.bind_eq_bind, Option.bind_some,
      ih (located_add located block) rest, List.foldl_cons]

end Outcome

/-- With the checks, parsing gives the same. -/
theorem parse?_eq (text : String) : parse? text = some (parse text) := by
  refine Outcome.foldlM_add?_eq ?_ (List.Subset.refl _)
  intro c member
  cases member

/-! ## What is covered -/

/-- The span of the token before the cursor, an empty one if there is none. -/
def Token.previousSpan (ts : List Token) : Nat → Span
  | 0 => {}
  | n + 1 => (ts[n]?.map (·.span)).getD {}

/-- The span goes from the token at an index to the one before the cursor. The cursor has moved past
the first of them, and all three spans are parts of the text, so none is empty. -/
structure Covers (text : String) (index cursor : Nat) (s : Span) : Prop where
  moved : index < cursor
  inside : cursor ≤ (tokenize text).length
  first : ∃ t, (tokenize text)[index]? = some t ∧ Text.IsPart text.toList t.span ∧
    s = t.span.cover (Token.previousSpan (tokenize text) cursor)
  previous : Text.IsPart text.toList (Token.previousSpan (tokenize text) cursor)
  part : Text.IsPart text.toList s

section

variable {text : String}

theorem isPart_of_mem_tokenize {t : Token} (member : t ∈ tokenize text) :
    Text.IsPart text.toList t.span := by
  have run := (List.singleton_infix_iff t (tokenize text)).mpr member
  have part := isPart_of_run run
  rwa [Token.coverAll, List.getLast?_nil, Option.getD_none, Span.cover_self] at part

theorem Token.previousSpan_append (us vs rest : List Token) (first : Token) :
    previousSpan (us ++ (first :: rest ++ vs)) (us.length + (first :: rest).length) =
      (rest.getLast?.getD first).span := by
  have last : (first :: rest)[rest.length]? = some (rest.getLast?.getD first) := by
    rw [← List.getLast?_cons, List.getLast?_eq_getElem?]
    rfl
  have here : (us ++ (first :: rest ++ vs))[us.length + rest.length]? =
      some (rest.getLast?.getD first) := by
    rw [List.getElem?_append_right (Nat.le_add_right _ _), Nat.add_sub_cancel_left,
      List.getElem?_append_left (by simp), last]
  rw [List.length_cons, ← Nat.add_assoc, previousSpan, here]
  rfl

/-- Tokens in a row are covered when the cursor is behind the last of them. -/
theorem covers_of_split {us vs rest : List Token} {first : Token}
    (split : tokenize text = us ++ (first :: rest ++ vs)) :
    Covers text us.length (us.length + (first :: rest).length) (Token.coverAll first rest) := by
  have run : first :: rest <:+: tokenize text := ⟨us, vs, by rw [split, List.append_assoc]⟩
  have last : rest.getLast?.getD first ∈ first :: rest := List.mem_of_getLast? List.getLast?_cons
  have previous := Token.previousSpan_append us vs rest first
  rw [← split] at previous
  refine ⟨by simp, ?_, ⟨first, ?_, ?_, ?_⟩, ?_, isPart_of_run run⟩
  · rw [split, List.length_append, List.length_append]
    omega
  · rw [split, List.getElem?_append_right (Nat.le_refl _)]
    simp
  · exact isPart_of_mem_tokenize (run.subset List.mem_cons_self)
  · rw [previous, Token.coverAll]
  · rw [previous]
    exact isPart_of_mem_tokenize (run.subset last)

namespace Block

variable {before after : List Block} {b : Block}

theorem mem_of_split (blocks : ofTokens (tokenize text) = before ++ b :: after) :
    b ∈ ofTokens (tokenize text) := by
  rw [blocks]
  exact List.mem_append_right _ List.mem_cons_self

theorem tokenize_of_split (blocks : ofTokens (tokenize text) = before ++ b :: after) :
    tokenize text = before.flatMap tokens ++ (b.tokens ++ after.flatMap tokens) := by
  rw [← List.flatMap_cons, ← List.flatMap_append, ← blocks, ofTokens_append]

/-- The span of a block covers its tokens. -/
theorem covers_span (blocks : ofTokens (tokenize text) = before ++ b :: after) :
    Covers text (before.flatMap tokens).length ((before ++ [b]).flatMap tokens).length b.span := by
  obtain ⟨first, rest, own, span⟩ := span_eq_coverAll (inOrder_of_mem (mem_of_split blocks))
  have split := tokenize_of_split blocks
  rw [own] at split
  rw [span, List.flatMap_append, List.flatMap_singleton, own, List.length_append]
  exact covers_of_split split

/-- The span of an item that is no property covers its tokens, which come after the block's
keyword. -/
theorem exists_covers_item (blocks : ofTokens (tokenize text) = before ++ b :: after)
    {first : Token} {rest : List Token} (item : .junk first rest ∈ b.entries) :
    ∃ index, (before.flatMap tokens).length < index ∧
      index + (first :: rest).length ≤ ((before ++ [b]).flatMap tokens).length ∧
      Covers text index (index + (first :: rest).length) (Token.coverAll first rest) := by
  obtain ⟨us, vs, items⟩ : first :: rest <:+: b.tokens.tail :=
    (infix_flatMap Entry.tokens item).trans (infix_entries (mem_of_split blocks))
  obtain ⟨keyword, tail, own⟩ := List.exists_cons_of_ne_nil b.tokens_ne_nil
  rw [own, List.tail_cons] at items
  subst items
  have split : tokenize text = (before.flatMap tokens ++ keyword :: us) ++
      (first :: rest ++ (vs ++ after.flatMap tokens)) := by
    rw [tokenize_of_split blocks, own]
    simp only [List.append_assoc, List.cons_append]
  refine ⟨_, ?_, ?_, covers_of_split split⟩
  · rw [List.length_append, List.length_cons]
    omega
  · rw [List.flatMap_append, List.flatMap_singleton, own]
    simp only [List.length_append, List.length_cons]
    omega

end Block

end

/-- Parsing cuts nothing out of range: with all checks made it gives the same. Blocks, and items
that are no properties, are covered up to the last token consumed. Whatever is reported, and
whatever is declared, be it replaced later or not, is a part of the text and starts on a line that
is listed. -/
theorem parse_in_range (text : String) :
    let blocks := Block.ofTokens (tokenize text)
    let lines := LineTable.ofText text.toList
    parse? text = some (parse text) ∧
    (∀ before b after, blocks = before ++ b :: after →
      Covers text (before.flatMap Block.tokens).length ((before ++ [b]).flatMap Block.tokens).length
        b.span ∧
      ∀ first rest, .junk first rest ∈ b.entries → ∃ index,
        (before.flatMap Block.tokens).length < index ∧
        index + (first :: rest).length ≤ ((before ++ [b]).flatMap Block.tokens).length ∧
        Covers text index (index + (first :: rest).length) (Token.coverAll first rest)) ∧
    ∀ s, s ∈ (parse text).report.items.map (·.span) ∨
      s ∈ (Block.classes blocks).map (·.span) →
      Text.IsPart text.toList s ∧ lines.Finds text.toList s.start := by
  intro blocks lines
  refine ⟨parse?_eq text, ?_, ?_⟩
  · intro before b after split
    exact ⟨Block.covers_span split, fun first rest => Block.exists_covers_item split⟩
  · intro s spans
    have part : Text.IsPart text.toList s := by
      rcases spans with reported | declared
      · obtain ⟨d, member, rfl⟩ := List.mem_map.mp reported
        obtain ⟨first, rest, run, span, -⟩ := placed_of_mem_parse member
        rw [span]
        exact isPart_of_run run
      · obtain ⟨c, member, rfl⟩ := List.mem_map.mp declared
        obtain ⟨d, block, rfl⟩ := Outcome.exists_declared member
        exact Block.isPart_span block
    exact ⟨part, LineTable.finds_of_isBoundary part.start⟩

/-- Characters of two, three and four bytes, a class declared three times, of which the second time
with an item that is no property, a block that is never closed, and text outside. -/
theorem parse_in_range_of_mixed_text :
    let text := "é€ \u2028\nclass A .\nclass A \x7b 😀 é; \x7d .\nclass A .\nclass B \x7b *é"
    let lines := LineTable.ofText text.toList
    parse? text = some (parse text) ∧
    Covers text 4 12 ⟨20, 42⟩ ∧
    (∃ index, 4 < index ∧ index + 3 ≤ 12 ∧ Covers text index (index + 3) ⟨30, 38⟩) ∧
    (parse text).report.items.map (·.span) =
      [⟨0, 5⟩, ⟨30, 38⟩, ⟨20, 42⟩, ⟨43, 52⟩, ⟨63, 66⟩, ⟨53, 66⟩] ∧
    ∀ s ∈ [(⟨0, 5⟩ : Span), ⟨10, 19⟩, ⟨53, 66⟩],
      Text.IsPart text.toList s ∧ lines.Finds text.toList s.start := by
  intro text lines
  obtain ⟨checked, covered, located⟩ := parse_in_range text
  let blocks := Block.ofTokens (tokenize text)
  let second := blocks.getD 2 (.stray default [])
  let first := (tokenize text).getD 7 default
  let rest := ((tokenize text).drop 8).take 2
  have split : blocks = blocks.take 2 ++ second :: blocks.drop 3 := by decide +kernel
  have reported : (parse text).report.items.map (·.span) =
      [⟨0, 5⟩, ⟨30, 38⟩, ⟨20, 42⟩, ⟨43, 52⟩, ⟨63, 66⟩, ⟨53, 66⟩] := by
    decide +kernel
  have declared : (⟨10, 19⟩ : Span) ∈ (Block.classes blocks).map (·.span) := by
    decide +kernel
  have item : .junk first rest ∈ second.entries := by decide +kernel
  have start : ((blocks.take 2).flatMap Block.tokens).length = 4 := by decide +kernel
  have stop : ((blocks.take 2 ++ [second]).flatMap Block.tokens).length = 12 := by decide +kernel
  have block : second.span = ⟨20, 42⟩ := by decide +kernel
  have run : (first :: rest).length = 3 ∧ Token.coverAll first rest = ⟨30, 38⟩ := by
    decide +kernel
  obtain ⟨whole, items⟩ := covered _ _ _ split
  have part := items first rest item
  rw [start, stop, block] at whole
  rw [start, stop, run.1, run.2] at part
  refine ⟨checked, whole, part, reported, ?_⟩
  · intro s member
    refine located s ?_
    rw [reported]
    simp only [List.mem_cons, List.not_mem_nil, or_false] at member
    rcases member with rfl | rfl | rfl
    · exact .inl (by decide)
    · exact .inr declared
    · exact .inl (by decide)

end Taxonomy
