import Taxonomy.Proofs.Generate
import Taxonomy.Proofs.Schema.Alone
import Taxonomy.Proofs.Schema.Items

/-!
# The order of a report

A malformed property is reported when it was passed over, and the declaration around it when that
was given up or took the place of another one. So of two diagnostics the first one stands before the
second one, or inside the declaration that the second one is about (`Block.InsideOut`). One more
block keeps this (`Nested.add`), since all that is reported about it lies inside it and after what
was reported before. The positions of diagnostics are in order but for these pairs, of which the
second one comes first (`positions_of_report`).
-/

namespace Taxonomy

/-! ## What lies inside what -/

namespace Block

/-- One diagnostic is about an item of the block that is no property, and the other one about the
declaration that the block is, or was until it was given up. -/
structure Encloses (b : Block) (inner outer : Diagnostic) : Prop where
  property : inner.code = .malformedProperty
  item : ∃ first rest, .junk first rest ∈ b.entries ∧ inner.span = Token.coverAll first rest
  declaration : outer.code ∈ [.malformedDeclaration, .unterminatedBlock, .duplicateClass]
  span : outer.span = b.span

/-- How a diagnostic stands to a later one: it ends first, and is before it or inside it. -/
def InsideOut (bs : List Block) (d e : Diagnostic) : Prop :=
  d.span.stop ≤ e.span.stop ∧
    (d.span.stop ≤ e.span.start ∨ d.span.Within e.span ∧ ∃ b ∈ bs, b.Encloses d e)

theorem InsideOut.of_before {bs : List Block} {d e : Diagnostic}
    (nonempty : e.span.start < e.span.stop) (before : d.span.stop ≤ e.span.start) :
    InsideOut bs d e :=
  ⟨by omega, .inl before⟩

end Block

/-! ## What one block adds -/

namespace Outcome

/-- What is reported about a block is about its items, and then at most one more diagnostic is about
the block as a whole. -/
theorem exists_whole (s : Source) (m : ClassMap) (b : Block) :
    ∃ name, ∃ whole : Option Diagnostic,
      s.ofBlock b ++ s.redeclarations m b = s.ofEntries name b.entries ++ whole.toList ∧
      ∀ e ∈ whole, e.span = b.span ∧ (b.entries ≠ [] →
        e.code ∈ [.malformedDeclaration, .unterminatedBlock, .duplicateClass]) := by
  cases b with
  | declared d =>
    refine ⟨d.header.name.text, (m.insert d.toClass).1.map (s.redeclared · d.toClass), ?_, ?_⟩
    · rw [Option.toList_map]
      rfl
    · intro e member
      obtain ⟨earlier, -, rfl⟩ := Option.map_eq_some_iff.mp member
      exact ⟨rfl, fun _ => by simp [Source.redeclared, Source.diagnose]⟩
  | abandoned keyword rest entries cause =>
    refine ⟨cause.className, some (s.diagnose cause.code _ cause.message),
      List.append_nil _, ?_⟩
    rintro e ⟨⟩
    refine ⟨rfl, fun _ => ?_⟩
    cases cause <;> simp [Source.diagnose, Refusal.code]
  | stray first rest =>
    refine ⟨"", some (s.stray _), rfl, ?_⟩
    rintro e ⟨⟩
    exact ⟨rfl, fun some => absurd rfl some⟩

variable {text : String} {o : Outcome} {b : Block} {limit : Nat}

theorem within_of_reported (block : b ∈ Block.ofTokens (tokenize text)) {m : ClassMap}
    {d : Diagnostic}
    (member : d ∈ (Source.ofText text).ofBlock b ++ (Source.ofText text).redeclarations m b) :
    d.span.Within b.span ∧ d.span.start < d.span.stop := by
  rcases List.mem_append.mp member with own | replaced
  · exact within_of_mem_ofBlock block own
  · obtain ⟨e, earlier, rfl, rfl⟩ := exists_redeclared replaced
    have nonempty := Block.span_nonempty (Block.inOrder_of_mem block)
    exact ⟨⟨Nat.le_refl _, Nat.le_refl _⟩, nonempty⟩

/-- The items of a block are reported one after another, and then what is around them. -/
theorem insideOut_reported (block : b ∈ Block.ofTokens (tokenize text)) (m : ClassMap) :
    ((Source.ofText text).ofBlock b ++ (Source.ofText text).redeclarations m b).Pairwise
      (Block.InsideOut (Block.ofTokens (tokenize text))) := by
  have inside := fun d => within_of_reported (d := d) (m := m) block
  obtain ⟨name, whole, same, about⟩ := exists_whole (Source.ofText text) m b
  rw [same] at inside ⊢
  have order : Token.InOrder (b.entries.flatMap Entry.tokens) :=
    (Block.inOrder_of_mem block).sublist
      ((Block.infix_entries block).sublist.trans (List.tail_sublist _))
  refine List.pairwise_append.mpr ⟨?_, ?_, ?_⟩
  · refine (Source.apart_ofEntries _ name order).imp_of_mem ?_
    intro d e _ second before
    exact .of_before (inside e (List.mem_append_left _ second)).2 before
  · cases whole with
    | none => exact .nil
    | some e => exact List.pairwise_singleton _ e
  · intro d member e last
    obtain ⟨span, code⟩ := about e (Option.mem_toList.mp last)
    obtain ⟨property, first, rest, entry, place⟩ := exists_junk_of_mem_ofEntries member
    have within := (inside d (List.mem_append_left _ member)).1
    rw [← span] at within
    refine ⟨within.2,
      .inr ⟨within, b, block, property, ⟨first, rest, entry, place⟩, ?_, span⟩⟩
    exact code (List.ne_nil_of_mem entry)

/-- All that is reported so far is in order and ends before some place. -/
structure Nested (bs : List Block) (limit : Nat) (o : Outcome) : Prop where
  ordered : o.report.items.Pairwise (Block.InsideOut bs)
  before : ∀ d ∈ o.report.items, d.span.stop ≤ limit

/-- A block that starts later adds what is in order with all before, and ends with the block. -/
theorem Nested.add (nested : o.Nested (Block.ofTokens (tokenize text)) limit)
    (block : b ∈ Block.ofTokens (tokenize text)) (later : limit ≤ b.span.start) :
    (Outcome.add (Source.ofText text) o b).Nested (Block.ofTokens (tokenize text)) b.span.stop := by
  have inside := fun d => within_of_reported (d := d) (m := o.classes) block
  constructor
  · rw [items_add]
    refine List.pairwise_append.mpr ⟨nested.ordered, insideOut_reported block o.classes, ?_⟩
    intro d first e second
    obtain ⟨within, nonempty⟩ := inside e second
    have := nested.before d first
    have := within.1
    exact .of_before nonempty (by omega)
  · intro d member
    rw [items_add] at member
    rcases List.mem_append.mp member with first | second
    · have := nested.before d first
      have := Block.span_nonempty (Block.inOrder_of_mem block)
      omega
    · exact (inside d second).1.2

/-- So does a run of blocks. -/
theorem Nested.foldl {bs : List Block} (nested : o.Nested (Block.ofTokens (tokenize text)) limit)
    (part : bs ⊆ Block.ofTokens (tokenize text))
    (apart : bs.Pairwise fun a b => a.span.stop ≤ b.span.start)
    (later : ∀ b ∈ bs, limit ≤ b.span.start) :
    ∃ limit, (bs.foldl (Outcome.add (Source.ofText text)) o).Nested
      (Block.ofTokens (tokenize text)) limit := by
  induction bs generalizing o limit with
  | nil => exact ⟨limit, nested⟩
  | cons b bs ih =>
    obtain ⟨block, rest⟩ := List.cons_subset.mp part
    obtain ⟨next, apart⟩ := List.pairwise_cons.mp apart
    exact ih (nested.add block (later b List.mem_cons_self)) rest apart next

end Outcome

theorem insideOut_parse (text : String) :
    (parse text).report.items.Pairwise (Block.InsideOut (Block.ofTokens (tokenize text))) := by
  have start : Outcome.Nested (Block.ofTokens (tokenize text)) 0 {} := ⟨.nil, by simp⟩
  obtain ⟨limit, nested⟩ := start.foldl (List.Subset.refl _) (Block.pairwise_ofTokens text)
    fun b _ => Nat.zero_le _
  exact nested.ordered

/-- Of two diagnostics on a text, the first one ends first, and stands before the second one, unless
it is about a malformed property in the declaration that the second one is about. Two that are both
about malformed properties do not overlap. -/
theorem report_is_nested (text : String) :
    let blocks := Block.ofTokens (tokenize text)
    let report := (parse text).report.items
    (report.Pairwise fun d e => d.span.stop ≤ e.span.stop ∧
      (d.span.stop ≤ e.span.start ∨
        d.span.Within e.span ∧ ∃ b ∈ blocks, b.Encloses d e)) ∧
    (report.filter (·.code = .malformedProperty)).Pairwise fun d e =>
      d.span.stop ≤ e.span.start := by
  intro blocks report
  refine ⟨insideOut_parse text, ?_⟩
  refine ((insideOut_parse text).filter _).imp_of_mem ?_
  intro d e _ second nested
  have property : e.code = .malformedProperty := of_decide_eq_true (List.mem_filter.mp second).2
  rcases nested.2 with before | ⟨-, b, -, encloses⟩
  · exact before
  · have code := encloses.declaration
    rw [property] at code
    simp at code

/-! ## Where the diagnostics point -/

namespace Block

/-- A malformed property starts after the keyword of the declaration around it. -/
theorem Encloses.start_lt {text : String} {b : Block} (block : b ∈ ofTokens (tokenize text))
    {inner outer : Diagnostic} (encloses : b.Encloses inner outer) :
    outer.span.start < inner.span.start := by
  obtain ⟨first, rest, entry, place⟩ := encloses.item
  have order := inOrder_of_mem block
  have run : first :: rest <:+: b.tokens.tail :=
    (infix_flatMap Entry.tokens entry).trans (infix_entries block)
  obtain ⟨keyword, after, tokens⟩ := List.exists_cons_of_ne_nil b.tokens_ne_nil
  have span := span_eq order
  simp only [tokens, List.head_cons, List.tail_cons] at order run span
  have own := (order.sublist (List.sublist_cons_self keyword after)).sublist run.sublist
  have apart := (List.pairwise_cons.mp order.apart).1 first (run.subset List.mem_cons_self)
  have nonempty := order.nonempty keyword List.mem_cons_self
  rw [encloses.span, place, own.coverAll_eq, span]
  simp only
  omega

/-- How the position of a diagnostic stands to that of a later one: it is the earlier of the two,
unless the later diagnostic is about a declaration around what the earlier one is about. -/
def InSequence (bs : List Block) (d e : Diagnostic) : Prop :=
  ((¬ ∃ b ∈ bs, b.Encloses d e) → d.position.Before e.position) ∧
    ((∃ b ∈ bs, b.Encloses d e) → e.position.Before d.position)

theorem InsideOut.inSequence {text : String} {d e : Diagnostic}
    (nested : InsideOut (ofTokens (tokenize text)) d e) (first : d.Placed text)
    (second : e.Placed text) : InSequence (ofTokens (tokenize text)) d e := by
  constructor
  · intro apart
    have before := nested.2.resolve_right fun inside => apart inside.2
    have nonempty := first.nonempty
    exact first.before second (by omega)
  · intro ⟨b, block, encloses⟩
    exact second.before first (encloses.start_lt block)

end Block

/-- The diagnostics on a text stand in the order of their lines and columns, but that those on the
malformed properties of a declaration are followed by the one on the declaration, which points at
its keyword. -/
theorem positions_of_report (text : String) :
    let blocks := Block.ofTokens (tokenize text)
    (parse text).report.items.Pairwise (Block.InSequence blocks) ∧
    ∀ components options a, generateWith components text options = .ok a →
      a.report.items.Pairwise (Block.InSequence blocks) := by
  intro blocks
  have parsed : (parse text).report.items.Pairwise (Block.InSequence blocks) := by
    refine (insideOut_parse text).imp_of_mem ?_
    intro d e first second nested
    exact nested.inSequence (placed_of_mem_parse first) (placed_of_mem_parse second)
  refine ⟨parsed, ?_⟩
  intro components options a generated
  rw [(parts_of_generateWith generated).2.2]
  exact parsed

/-- Text outside, a block that is never closed and a declaration that replaces one, both with an
item that is no property. -/
theorem positions_of_five_diagnostics :
    let text := "x\nclass A \x7b no;\nclass A .\nclass A \x7b bad; \x7d ."
    let blocks := Block.ofTokens (tokenize text)
    ∃ a, generateWith Graph.components text {} = .ok a ∧
      a.report.items.map (·.position) =
        [⟨1, 1⟩, ⟨2, 11⟩, ⟨2, 1⟩, ⟨4, 11⟩, ⟨4, 1⟩] ∧
      (parse text).report.items.Pairwise (Block.InSequence blocks) ∧
      a.report.items.Pairwise (Block.InSequence blocks) := by
  intro text blocks
  have finished : (generateWith Graph.components text {}).isOk = true := by decide +kernel
  have positions : (parse text).report.items.map (·.position) =
      [⟨1, 1⟩, ⟨2, 11⟩, ⟨2, 1⟩, ⟨4, 11⟩, ⟨4, 1⟩] := by decide +kernel
  obtain ⟨parsed, made⟩ := positions_of_report text
  cases generated : generateWith Graph.components text {} with
  | error e =>
    rw [generated] at finished
    cases finished
  | ok a =>
    refine ⟨a, rfl, ?_, parsed, made Graph.components {} a generated⟩
    rw [(parts_of_generateWith generated).2.2]
    exact positions

/-- A block that is never closed is reported after the property that breaks off in it, at a place
before it. -/
theorem positions_of_block_left_open :
    let text := "class A extends T \x7b *a\nclass B extends T ."
    let report := (parse text).report.items
    report.map (fun d => (d.code, d.position)) =
        [(.malformedProperty, ⟨1, 21⟩), (.unterminatedBlock, ⟨1, 1⟩)] ∧
      ¬ (report.map (·.position)).Pairwise (fun p q => p.Before q ∨ p = q) ∧
      ∃ a, generate text {} = .ok a ∧
        ¬ (a.report.items.map (·.position)).Pairwise (fun p q => p.Before q ∨ p = q) := by
  intro text report
  have listed : report.map (fun d => (d.code, d.position)) =
      [(.malformedProperty, ⟨1, 21⟩), (.unterminatedBlock, ⟨1, 1⟩)] := by decide +kernel
  have unsorted : ¬ (report.map (·.position)).Pairwise (fun p q => p.Before q ∨ p = q) := by
    decide +kernel
  have finished : (generate text {}).isOk = true := by decide +kernel
  refine ⟨listed, unsorted, ?_⟩
  cases generated : generate text {} with
  | error e =>
    rw [generated] at finished
    cases finished
  | ok a =>
    refine ⟨a, rfl, ?_⟩
    rw [(parts_of_generateWith generated).2.2]
    exact unsorted

end Taxonomy
