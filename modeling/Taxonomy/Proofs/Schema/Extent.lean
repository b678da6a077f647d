import Taxonomy.Proofs.Token.Order
import Taxonomy.Schema.Reader

/-!
# The extent of blocks

The tokens of a text lie in order, and a block's tokens are a stretch of them. So a block's span
goes from the start of its first token to the end of its last, and blocks follow one another as
their tokens do. An item of a property block is a stretch of its block's tokens.
-/

namespace Taxonomy

namespace Declaration

/-- The span of a declaration goes from its keyword to its dot. -/
theorem span_eq {d : Declaration} (order : Token.InOrder d.tokens) :
    d.span = ⟨d.header.keyword.span.start, d.dot.span.stop⟩ := by
  have last : d.dot ∈ d.tokens.tail := by simp [tokens, Header.tokens]
  have apart := (List.pairwise_cons.mp order.apart).1 d.dot last
  have first := order.nonempty d.header.keyword List.mem_cons_self
  have nonempty := order.nonempty d.dot (List.mem_of_mem_tail last)
  simp only [span, Span.cover, Span.mk.injEq]
  omega

end Declaration

namespace Block

theorem infix_flatMap {α : Type} {a : α} {as : List α} (f : α → List Token)
    (member : a ∈ as) : f a <:+: as.flatMap f := by
  rw [List.flatMap_def]
  exact List.infix_of_mem_flatten (List.mem_map_of_mem member)

/-- The tokens of a block are a stretch of those that were cut into blocks. -/
theorem infix_of_mem_ofTokens {ts : List Token} {b : Block} (block : b ∈ ofTokens ts) :
    b.tokens <:+: ts := by
  have part := infix_flatMap tokens block
  rwa [ofTokens_append] at part

/-- The span of a block goes from its first token to its last. -/
theorem span_eq {b : Block} (order : Token.InOrder b.tokens) :
    b.span = ⟨(b.tokens.head b.tokens_ne_nil).span.start,
      (b.tokens.getLast b.tokens_ne_nil).span.stop⟩ := by
  cases b with
  | declared d =>
    have last : d.tokens.getLast (declared d).tokens_ne_nil = d.dot := List.getLast_concat
    rw [span, Declaration.span_eq order]
    simp only [tokens, last]
    rfl
  | abandoned keyword rest entries cause => exact order.coverAll_eq
  | stray first rest => exact order.coverAll_eq

theorem span_eq_coverAll {b : Block} (order : Token.InOrder b.tokens) :
    ∃ first rest, b.tokens = first :: rest ∧ b.span = Token.coverAll first rest := by
  obtain ⟨first, rest, same⟩ := List.exists_cons_of_ne_nil b.tokens_ne_nil
  refine ⟨first, rest, same, ?_⟩
  have order' : Token.InOrder (first :: rest) := same ▸ order
  rw [span_eq order, order'.coverAll_eq]
  simp only [same, List.head_cons]

theorem within_span {b : Block} (order : Token.InOrder b.tokens) :
    ∀ t ∈ b.tokens, t.span.Within b.span := by
  rw [span_eq order]
  exact order.within_ends b.tokens_ne_nil

theorem span_nonempty {b : Block} (order : Token.InOrder b.tokens) :
    b.span.start < b.span.stop := by
  obtain ⟨t, member⟩ := List.exists_mem_of_ne_nil _ b.tokens_ne_nil
  have within := within_span order t member
  have nonempty := order.nonempty t member
  have := within.1
  have := within.2
  omega

/-- Blocks come one after another as their tokens do. -/
theorem pairwise_span {bs : List Block} (order : Token.InOrder (bs.flatMap tokens)) :
    bs.Pairwise fun a b => a.span.stop ≤ b.span.start := by
  induction bs with
  | nil => exact .nil
  | cons b bs ih =>
    rw [List.flatMap_cons] at order
    have later := order.sublist (List.sublist_append_right _ _)
    refine List.pairwise_cons.mpr ⟨?_, ih later⟩
    intro c member
    have own : Token.InOrder b.tokens := order.sublist (List.sublist_append_left _ _)
    have other : Token.InOrder c.tokens :=
      later.sublist (infix_flatMap tokens member).sublist
    rw [span_eq own, span_eq other]
    refine (List.pairwise_append.mp order.apart).2.2 _ (List.getLast_mem _) _ ?_
    exact List.mem_flatMap.mpr ⟨c, member, List.head_mem _⟩

/-- The tokens of each block of a text are in order. -/
theorem inOrder_of_mem {text : String} {b : Block} (block : b ∈ ofTokens (tokenize text)) :
    Token.InOrder b.tokens :=
  (inOrder_tokenize text).sublist (infix_of_mem_ofTokens block).sublist

/-- The blocks of a text come one after another. -/
theorem pairwise_ofTokens (text : String) :
    (ofTokens (tokenize text)).Pairwise fun a b => a.span.stop ≤ b.span.start := by
  apply pairwise_span
  rw [ofTokens_append]
  exact inOrder_tokenize text

/-! ## Items -/

theorem entries_ofDropped (keyword : Token) (d : Dropped) :
    (ofDropped keyword d).1.entries = d.entries := by
  unfold ofDropped
  split <;> rfl

theorem infix_ofDropped (keyword : Token) (d : Dropped) :
    d.read <:+: (ofDropped keyword d).1.tokens.tail := by
  unfold ofDropped
  split
  · exact List.infix_refl _
  · exact (List.prefix_append _ _).isInfix

theorem infix_body (body : Option Body) :
    (body.elim [] Body.entries).flatMap Entry.tokens <:+: body.elim [] Body.tokens := by
  cases body with
  | none => exact List.infix_refl _
  | some b => exact ⟨[b.opening], [b.closing], by simp [Body.tokens]⟩

theorem entries_readHeader {keyword : Token} {ts : List Token} {dropped : Dropped}
    (error : Declaration.readHeader keyword ts = .error dropped) : dropped.entries = [] := by
  unfold Declaration.readHeader at error
  split at error
  · cases error
    rfl
  · cases error
  · split at error
    · split at error
      · cases error
        rfl
      · cases error
    · cases error

theorem infix_readBody {h : Header} {ts : List Token} {dropped : Dropped}
    (error : Declaration.readBody h ts = .error dropped) :
    dropped.entries.flatMap Entry.tokens <:+: dropped.read := by
  unfold Declaration.readBody at error
  split at error
  · cases error
  · split at error
    · split at error
      · cases error
      · cases error
        exact ((List.suffix_cons _ _).trans (List.suffix_append _ _)).isInfix
    · cases error

theorem infix_readDot {h : Header} {body : Option Body} {ts : List Token} {dropped : Dropped}
    (error : Declaration.readDot h body ts = .error dropped) :
    dropped.entries.flatMap Entry.tokens <:+: dropped.read := by
  have given : dropped.read = h.tokens.tail ++ body.elim [] Body.tokens ∧
      dropped.entries = body.elim [] Body.entries := by
    unfold Declaration.readDot at error
    simp only at error
    split at error
    · cases error
      exact ⟨rfl, rfl⟩
    · split at error
      · cases error
      · cases error
        exact ⟨rfl, rfl⟩
  rw [given.1, given.2]
  exact (infix_body body).trans (List.suffix_append _ _).isInfix

/-- The items that were read before a declaration was given up are a part of what was read. -/
theorem infix_dropped {keyword : Token} {ts : List Token} {dropped : Dropped}
    (error : Declaration.read keyword ts = .error dropped) :
    dropped.entries.flatMap Entry.tokens <:+: dropped.read := by
  unfold Declaration.read at error
  split at error
  · rename_i header
    cases error
    rw [entries_readHeader header]
    exact List.nil_infix
  · split at error
    · rename_i body
      cases error
      exact infix_readBody body
    · exact infix_readDot error

theorem infix_readDeclaration (keyword : Token) (ts : List Token) :
    (readDeclaration keyword ts).1.entries.flatMap Entry.tokens <:+:
      (readDeclaration keyword ts).1.tokens.tail := by
  unfold readDeclaration
  cases read : Declaration.read keyword ts with
  | ok result =>
    refine (infix_body result.1.body).trans ?_
    exact ⟨result.1.header.tokens.tail, [result.1.dot], rfl⟩
  | error dropped =>
    simp only
    rw [entries_ofDropped]
    exact (infix_dropped read).trans (infix_ofDropped _ _)

/-- The items of a block that tokens are cut into are, one after another, a stretch of its tokens
after the first one. -/
theorem infix_entries {ts : List Token} {b : Block} (block : b ∈ ofTokens ts) :
    b.entries.flatMap Entry.tokens <:+: b.tokens.tail := by
  fun_induction ofTokens ts with
  | case1 => simp at block
  | case2 t ts _ ih =>
    rcases List.mem_cons.mp block with rfl | block
    · exact infix_readDeclaration t ts
    · exact ih block
  | case3 t ts _ ih =>
    rcases List.mem_cons.mp block with rfl | block
    · exact List.nil_infix
    · exact ih block

/-- So is each of them. -/
theorem infix_of_mem_entries {ts : List Token} {b : Block} (block : b ∈ ofTokens ts) {e : Entry}
    (member : e ∈ b.entries) : e.tokens <:+: b.tokens :=
  ((infix_flatMap Entry.tokens member).trans (infix_entries block)).trans
    (List.tail_suffix _).isInfix

end Block

end Taxonomy
