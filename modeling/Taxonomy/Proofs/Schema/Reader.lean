import Taxonomy.Schema.Grammar

/-!
# What the reader of declarations accepts

`shaped_of_read`: a declaration that is read has every token in a place for its kind. `read_phrase`:
a declaration phrase is read as itself, whatever follows it. A keyword in the place of a name is
told from one that is missing by the token after it, and in a phrase that token is always one that
can follow a name.
-/

namespace Taxonomy

namespace Token

theorem isText_of_readName {followers : List TokenKind} {ts rest : List Token} {t : Token}
    (h : readName followers ts = some (t, rest)) : t.isText := by
  unfold readName at h
  split at h
  · cases h
  · rename_i u us
    split at h
    · rename_i kind
      cases h
      simp [isText, kind, TokenKind.isText]
    · rename_i kind
      split at h
      · split at h
        · cases h
          simp [isText, kind, TokenKind.isText]
        · cases h
      · cases h
    · rename_i kind
      split at h
      · split at h
        · cases h
          simp [isText, kind, TokenKind.isText]
        · cases h
      · cases h
    · cases h

/-- A token that can be a name is one where something that can follow a name comes next. -/
theorem readName_of_follower {followers : List TokenKind} {t next : Token} {ts : List Token}
    (text : t.isText) (follows : next.kind ∈ followers) :
    readName followers (t :: next :: ts) = some (t, next :: ts) := by
  cases kind : t.kind <;> simp_all [readName, isText, TokenKind.isText]

end Token

namespace Entry

/-- The entry is a property or no property at all. -/
def Formed (e : Entry) : Prop :=
  e.IsItem ∨ e.property? = none

theorem formed_readProperty {star : Token} {ts rest : List Token} {e : Entry}
    (kind : star.kind = .star) (h : readProperty star ts = some (e, rest)) : e.Formed := by
  unfold readProperty at h
  split at h
  · split at h
    · rename_i kinds
      cases h
      simp only [Bool.and_eq_true, beq_iff_eq] at kinds
      exact .inl ⟨kind, kinds.1.1, kinds.1.2, kinds.2⟩
    · cases h
  · cases h

theorem formed_read (t : Token) (ts : List Token) : (read t ts).1.Formed := by
  unfold read
  split
  · exact .inr rfl
  · split
    · rename_i result found
      split at found
      · rename_i kind
        exact formed_readProperty kind found
      · cases found
    · exact .inr rfl

theorem formed_readAll (ts : List Token) :
    (∀ e ∈ (readAll ts).1, e.Formed) ∧ ∀ c ∈ (readAll ts).2.1, c.kind = .rightBrace := by
  fun_induction readAll ts with
  | case1 => simp
  | case2 t ts kind => simp [kind]
  | case3 => simp
  | case4 t ts _ _ ih =>
    refine ⟨?_, ih.2⟩
    intro e member
    rcases List.mem_cons.mp member with rfl | member
    · exact formed_read t ts
    · exact ih.1 e member

/-- The first token of a property is a star, so a block does not end there. -/
theorem read_item {e : Entry} (item : e.IsItem) (rest : List Token) :
    ∃ star ts, e.tokens ++ rest = star :: ts ∧ star.kind = .star ∧
      read star ts = (e, rest) := by
  cases e with
  | junk => exact item.elim
  | property star name range semicolon =>
    obtain ⟨kind, name_text, range_text, last⟩ := item
    refine ⟨star, name :: range :: semicolon :: rest, rfl, kind, ?_⟩
    simp [read, kind, readProperty, name_text, range_text, last]

/-- The items of a block and its closing brace are read as they stand. -/
theorem readAll_items {es : List Entry} {closing : Token} (items : ∀ e ∈ es, e.IsItem)
    (last : closing.kind = .rightBrace) (rest : List Token) :
    readAll (es.flatMap tokens ++ closing :: rest) = (es, some closing, rest) := by
  induction es with
  | nil => simp [readAll, last]
  | cons e es ih =>
    obtain ⟨star, ts, same, kind, first⟩ :=
      read_item (items e List.mem_cons_self) (es.flatMap tokens ++ closing :: rest)
    rw [List.flatMap_cons, List.append_assoc, same, readAll]
    simp [kind, first, ih fun e member => items e (List.mem_cons_of_mem _ member)]

end Entry

/-- The items and the closing brace of the block are read as they stand, whatever follows them. -/
def Body.ReadsAlone (b : Body) : Prop :=
  ∀ rest, Entry.readAll (b.entries.flatMap Entry.tokens ++ b.closing :: rest) =
    (b.entries, some b.closing, rest)

namespace Declaration

theorem shaped_mono {P Q : Entry → Prop} {d : Declaration} (h : d.Shaped P)
    (weaker : ∀ e ∈ d.entries, P e → Q e) : d.Shaped Q := by
  refine ⟨h.keyword, h.name, h.parent, ?_, h.dot⟩
  intro b present
  obtain ⟨opening, entries, closing⟩ := h.body b present
  refine ⟨opening, fun e member => weaker e ?_ (entries e member), closing⟩
  rw [Declaration.entries, Option.mem_def.mp present]
  exact member

theorem shaped_of_readHeader {keyword : Token} {ts rest : List Token} {h : Header}
    (ok : readHeader keyword ts = .ok (h, rest)) :
    h.keyword = keyword ∧ h.name.isText ∧
      ∀ p ∈ h.parent, p.1.kind = .extendsKeyword ∧ p.2.isText := by
  unfold readHeader at ok
  split at ok
  · cases ok
  · rename_i found
    cases ok
    exact ⟨rfl, Token.isText_of_readName found, by simp⟩
  · rename_i found
    split at ok
    · rename_i kind
      split at ok
      · cases ok
      · rename_i parent
        cases ok
        refine ⟨rfl, Token.isText_of_readName found, ?_⟩
        intro p present
        cases present
        exact ⟨kind, Token.isText_of_readName parent⟩
    · cases ok
      exact ⟨rfl, Token.isText_of_readName found, by simp⟩

theorem shaped_of_readBody {h : Header} {ts rest : List Token} {body : Option Body}
    (ok : readBody h ts = .ok (body, rest)) :
    ∀ b ∈ body, b.opening.kind = .leftBrace ∧ (∀ e ∈ b.entries, e.Formed) ∧
      b.closing.kind = .rightBrace := by
  unfold readBody at ok
  split at ok
  · cases ok
    simp
  · rename_i t ts
    split at ok
    · rename_i kind
      have formed := Entry.formed_readAll ts
      split at ok
      · rename_i all
        cases ok
        rw [all] at formed
        intro b present
        cases present
        exact ⟨kind, formed.1, formed.2 _ rfl⟩
      · cases ok
    · cases ok
      simp

theorem readDot_eq_ok {h : Header} {body : Option Body} {ts rest : List Token} {d : Declaration}
    (ok : readDot h body ts = .ok (d, rest)) :
    d.header = h ∧ d.body = body ∧ d.dot.kind = .dot := by
  unfold readDot at ok
  simp only at ok
  split at ok
  · cases ok
  · split at ok
    · rename_i kind
      cases ok
      exact ⟨rfl, rfl, kind⟩
    · cases ok

/-- Each token of a declaration that is read is of the kind that its place asks for. -/
theorem shaped_of_read {keyword : Token} {ts rest : List Token} {d : Declaration}
    (kind : keyword.kind = .classKeyword) (ok : read keyword ts = .ok (d, rest)) :
    d.Shaped Entry.Formed := by
  unfold read at ok
  split at ok
  · cases ok
  · rename_i header
    split at ok
    · cases ok
    · rename_i body
      obtain ⟨sameHeader, sameBody, dot⟩ := readDot_eq_ok ok
      obtain ⟨rfl, name, parent⟩ := shaped_of_readHeader header
      subst sameHeader sameBody
      exact ⟨kind, name, parent, shaped_of_readBody body, dot⟩

/-- The first token after the header of a phrase can follow a name in each of its places. -/
theorem exists_after_header {P : Entry → Prop} {d : Declaration} (h : d.Shaped P)
    (rest : List Token) :
    ∃ next ts, d.body.elim [] Body.tokens ++ d.dot :: rest = next :: ts ∧
      next.kind ∈ [TokenKind.leftBrace, .dot] := by
  cases present : d.body with
  | none => exact ⟨d.dot, rest, rfl, by simp [h.dot]⟩
  | some b => exact ⟨b.opening, _, rfl, by simp [(h.body b present).1]⟩

theorem readHeader_shaped {P : Entry → Prop} {d : Declaration} (shaped : d.Shaped P)
    (rest : List Token) :
    readHeader d.header.keyword
        (d.header.tokens.tail ++ (d.body.elim [] Body.tokens ++ d.dot :: rest)) =
      .ok (d.header, d.body.elim [] Body.tokens ++ d.dot :: rest) := by
  obtain ⟨next, ts, same, follows⟩ := exists_after_header shaped rest
  rw [same]
  rcases header : d.header with ⟨keyword, name, parent⟩
  have text : name.isText := by simpa [header] using shaped.name
  cases parent with
  | none =>
    have after : next.kind ∈ [TokenKind.extendsKeyword, .leftBrace, .dot] :=
      List.mem_cons_of_mem _ follows
    have other : next.kind ≠ .extendsKeyword := by
      rintro kind
      simp [kind] at follows
    simp [Header.tokens, readHeader, Token.readName_of_follower text after, other]
  | some p =>
    obtain ⟨kind, parentText⟩ := shaped.parent p (by simp [header])
    have after : p.1.kind ∈ [TokenKind.extendsKeyword, .leftBrace, .dot] := by simp [kind]
    simp [Header.tokens, readHeader, Token.readName_of_follower text after, kind,
      Token.readName_of_follower parentText follows]

theorem readBody_shaped {P : Entry → Prop} {d : Declaration} (shaped : d.Shaped P)
    (alone : ∀ b ∈ d.body, b.ReadsAlone) (rest : List Token) :
    readBody d.header (d.body.elim [] Body.tokens ++ d.dot :: rest) =
      .ok (d.body, d.dot :: rest) := by
  cases present : d.body with
  | none => simp [readBody, shaped.dot]
  | some b =>
    have opening := (shaped.body b present).1
    have items := alone b present (d.dot :: rest)
    simp [readBody, Body.tokens, opening, items]

/-- A declaration of which the block is read as it stands is so as well. -/
theorem read_shaped {P : Entry → Prop} {d : Declaration} (shaped : d.Shaped P)
    (alone : ∀ b ∈ d.body, b.ReadsAlone) (rest : List Token) :
    read d.header.keyword (d.tokens.tail ++ rest) = .ok (d, rest) := by
  have tail : d.tokens.tail ++ rest =
      d.header.tokens.tail ++ (d.body.elim [] Body.tokens ++ d.dot :: rest) := by
    simp [tokens, Header.tokens]
  rw [tail, read, readHeader_shaped shaped]
  simp only [readBody_shaped shaped alone]
  simp [readDot, shaped.dot]

/-- A declaration phrase is read as it stands. -/
theorem read_phrase {d : Declaration} (phrase : d.IsPhrase) (rest : List Token) :
    read d.header.keyword (d.tokens.tail ++ rest) = .ok (d, rest) := by
  refine read_shaped phrase ?_ rest
  intro b present us
  obtain ⟨-, items, closing⟩ := phrase.body b present
  exact Entry.readAll_items items closing us

end Declaration

end Taxonomy
