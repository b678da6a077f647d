import Mathlib.Data.List.Infix
import Mathlib.Data.List.Nodup
import Mathlib.Data.List.Pairwise
import Taxonomy.Proofs.Schema.Account

/-!
# The properties of a block

A window is a property anywhere in a list of tokens. The reader of a property block skips what is no
property, and each time it goes on at a token at which a window can still begin. So it reads the
windows of the block and nothing else (`windows_readAll`), and it stops early only at a `class` that
is in none (`readBody_windows`).
-/

namespace Taxonomy

namespace Entry

/-- The property at the front of the tokens, if there is one. -/
def window? : List Token → Option Entry
  | star :: name :: range :: semicolon :: _ =>
    if star.kind = .star ∧ name.isText ∧ range.isText ∧ semicolon.kind = .semicolon then
      some (.property star name range semicolon)
    else none
  | _ => none

/-- The properties at all places of a list of tokens, in order. -/
def windows (ts : List Token) : List Entry :=
  ts.tails.filterMap window?

/-- The token is part of one of the windows. -/
def InWindow (ts : List Token) (t : Token) : Prop :=
  ∃ e ∈ windows ts, t ∈ e.tokens

/-- The name and the range of a property: its second and third token. -/
def names : Entry → List Token
  | property _ name range _ => [name, range]
  | junk .. => []

/-- The token is the name or the range of one of the windows. -/
def NamesInWindow (ts : List Token) (t : Token) : Prop :=
  ∃ e ∈ windows ts, t ∈ e.names

instance (ts : List Token) (t : Token) : Decidable (NamesInWindow ts t) :=
  inferInstanceAs (Decidable (∃ e ∈ windows ts, t ∈ e.names))

theorem window?_eq_some_iff {ts : List Token} {e : Entry} :
    window? ts = some e ↔ e.IsItem ∧ e.tokens <+: ts := by
  constructor
  · intro found
    unfold window? at found
    split at found
    · split at found
      · next kinds =>
        cases found
        exact ⟨kinds, _, rfl⟩
      · cases found
    · cases found
  · rintro ⟨item, rest, rfl⟩
    cases e with
    | property => exact if_pos item
    | junk => exact item.elim

theorem mem_windows_iff {ts : List Token} {e : Entry} :
    e ∈ windows ts ↔ e.IsItem ∧ e.tokens <:+: ts := by
  simp only [windows, List.mem_filterMap, List.mem_tails, window?_eq_some_iff,
    List.infix_iff_prefix_suffix]
  constructor
  · rintro ⟨us, suffix, item, front⟩
    exact ⟨item, us, front, suffix⟩
  · rintro ⟨item, us, front, suffix⟩
    exact ⟨us, suffix, item, front⟩

theorem windows_cons (t : Token) (ts : List Token) :
    windows (t :: ts) = (window? (t :: ts)).toList ++ windows ts := by
  rw [windows, List.tails_cons, List.filterMap_cons]
  cases window? (t :: ts) <;> rfl

/-- A window begins at a star. -/
theorem window?_of_ne_star {t : Token} (other : t.kind ≠ .star) (ts : List Token) :
    window? (t :: ts) = none := by
  unfold window?
  split
  · next same =>
    obtain ⟨rfl, -⟩ := List.cons.inj same
    rw [if_neg fun kinds => other kinds.1]
  · rfl

theorem windows_append_of_ne_star {ts : List Token} (others : ∀ t ∈ ts, t.kind ≠ .star)
    (us : List Token) : windows (ts ++ us) = windows us := by
  induction ts with
  | nil => rfl
  | cons t ts ih =>
    rw [List.cons_append, windows_cons, window?_of_ne_star (others t List.mem_cons_self),
      ih fun u member => others u (List.mem_cons_of_mem _ member)]
    rfl

theorem isText_ne_star {t : Token} (name : t.isText) : t.kind ≠ .star := by
  intro kind
  simp [Token.isText, kind, TokenKind.isText] at name

theorem readProperty_of_window? {star : Token} {ts : List Token} {e : Entry}
    (found : window? (star :: ts) = some e) : readProperty star ts ≠ none := by
  obtain ⟨item, rest, same⟩ := window?_eq_some_iff.mp found
  cases e with
  | junk => exact item.elim
  | property s name range semicolon =>
    obtain ⟨rfl, rfl⟩ := List.cons.inj same
    obtain ⟨-, nameText, rangeText, last⟩ := item
    simp [readProperty, nameText, rangeText, last]

/-! ## One entry -/

/-- No token of the list can end a run of junk. -/
theorem kind_of_mem_skip {ts : List Token} {t : Token} (member : t ∈ (skip ts).1) :
    t.kind ≠ .star ∧ t.kind ≠ .rightBrace ∧ t.kind ≠ .classKeyword := by
  fun_induction skip ts with
  | case1 => cases member
  | case2 => cases member
  | case3 => cases member
  | case4 => cases member
  | case5 t ts kind =>
    obtain rfl := List.mem_singleton.mp member
    simp [kind]
  | case6 u ts star brace keyword semicolon ih =>
    rcases List.mem_cons.mp member with rfl | later
    · exact ⟨star, brace, keyword⟩
    · exact ih later

/-- The entry is a property, or a run of tokens that a block may hold outside of properties. -/
def Plain : Entry → Prop
  | property star name range semicolon => (property star name range semicolon).IsItem
  | junk first rest => ∀ t ∈ first :: rest, t.kind ≠ .rightBrace ∧ t.kind ≠ .classKeyword

theorem isItem_of_readProperty {star : Token} {ts rest : List Token} {e : Entry}
    (kind : star.kind = .star) (read : readProperty star ts = some (e, rest)) : e.IsItem := by
  refine (formed_readProperty kind read).resolve_right ?_
  unfold readProperty at read
  split at read
  · split at read
    · cases read
      simp [property?]
    · cases read
  · cases read

/-- An entry is a property, or a run of junk that starts where no property does. -/
theorem read_cases (t : Token) (ts : List Token) :
    (t.kind = .star ∧ (read t ts).1.IsItem) ∨
      ∃ rest, (read t ts).1 = .junk t rest ∧ window? (t :: ts) = none ∧
        ∀ u ∈ rest, u.kind ≠ .star ∧ u.kind ≠ .rightBrace ∧
          u.kind ≠ .classKeyword := by
  unfold read
  by_cases semicolon : t.kind = .semicolon
  · rw [if_pos semicolon]
    exact .inr ⟨[], rfl, window?_of_ne_star (by simp [semicolon]) ts, by simp⟩
  · rw [if_neg semicolon]
    by_cases star : t.kind = .star
    · rw [if_pos star]
      cases found : readProperty t ts with
      | some result => exact .inl ⟨star, isItem_of_readProperty star found⟩
      | none =>
        refine .inr ⟨_, rfl, ?_, fun u => kind_of_mem_skip⟩
        by_contra window
        obtain ⟨e, window⟩ := Option.ne_none_iff_exists'.mp window
        exact readProperty_of_window? window found
    · rw [if_neg star]
      exact .inr ⟨_, rfl, window?_of_ne_star star ts, fun u => kind_of_mem_skip⟩

theorem plain_read {t : Token} (noBrace : t.kind ≠ .rightBrace)
    (noClass : t.kind ≠ .classKeyword) (ts : List Token) : (read t ts).1.Plain := by
  rcases read_cases t ts with ⟨-, item⟩ | ⟨rest, same, -, others⟩
  · cases entry : (read t ts).1 with
    | property => rwa [entry] at item
    | junk => rw [entry] at item; exact item.elim
  · rw [same]
    intro u member
    rcases List.mem_cons.mp member with rfl | later
    · exact ⟨noBrace, noClass⟩
    · exact (others u later).2

/-- The windows from an entry on are the entry, if it is a property, and those from its end on, as
far as the tokens go. -/
theorem windows_read {t : Token} {ts front rest : List Token}
    (after : (read t ts).2 = front ++ rest) : windows ((read t ts).1.tokens ++ front) =
      [(read t ts).1].filter (·.property?.isSome) ++ windows front := by
  have all := read_append t ts
  rcases read_cases t ts with ⟨-, item⟩ | ⟨junk, same, none, others⟩
  · cases entry : (read t ts).1 with
    | junk => rw [entry] at item; exact item.elim
    | property star name range semicolon =>
      rw [entry] at item
      have window : window? (star :: ([name, range, semicolon] ++ front)) =
          some (.property star name range semicolon) := if_pos item
      obtain ⟨-, nameText, rangeText, last⟩ := item
      have others : ∀ u ∈ [name, range, semicolon], u.kind ≠ .star := by
        simp [isText_ne_star nameText, isText_ne_star rangeText, last]
      show windows (star :: ([name, range, semicolon] ++ front)) = _
      rw [windows_cons, window, windows_append_of_ne_star others]
      rfl
  · rw [same] at all ⊢
    have others : ∀ u ∈ junk, u.kind ≠ .star := fun u member => (others u member).1
    -- a window in the tokens up to some place is one in all of them
    have none' : window? (t :: (junk ++ front)) = .none := by
      by_contra window
      obtain ⟨e, window⟩ := Option.ne_none_iff_exists'.mp window
      obtain ⟨item, prefix'⟩ := window?_eq_some_iff.mp window
      have longer : e.tokens <+: t :: ts := by
        rw [← all, after]
        exact prefix'.trans ⟨rest, by simp [tokens]⟩
      rw [window?_eq_some_iff.mpr ⟨item, longer⟩] at none
      cases none
    show windows (t :: (junk ++ front)) = _
    rw [windows_cons, none', windows_append_of_ne_star others]
    rfl

/-! ## A block -/

theorem plain_readAll (ts : List Token) : ∀ e ∈ (readAll ts).1, e.Plain := by
  fun_induction readAll ts with
  | case1 => simp
  | case2 => simp
  | case3 => simp
  | case4 t ts noBrace noClass ih =>
    intro e member
    rcases List.mem_cons.mp member with rfl | later
    · exact plain_read noBrace noClass ts
    · exact ih e later

/-- A block that is not closed ends at `class` or at the end of the tokens. -/
theorem head?_readAll {ts : List Token} (unclosed : (readAll ts).2.1 = none) :
    ∀ t ∈ (readAll ts).2.2.head?, t.kind = .classKeyword := by
  fun_induction readAll ts with
  | case1 => simp
  | case2 => cases unclosed
  | case3 t ts noBrace kind => simp [kind]
  | case4 t ts noBrace noClass ih => exact ih unclosed

/-- The windows of what is read and of some more tokens are the properties that are read and the
windows of those tokens. -/
theorem windows_readAll {ts front rest : List Token}
    (after : (readAll ts).2.1.toList ++ (readAll ts).2.2 = front ++ rest) :
    windows ((readAll ts).1.flatMap tokens ++ front) =
      (readAll ts).1.filter (·.property?.isSome) ++ windows front := by
  fun_induction readAll ts with
  | case1 => rfl
  | case2 => rfl
  | case3 => rfl
  | case4 t ts noBrace noClass ih =>
    have all := readAll_append (read t ts).2
    rw [after, ← List.append_assoc] at all
    rw [List.flatMap_cons, List.append_assoc, windows_read all.symm, ih after,
      ← List.append_assoc, ← List.filter_append, List.singleton_append]

/-! ## The tokens before the brace -/

/-- The tokens up to the first closing brace. -/
def inside (ts : List Token) : List Token :=
  ts.takeWhile (·.kind != .rightBrace)

/-- What comes from the first closing brace on. -/
def outside (ts : List Token) : List Token :=
  ts.dropWhile (·.kind != .rightBrace)

theorem kind_of_mem_readAll {ts : List Token} {t : Token}
    (member : t ∈ (readAll ts).1.flatMap tokens) : t.kind ≠ .rightBrace := by
  obtain ⟨e, entry, inside⟩ := List.mem_flatMap.mp member
  have plain := plain_readAll ts e entry
  cases e with
  | junk first rest => exact (plain t inside).1
  | property star name range semicolon =>
    obtain ⟨kind, nameText, rangeText, last⟩ := plain
    intro brace
    simp only [tokens, List.mem_cons, List.not_mem_nil, or_false] at inside
    rcases inside with rfl | rfl | rfl | rfl <;>
      simp_all [Token.isText, TokenKind.isText]

/-- The tokens up to the brace are those that are read and, if the block is left open, those after
them. -/
theorem inside_eq (ts : List Token) : inside ts =
    (readAll ts).1.flatMap tokens ++ inside ((readAll ts).2.1.toList ++ (readAll ts).2.2) := by
  have read : ∀ t ∈ (readAll ts).1.flatMap tokens, (t.kind != .rightBrace) = true := by
    intro t member
    simpa using kind_of_mem_readAll member
  have parts : inside ((readAll ts).1.flatMap tokens ++
      ((readAll ts).2.1.toList ++ (readAll ts).2.2)) = _ := List.takeWhile_append_of_pos read
  rwa [readAll_append] at parts

theorem outside_eq (ts : List Token) :
    outside ts = outside ((readAll ts).2.1.toList ++ (readAll ts).2.2) := by
  have read : ∀ t ∈ (readAll ts).1.flatMap tokens, (t.kind != .rightBrace) = true := by
    intro t member
    simpa using kind_of_mem_readAll member
  have parts : outside ((readAll ts).1.flatMap tokens ++
      ((readAll ts).2.1.toList ++ (readAll ts).2.2)) = _ := List.dropWhile_append_of_pos read
  rwa [readAll_append] at parts

/-- A `class` among what is read is the name or the range of a property. -/
theorem namesInWindow_of_mem_readAll {ts : List Token} {t : Token}
    (member : t ∈ (readAll ts).1.flatMap tokens) (kind : t.kind = .classKeyword) :
    NamesInWindow (inside ts) t := by
  obtain ⟨e, entry, here⟩ := List.mem_flatMap.mp member
  have plain := plain_readAll ts e entry
  cases e with
  | junk first rest => exact absurd kind (plain t here).2
  | property star name range semicolon =>
    refine ⟨.property star name range semicolon, ?_, ?_⟩
    · rw [mem_windows_iff, inside_eq]
      refine ⟨plain, ?_⟩
      exact (Block.infix_flatMap tokens entry).trans (List.prefix_append _ _).isInfix
    · obtain ⟨first, -, -, last⟩ := plain
      simp only [tokens, List.mem_cons, List.not_mem_nil, or_false] at here
      rcases here with rfl | rfl | rfl | rfl
      · cases first.symm.trans kind
      · simp [names]
      · simp [names]
      · cases last.symm.trans kind

/-- A block is closed, left open at `class`, or left open at the end of the tokens. -/
theorem readAll_cases (ts : List Token) :
    (∃ c, (readAll ts).2.1 = some c ∧ c.kind = .rightBrace ∧
      inside ts = (readAll ts).1.flatMap tokens ∧ ts = inside ts ++ c :: (readAll ts).2.2) ∨
    (∃ t v, (readAll ts).2.1 = none ∧ t.kind = .classKeyword ∧
      inside ts = (readAll ts).1.flatMap tokens ++ t :: v ∧
      (readAll ts).2.2 = t :: v ++ outside ts) ∨
    ((readAll ts).2.1 = none ∧ inside ts = ts ∧ ts = (readAll ts).1.flatMap tokens ∧
      (readAll ts).2.2 = []) := by
  have all := readAll_append ts
  have before := inside_eq ts
  have after := outside_eq ts
  cases closing : (readAll ts).2.1 with
  | some c =>
    have brace := (formed_readAll ts).2 c closing
    rw [closing] at all before
    have none : inside ((some c).toList ++ (readAll ts).2.2) = [] := by simp [inside, brace]
    rw [none, List.append_nil] at before
    refine .inl ⟨c, rfl, brace, before, ?_⟩
    rw [before]
    exact all.symm
  | none =>
    have stops := head?_readAll closing
    rw [closing] at all before after
    cases rest : (readAll ts).2.2 with
    | nil =>
      rw [rest] at all before
      have same : ts = (readAll ts).1.flatMap tokens := by simpa using all.symm
      refine .inr (.inr ⟨rfl, ?_, same, rfl⟩)
      rw [before, ← same]
      exact List.append_nil ts
    | cons t v =>
      have kind : t.kind = .classKeyword := stops t (by rw [rest]; rfl)
      rw [rest] at before after
      have first : inside (none.toList ++ t :: v) = t :: inside v := by simp [inside, kind]
      have last : outside (none.toList ++ t :: v) = outside v := by simp [outside, kind]
      refine .inr (.inl ⟨t, inside v, rfl, kind, ?_, ?_⟩)
      · rw [before, first]
      · rw [after, last, List.cons_append, inside, outside, List.takeWhile_append_dropWhile]

theorem windows_closed {ts : List Token} (all : inside ts = (readAll ts).1.flatMap tokens) :
    windows (inside ts) = (readAll ts).1.filter (·.property?.isSome) := by
  have read : windows ((readAll ts).1.flatMap tokens ++ []) = _ := windows_readAll rfl
  have nothing : windows [] = [] := rfl
  rwa [List.append_nil, ← all, nothing, List.append_nil] at read

theorem NamesInWindow.inWindow {ts : List Token} {t : Token} (names : NamesInWindow ts t) :
    InWindow ts t := by
  obtain ⟨e, window, here⟩ := names
  refine ⟨e, window, ?_⟩
  cases e with
  | property star name range semicolon =>
    rcases List.mem_pair.mp here with rfl | rfl <;> simp [tokens]
  | junk => cases here

theorem inWindow_of_mem_readAll {ts : List Token} {c : Token}
    (member : c ∈ (readAll ts).1.flatMap tokens) (kind : c.kind = .classKeyword) :
    InWindow (inside ts) c :=
  (namesInWindow_of_mem_readAll member kind).inWindow

/-- The `class` at which a block is left open is in no window: it is in no property that was read,
and no window begins with it. -/
theorem not_inWindow_of_open {ts v : List Token} {t : Token} (distinct : ts.Nodup)
    (kind : t.kind = .classKeyword)
    (all : inside ts = (readAll ts).1.flatMap tokens ++ t :: v)
    (after : (readAll ts).2.1.toList ++ (readAll ts).2.2 = t :: v ++ outside ts) :
    ¬ InWindow (inside ts) t := by
  have unique : ((readAll ts).1.flatMap tokens ++ t :: v).Nodup := by
    rw [← all]
    exact distinct.sublist (List.takeWhile_sublist _)
  obtain ⟨-, later, apart⟩ := List.nodup_append.mp unique
  rintro ⟨e, window, here⟩
  rw [all, windows_readAll after, windows_cons, window?_of_ne_star (by simp [kind]),
    List.mem_append] at window
  rcases window with read | window
  · have earlier : t ∈ (readAll ts).1.flatMap tokens :=
      List.mem_flatMap.mpr ⟨e, (List.mem_filter.mp read).1, here⟩
    exact apart t earlier t List.mem_cons_self rfl
  · have part := (mem_windows_iff.mp window).2
    exact (List.nodup_cons.mp later).1 (part.subset here)

end Entry

/-! ## What is reported -/

/-- Parts that share a token are the same. -/
theorem Token.eq_of_mem_flatMap {α : Type} {f : α → List Token} {as : List α}
    (distinct : (as.flatMap f).Nodup) {a b : α} (first : a ∈ as) (second : b ∈ as) {t : Token}
    (here : t ∈ f a) (there : t ∈ f b) : a = b := by
  by_contra other
  have apart := (List.nodup_flatMap.mp distinct).2
  have symmetric : Std.Symm (Function.onFun List.Disjoint f) :=
    ⟨fun _ _ disjoint _ one two => disjoint two one⟩
  exact apart.forall first second other here there

/-- The diagnostics about the entries of a block come one after another. -/
theorem Source.apart_ofEntries (s : Source) (name : String) {es : List Entry}
    (order : Token.InOrder (es.flatMap Entry.tokens)) :
    (s.ofEntries name es).Pairwise fun a b => a.span.stop ≤ b.span.start := by
  induction es with
  | nil => exact .nil
  | cons e es ih =>
    rw [List.flatMap_cons] at order
    have rest := order.sublist (List.sublist_append_right _ _)
    cases e with
    | property => exact ih rest
    | junk first more =>
      refine List.Pairwise.cons ?_ (ih rest)
      intro d member
      obtain ⟨-, first', more', entry, span⟩ := Outcome.exists_junk_of_mem_ofEntries member
      have own : Token.InOrder (first :: more) := order.sublist (List.sublist_append_left _ _)
      have other : Token.InOrder (first' :: more') :=
        rest.sublist (Block.infix_flatMap Entry.tokens entry).sublist
      show (Token.coverAll first more).stop ≤ d.span.start
      rw [span, own.coverAll_eq, other.coverAll_eq]
      refine (List.pairwise_append.mp order.apart).2.2 _ (List.getLast_mem _) first' ?_
      exact List.mem_flatMap.mpr ⟨_, entry, List.mem_cons_self⟩

/-- The block has the properties that stand between its braces, and what else stands there is
reported, each token once. -/
structure Body.Accounts (s : Source) (name : String) (ts : List Token) (b : Body) : Prop where
  properties : b.entries.filterMap Entry.property? =
    (Entry.windows ts).filterMap Entry.property?
  malformed : ∀ d ∈ s.ofEntries name b.entries, d.code = .malformedProperty
  outside : ∀ t ∈ ts, ¬ Entry.InWindow ts t →
    ∃! i : Fin (s.ofEntries name b.entries).length,
      t.span.Within (s.ofEntries name b.entries)[i].span
  inside : ∀ t ∈ ts, Entry.InWindow ts t →
    ∀ d ∈ s.ofEntries name b.entries, ¬ t.span.Within d.span

theorem Body.accounts (s : Source) (name : String) {b : Body}
    (order : Token.InOrder (b.entries.flatMap Entry.tokens))
    (windows : Entry.windows (b.entries.flatMap Entry.tokens) =
      b.entries.filter (·.property?.isSome)) :
    b.Accounts s name (b.entries.flatMap Entry.tokens) := by
  have inWindow {t : Token} : Entry.InWindow (b.entries.flatMap Entry.tokens) t ↔
      ∃ e ∈ b.entries, e.property?.isSome ∧ t ∈ e.tokens := by
    simp only [Entry.InWindow, windows, List.mem_filter, and_assoc]
  refine ⟨?_, ?_, ?_, ?_⟩
  · rw [windows, List.filterMap_filter]
    apply List.filterMap_congr
    intro e _
    cases e <;> rfl
  · intro d member
    exact (Outcome.exists_junk_of_mem_ofEntries member).1
  · intro t member notIn
    obtain ⟨e, entry, here⟩ := List.mem_flatMap.mp member
    cases e with
    | property => exact absurd (inWindow.mpr ⟨_, entry, rfl, here⟩) notIn
    | junk first rest =>
      have own : Token.InOrder (first :: rest) :=
        order.sublist (Block.infix_flatMap Entry.tokens entry).sublist
      have reported : s.junk name (Token.coverAll first rest) ∈ s.ofEntries name b.entries :=
        List.mem_filterMap.mpr ⟨_, entry, rfl⟩
      refine Span.existsUnique_within (s.apart_ofEntries name order) (order.nonempty t member)
        reported ?_
      show t.span.Within (Token.coverAll first rest)
      rw [own.coverAll_eq]
      exact own.within_ends (by simp) t here
  · intro t member isIn d reported within
    obtain ⟨e, entry, property, here⟩ := inWindow.mp isIn
    obtain ⟨-, first, rest, entry', span⟩ := Outcome.exists_junk_of_mem_ofEntries reported
    obtain ⟨us, vs, split⟩ := Block.infix_flatMap Entry.tokens entry'
    rw [List.append_assoc] at split
    rw [span] at within
    rw [← split] at member
    have here' := (split ▸ order).mem_of_within member within
    obtain rfl := Token.eq_of_mem_flatMap order.nodup entry entry' here here'
    cases property

namespace Declaration

theorem readBody_closed (h : Header) {opening c : Token} {ts : List Token}
    (brace : opening.kind = .leftBrace) (closed : (Entry.readAll ts).2.1 = some c) :
    readBody h (opening :: ts) =
      .ok (some ⟨opening, (Entry.readAll ts).1, c⟩, (Entry.readAll ts).2.2) := by
  rcases all : Entry.readAll ts with ⟨entries, closing, rest⟩
  rw [all] at closed
  cases closed
  rw [readBody, if_pos brace, all]

theorem readBody_open (h : Header) {opening : Token} {ts : List Token}
    (brace : opening.kind = .leftBrace) (unclosed : (Entry.readAll ts).2.1 = none) :
    readBody h (opening :: ts) =
      .error
        { read := h.tokens.tail ++ opening :: (Entry.readAll ts).1.flatMap Entry.tokens
          entries := (Entry.readAll ts).1
          cause := .unclosed h.name.text
          rest := (Entry.readAll ts).2.2 } := by
  rcases all : Entry.readAll ts with ⟨entries, closing, rest⟩
  rw [all] at unclosed
  cases unclosed
  rw [readBody, if_pos brace, all]

/-- The property block after any `{` of a text. It is read to its end exactly if there is a `}` and
each `class` before that is the name or the range of a window, and it then has the windows'
properties. If not, it is left open at the first `class` that is in no window, or else at the end of
the text. -/
theorem readBody_windows (text : String) (h : Header) {before ts : List Token} {opening : Token}
    (place : tokenize text = before ++ opening :: ts) (brace : opening.kind = .leftBrace) :
    ((∃ result, readBody h (opening :: ts) = .ok result) ↔
      (∃ t ∈ ts, t.kind = .rightBrace) ∧
        ∀ t ∈ Entry.inside ts, t.kind = .classKeyword →
          Entry.NamesInWindow (Entry.inside ts) t) ∧
    (∀ body rest, readBody h (opening :: ts) = .ok (body, rest) →
      ∃ b, body = some b ∧ b.opening = opening ∧ b.closing.kind = .rightBrace ∧
        ts = Entry.inside ts ++ b.closing :: rest ∧
        b.Accounts (Source.ofText text) h.name.text (Entry.inside ts)) ∧
    ∀ dropped, readBody h (opening :: ts) = .error dropped →
      dropped.cause = .unclosed h.name.text ∧ dropped.cause.code = .unterminatedBlock ∧
      ((∃ u t v, Entry.inside ts = u ++ t :: v ∧ t.kind = .classKeyword ∧
          ¬ Entry.InWindow (Entry.inside ts) t ∧
          (∀ c ∈ u, c.kind = .classKeyword → Entry.InWindow (Entry.inside ts) c) ∧
          dropped.rest = t :: v ++ Entry.outside ts) ∨
        (∀ c ∈ Entry.inside ts, c.kind = .classKeyword →
          Entry.InWindow (Entry.inside ts) c) ∧ dropped.rest = []) := by
  have order : Token.InOrder ts := by
    have all := inOrder_tokenize text
    rw [place] at all
    exact all.sublist ((List.sublist_cons_self _ _).trans (List.sublist_append_right _ _))
  rcases Entry.readAll_cases ts with ⟨c, closed, kind, all, split⟩ |
    ⟨t, v, unclosed, kind, all, after⟩ | ⟨unclosed, whole, all, after⟩
  · -- the block is closed
    rw [readBody_closed h brace closed]
    refine ⟨⟨fun _ => ⟨⟨c, ?_, kind⟩, ?_⟩, fun _ => ⟨_, rfl⟩⟩, ?_, ?_⟩
    · rw [split]
      exact List.mem_append_right _ List.mem_cons_self
    · intro t member isClass
      exact Entry.namesInWindow_of_mem_readAll (all ▸ member) isClass
    · rintro body rest ⟨⟩
      have own : Token.InOrder (Entry.inside ts) := order.sublist (List.takeWhile_sublist _)
      have windows := Entry.windows_closed all
      refine ⟨_, rfl, rfl, kind, split, ?_⟩
      rw [all] at own windows ⊢
      exact @Body.accounts _ _ ⟨opening, (Entry.readAll ts).1, c⟩ own windows
    · rintro dropped ⟨⟩
  · -- it is left open at a `class`
    have remains : (Entry.readAll ts).2.1.toList ++ (Entry.readAll ts).2.2 =
        t :: v ++ Entry.outside ts := by
      rw [unclosed, after]
      rfl
    have notIn := Entry.not_inWindow_of_open order.nodup kind all remains
    have member : t ∈ Entry.inside ts := by
      rw [all]
      exact List.mem_append_right _ List.mem_cons_self
    rw [readBody_open h brace unclosed]
    refine ⟨⟨?_, ?_⟩, ?_, ?_⟩
    · rintro ⟨result, ⟨⟩⟩
    · rintro ⟨-, classes⟩
      exact absurd (classes t member kind).inWindow notIn
    · rintro body rest ⟨⟩
    · rintro dropped ⟨⟩
      refine ⟨rfl, rfl, .inl ⟨_, t, v, all, kind, notIn, ?_, after⟩⟩
      intro c earlier isClass
      exact Entry.inWindow_of_mem_readAll earlier isClass
  · -- it is left open at the end of the text
    have classes : ∀ c ∈ Entry.inside ts, c.kind = .classKeyword →
        Entry.InWindow (Entry.inside ts) c := by
      intro c member isClass
      rw [whole, all] at member
      exact Entry.inWindow_of_mem_readAll member isClass
    rw [readBody_open h brace unclosed]
    refine ⟨⟨?_, ?_⟩, ?_, ?_⟩
    · rintro ⟨result, ⟨⟩⟩
    · rintro ⟨⟨t, member, isBrace⟩, -⟩
      rw [all] at member
      exact absurd isBrace (Entry.kind_of_mem_readAll member)
    · rintro body rest ⟨⟩
    · rintro dropped ⟨⟩
      exact ⟨rfl, rfl, .inr ⟨classes, after⟩⟩

/-- A block with junk before, inside and after its properties, of which one has a keyword for its
name. -/
theorem readBody_mixed :
    let text := "class A \x7b x *class b; * *c d; z \x7d ."
    let opening : Token := ⟨"\x7b", ⟨8, 9⟩⟩
    let h : Header := ⟨⟨"class", ⟨0, 5⟩⟩, ⟨"A", ⟨6, 7⟩⟩, none⟩
    tokenize text = h.tokens ++ opening :: (tokenize text).drop 3 ∧ opening.kind = .leftBrace ∧
      ∃ b rest, readBody h (opening :: (tokenize text).drop 3) = .ok (some b, rest) ∧
        b.entries.filterMap Entry.property? = [⟨"class", "b"⟩, ⟨"c", "d"⟩] := by
  intro text opening h
  have place : tokenize text = h.tokens ++ opening :: (tokenize text).drop 3 := by decide +kernel
  have brace : opening.kind = .leftBrace := by decide
  obtain ⟨reads, closed, -⟩ := readBody_windows text h place brace
  obtain ⟨⟨body, rest⟩, read⟩ := reads.mpr ⟨by decide +kernel, by decide +kernel⟩
  obtain ⟨b, rfl, -, -, -, accounts⟩ := closed body rest read
  refine ⟨place, brace, b, rest, read, ?_⟩
  rw [accounts.properties]
  decide +kernel

end Declaration

end Taxonomy
