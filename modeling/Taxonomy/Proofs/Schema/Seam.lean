import Taxonomy.Proofs.Schema.Items
import Taxonomy.Proofs.Schema.Recovery

/-!
# Blocks with more tokens after them

A reader that stops before the end of its tokens reads the same when more tokens come after them:
the `_append_left` lemmas, one for each reader. Only the reader of a property looks further ahead
than to the next token, and a token that ends a declaration ends its search (`Sealed`). A
declaration itself is read as it stands, whatever comes after it (`ofTokens_declared`). So tokens
that end with one are cut into the same blocks when more tokens follow (`ofTokens_append_left`).
-/

namespace Taxonomy

namespace Token

/-- If there are tokens, the last of them is one that ends a block or a declaration. -/
def Sealed (ts : List Token) : Prop :=
  ∀ t ∈ ts.getLast?, t.kind = .dot ∨ t.kind = .rightBrace

theorem Sealed.of_suffix {ts us : List Token} (ends : Sealed ts) (part : us <:+ ts) :
    Sealed us := by
  intro t last
  apply ends
  obtain ⟨front, rfl⟩ := part
  rw [List.getLast?_append, Option.mem_def.mp last]
  rfl

theorem Sealed.tail {t : Token} {ts : List Token} (ends : Sealed (t :: ts)) : Sealed ts :=
  ends.of_suffix (List.suffix_cons t ts)

theorem sealed_concat {t : Token} (kind : t.kind = .dot ∨ t.kind = .rightBrace)
    (ts : List Token) : Sealed (ts ++ [t]) := by
  intro u last
  obtain rfl : t = u := by simpa using last
  exact kind

/-- A token that can end sealed tokens is no name. -/
theorem Sealed.isText_eq_false {t : Token} (ends : Sealed [t]) : t.isText = false := by
  rcases ends t rfl with kind | kind <;> simp [isText, kind, TokenKind.isText]

theorem readName_append_left {followers : List TokenKind} {ts : List Token} (ends : Sealed ts)
    (some : ts ≠ []) (us : List Token) :
    readName followers (ts ++ us) = (readName followers ts).map fun r => (r.1, r.2 ++ us) := by
  rcases ts with _ | ⟨t, _ | ⟨next, ts⟩⟩
  · exact absurd rfl some
  · rcases ends t rfl with kind | kind <;> simp [readName, kind]
  · rw [List.cons_append, List.cons_append, readName, readName]
    by_cases follows : next.kind ∈ followers
    · cases t.kind <;> simp [follows]
    · cases t.kind <;> simp [follows]

end Token

open Token (Sealed)

/-! ## Property blocks -/

namespace Entry

variable {ts : List Token}

theorem skip_append_left (stops : (skip ts).2 ≠ []) (us : List Token) :
    skip (ts ++ us) = ((skip ts).1, (skip ts).2 ++ us) := by
  fun_induction skip ts with
  | case1 => exact absurd rfl stops
  | case2 t ts kind => simp [skip, kind]
  | case3 t ts kind => simp [skip, kind]
  | case4 t ts kind => simp [skip, kind]
  | case5 t ts kind => simp [skip, kind]
  | case6 t ts star brace keyword semicolon ih =>
    rw [List.cons_append, skip, ih stops]
    split <;> simp_all

/-- No property goes on past the end of sealed tokens, since their last token is no part of one. -/
theorem readProperty_append_left {star : Token} (kind : star.kind = .star)
    (ends : Sealed (star :: ts)) (us : List Token) :
    readProperty star (ts ++ us) = (readProperty star ts).map fun r => (r.1, r.2 ++ us) := by
  rcases ts with _ | ⟨name, _ | ⟨range, _ | ⟨semicolon, ts⟩⟩⟩
  · rcases ends star rfl with other | other <;> cases kind.symm.trans other
  · have text := ends.tail.isText_eq_false
    rcases us with _ | ⟨range, _ | ⟨semicolon, us⟩⟩ <;> simp [readProperty, text]
  · have text := ends.tail.tail.isText_eq_false
    rcases us with _ | ⟨semicolon, us⟩ <;> simp [readProperty, text]
  · simp only [List.cons_append, readProperty]
    split <;> rfl

theorem read_append_left {t : Token} (ends : Sealed (t :: ts)) (stops : (read t ts).2 ≠ [])
    (us : List Token) : read t (ts ++ us) = ((read t ts).1, (read t ts).2 ++ us) := by
  unfold read at stops ⊢
  by_cases semicolon : t.kind = .semicolon
  · simp only [semicolon, if_true]
  · simp only [semicolon, if_false] at stops ⊢
    by_cases star : t.kind = .star
    · simp only [star, if_true, readProperty_append_left star ends] at stops ⊢
      cases found : readProperty t ts with
      | some result => rfl
      | none =>
        rw [found] at stops
        simp only [Option.map_none, skip_append_left stops]
    · simp only [star, if_false] at stops ⊢
      rw [skip_append_left stops]

/-- A block that ends before the end of sealed tokens ends there. -/
theorem readAll_append_left (ends : Sealed ts)
    (stops : (readAll ts).2.1 ≠ none ∨ (readAll ts).2.2 ≠ []) (us : List Token) :
    readAll (ts ++ us) = ((readAll ts).1, (readAll ts).2.1, (readAll ts).2.2 ++ us) := by
  fun_induction readAll ts with
  | case1 => simp at stops
  | case2 t ts brace => rw [List.cons_append, readAll, if_pos brace]
  | case3 t ts noBrace keyword =>
    rw [List.cons_append, readAll, if_neg noBrace, if_pos keyword]
  | case4 t ts noBrace noClass ih =>
    have goesOn : (read t ts).2 ≠ [] := by
      intro none
      simp [none, readAll] at stops
    have part : (read t ts).2 <:+ t :: ts := ⟨_, read_append t ts⟩
    rw [List.cons_append, readAll, if_neg noBrace, if_neg noClass, read_append_left ends goesOn,
      ih (ends.of_suffix part) stops]

/-- A block that is closed is read as it stands. -/
theorem readAll_closed {c : Token} {es : List Entry} {rest : List Token}
    (all : readAll ts = (es, some c, rest)) (us : List Token) :
    readAll (es.flatMap tokens ++ c :: us) = (es, some c, us) := by
  have split := readAll_append ts
  have brace := (formed_readAll ts).2 c (by rw [all]; rfl)
  rw [all] at split
  have ends : Sealed (es.flatMap tokens ++ [c]) := Token.sealed_concat (.inr brace) _
  have alone : readAll (es.flatMap tokens ++ [c]) = (es, some c, []) := by
    by_cases stops : (readAll (es.flatMap tokens ++ [c])).2.1 ≠ none ∨
        (readAll (es.flatMap tokens ++ [c])).2.2 ≠ []
    · have longer := readAll_append_left ends stops rest
      rw [List.append_assoc] at longer
      have same := longer.symm.trans ((congrArg readAll split).trans all)
      obtain ⟨items, closing, more⟩ : _ ∧ _ ∧ _ := by simpa using same
      exact Prod.ext items (Prod.ext closing more)
    · -- the tokens cannot run out, since a brace is in no item
      obtain ⟨unclosed, none⟩ : _ ∧ _ := by simpa using stops
      have here := readAll_append (es.flatMap tokens ++ [c])
      rw [unclosed, none] at here
      have member : c ∈ (readAll (es.flatMap tokens ++ [c])).1.flatMap tokens := by
        have same : (readAll (es.flatMap tokens ++ [c])).1.flatMap tokens = _ :=
          (List.append_nil _).symm.trans here
        rw [same]
        exact List.mem_append_right _ List.mem_cons_self
      exact absurd brace (kind_of_mem_readAll member)
  have longer := readAll_append_left ends (.inl (by simp [alone])) us
  rwa [alone, List.append_assoc] at longer

end Entry

/-! ## Declarations -/

/-- What a step of reading gives if more tokens follow what it left. -/
def Dropped.leave {α : Type} (us : List Token) :
    Except Dropped (α × List Token) → Except Dropped (α × List Token)
  | .ok (a, rest) => .ok (a, rest ++ us)
  | .error dropped => .error { dropped with rest := dropped.rest ++ us }

namespace Declaration

open Opening (left)

variable {ts : List Token}

theorem skip_append_left (stops : (skip ts).2 ≠ []) (us : List Token) :
    skip (ts ++ us) = ((skip ts).1, (skip ts).2 ++ us) := by
  fun_induction skip ts with
  | case1 => exact absurd rfl stops
  | case2 t ts kind => simp [skip, kind]
  | case3 t ts kind => simp [skip, kind]
  | case4 t ts keyword dot ih =>
    rw [List.cons_append, skip, ih stops]
    split <;> simp_all

theorem readHeader_append_left {keyword : Token} (ends : Sealed ts)
    (stops : left (readHeader keyword ts) ≠ []) (us : List Token) :
    readHeader keyword (ts ++ us) = Dropped.leave us (readHeader keyword ts) := by
  have some : ts ≠ [] := by
    rintro rfl
    exact stops rfl
  unfold readHeader at stops ⊢
  rw [Token.readName_append_left ends some]
  cases found : Token.readName [.extendsKeyword, .leftBrace, .dot] ts with
  | none => simp [Dropped.leave, List.head?_append_of_ne_nil _ some]
  | some result =>
    obtain ⟨name, _ | ⟨t, rest⟩⟩ := result
    · rw [found] at stops
      exact absurd rfl stops
    · simp only [found] at stops
      simp only [Option.map_some, List.cons_append]
      by_cases kind : t.kind = .extendsKeyword
      · simp only [kind, if_true] at stops ⊢
        have parts := Token.readName_eq_some found
        have later : Sealed rest := (parts ▸ ends).tail.tail
        have some' : rest ≠ [] := by
          rintro rfl
          exact stops rfl
        rw [Token.readName_append_left later some']
        cases Token.readName [.leftBrace, .dot] rest with
        | none => simp [Dropped.leave, List.head?_append_of_ne_nil _ some']
        | some => rfl
      · simp only [kind, if_false]
        rfl

theorem readBody_append_left {h : Header} (ends : Sealed ts) (stops : left (readBody h ts) ≠ [])
    (us : List Token) : readBody h (ts ++ us) = Dropped.leave us (readBody h ts) := by
  cases ts with
  | nil => exact absurd rfl stops
  | cons t ts =>
    unfold readBody at stops
    rw [List.cons_append, readBody, readBody]
    by_cases opens : t.kind = .leftBrace
    · simp only [opens, if_true] at stops ⊢
      rcases all : Entry.readAll ts with ⟨entries, closing, rest⟩
      rw [all] at stops
      have ended : (Entry.readAll ts).2.1 ≠ none ∨ (Entry.readAll ts).2.2 ≠ [] := by
        rw [all]
        cases closing with
        | some => exact .inl (by simp)
        | none => exact .inr stops
      rw [Entry.readAll_append_left ends.tail ended, all]
      cases closing <;> rfl
    · simp only [opens, if_false]
      rfl

theorem readDot_append_left {h : Header} {body : Option Body} (some : ts ≠ []) (us : List Token) :
    readDot h body (ts ++ us) = Dropped.leave us (readDot h body ts) := by
  cases ts with
  | nil => exact absurd rfl some
  | cons t ts =>
    by_cases dot : t.kind = .dot
    · simp [readDot, dot, Dropped.leave]
    · simp [readDot, dot, Dropped.leave]

theorem read_append_left {keyword : Token} (ends : Sealed ts)
    (stops : left (read keyword ts) ≠ []) (us : List Token) :
    read keyword (ts ++ us) = Dropped.leave us (read keyword ts) := by
  unfold read at stops ⊢
  have all := readHeader_append keyword ts
  cases header : readHeader keyword ts with
  | error dropped =>
    rw [header] at stops
    rw [readHeader_append_left ends (by rwa [header]), header]
    rfl
  | ok result =>
    obtain ⟨h, rest⟩ := result
    rw [header] at all
    simp only [header] at stops
    -- with no tokens left, there is no dot
    have some : rest ≠ [] := by
      rintro rfl
      exact stops rfl
    have later : Sealed rest := by
      refine ends.of_suffix ⟨h.tokens.tail, ?_⟩
      rw [← List.tail_append_of_ne_nil (by simp [Header.tokens]), all, List.tail_cons]
    rw [readHeader_append_left ends (by rwa [header]), header]
    simp only [Dropped.leave]
    cases inner : readBody h rest with
    | error dropped =>
      simp only [inner] at stops
      rw [readBody_append_left later (by rwa [inner]), inner]
      rfl
    | ok result =>
      obtain ⟨body, rest'⟩ := result
      simp only [inner] at stops
      have some' : rest' ≠ [] := by
        rintro rfl
        exact stops rfl
      rw [readBody_append_left later (by rwa [inner]), inner]
      exact readDot_append_left some' us

/-- The block of a declaration that was read is closed. -/
theorem readsAlone_of_read {keyword : Token} {rest : List Token} {d : Declaration}
    (ok : read keyword ts = .ok (d, rest)) : ∀ b ∈ d.body, b.ReadsAlone := by
  unfold read at ok
  split at ok
  · cases ok
  · split at ok
    · cases ok
    · next body us inner =>
      obtain ⟨-, same, -⟩ := readDot_eq_ok ok
      rw [same]
      intro b present
      unfold readBody at inner
      split at inner
      · cases inner
        cases present
      · split at inner
        · split at inner
          · next all =>
            cases inner
            cases present
            exact Entry.readAll_closed all
          · cases inner
        · cases inner
          cases present

end Declaration

/-! ## Blocks -/

namespace Block

open Opening (left)

variable {ts : List Token}

theorem left_ne_nil {keyword : Token} (stops : (readDeclaration keyword ts).2 ≠ []) :
    left (Declaration.read keyword ts) ≠ [] := by
  unfold readDeclaration at stops
  cases read : Declaration.read keyword ts with
  | ok =>
    rw [read] at stops
    exact stops
  | error dropped =>
    intro none
    have none : dropped.rest = [] := none
    simp only [read, ofDropped, none] at stops
    split at stops
    · exact stops rfl
    · exact stops rfl

theorem readDeclaration_append_left {keyword : Token} (ends : Sealed ts)
    (stops : (readDeclaration keyword ts).2 ≠ []) (us : List Token) :
    readDeclaration keyword (ts ++ us) =
      ((readDeclaration keyword ts).1, (readDeclaration keyword ts).2 ++ us) := by
  have longer := Declaration.read_append_left ends (left_ne_nil stops) us
  unfold readDeclaration at stops ⊢
  rw [longer]
  cases read : Declaration.read keyword ts with
  | ok => rfl
  | error dropped =>
    rw [read] at stops
    obtain ⟨front, entries, cause, rest⟩ := dropped
    cases cause with
    | unclosed => rfl
    | noName | noParent | noBody | noDot =>
      have goesOn : (Declaration.skip rest).2 ≠ [] := stops
      simp only [Dropped.leave, ofDropped, Declaration.skip_append_left goesOn]

/-- A declaration that was found among tokens is read as it stands, whatever comes after it. -/
theorem ofTokens_declared {d : Declaration} (found : .declared d ∈ ofTokens ts)
    (us : List Token) : ofTokens (d.tokens ++ us) = .declared d :: ofTokens us := by
  have shaped : d.Shaped Entry.Formed := shaped_ofTokens ts _ found
  have alone : ∀ b ∈ d.body, b.ReadsAlone := by
    fun_induction ofTokens ts with
    | case1 => cases found
    | case2 t ts kind ih =>
      rcases List.mem_cons.mp found with first | later
      · unfold readDeclaration at first
        split at first
        · next read =>
          cases first
          exact Declaration.readsAlone_of_read read
        · unfold ofDropped at first
          split at first <;> cases first
      · exact ih later
    | case3 t ts kind ih =>
      rcases List.mem_cons.mp found with first | later
      · cases first
      · exact ih later
  have tokens : d.tokens ++ us = d.header.keyword :: (d.tokens.tail ++ us) := rfl
  rw [tokens, ofTokens, if_pos shaped.keyword, readDeclaration,
    Declaration.read_shaped shaped alone]

/-- The last block is a declaration, if there are blocks. -/
def EndsDeclared (bs : List Block) : Prop :=
  ∀ b ∈ bs.getLast?, ∃ d, b = .declared d

theorem EndsDeclared.tail {b : Block} {bs : List Block} (closed : EndsDeclared (b :: bs)) :
    EndsDeclared bs := by
  intro c last
  apply closed
  rw [List.getLast?_cons, Option.mem_def.mp last]
  rfl

/-- Tokens that end with a declaration end with its dot. -/
theorem sealed_of_endsDeclared (closed : EndsDeclared (ofTokens ts)) : Sealed ts := by
  rcases List.eq_nil_or_concat (ofTokens ts) with none | ⟨front, b, split⟩
  · rw [← ofTokens_append ts, none]
    simp [Sealed]
  · obtain ⟨d, rfl⟩ := closed b (by simp [split])
    have shaped : d.Shaped Entry.Formed := shaped_ofTokens ts (.declared d) (by simp [split])
    have all := ofTokens_append ts
    rw [split, List.concat_eq_append, List.flatMap_append, List.flatMap_singleton, tokens,
      Declaration.tokens, ← List.append_assoc] at all
    rw [← all]
    exact Token.sealed_concat (.inl shaped.dot) _

/-- Tokens that end with a declaration are cut into the same blocks when more tokens follow. -/
theorem ofTokens_append_left (closed : EndsDeclared (ofTokens ts)) (us : List Token) :
    ofTokens (ts ++ us) = ofTokens ts ++ ofTokens us := by
  have ends := sealed_of_endsDeclared closed
  fun_induction ofTokens ts with
  | case1 => rfl
  | case2 t ts kind ih =>
    by_cases stops : (readDeclaration t ts).2 = []
    · -- the first block is the last one
      have all := readDeclaration_append t ts
      rw [stops, ofTokens] at closed
      obtain ⟨d, first⟩ : ∃ d, (readDeclaration t ts).1 = .declared d := closed _ rfl
      rw [stops, List.append_nil, first] at all
      have found : .declared d ∈ ofTokens (t :: ts) := by
        rw [ofTokens, if_pos kind, first]
        exact List.mem_cons_self
      rw [← all, stops, first, ofTokens]
      exact ofTokens_declared found us
    · have part : (readDeclaration t ts).2 <:+ t :: ts := ⟨_, readDeclaration_append t ts⟩
      rw [List.cons_append, ofTokens, if_pos kind, readDeclaration_append_left ends.tail stops,
        ih closed.tail (ends.of_suffix part), List.cons_append]
  | case3 t ts kind ih =>
    by_cases stops : ts.dropWhile (·.kind != .classKeyword) = []
    · rw [stops, ofTokens] at closed
      obtain ⟨d, first⟩ := closed _ rfl
      cases first
    · have shorter : (ts.takeWhile (·.kind != .classKeyword)).length ≠ ts.length := by
        intro same
        apply stops
        have all := congrArg List.length
          (List.takeWhile_append_dropWhile (p := (·.kind != .classKeyword)) (l := ts))
        rw [List.length_append, same] at all
        exact List.length_eq_zero_iff.mp (by omega)
      have part : ts.dropWhile (·.kind != .classKeyword) <:+ t :: ts :=
        (List.dropWhile_suffix _).trans (List.suffix_cons t ts)
      rw [List.cons_append, ofTokens, if_neg kind, List.takeWhile_append, if_neg shorter,
        List.dropWhile_append, if_neg (by simpa using stops), ih closed.tail (ends.of_suffix part),
        List.cons_append]

end Block

end Taxonomy
