import Taxonomy.Proofs.Schema.Move

/-!
# Blocks of other tokens with the same texts

The reader looks at the texts of tokens only. So if each token is replaced by one with the same
text, each reader takes as many tokens as before and reads the same, with the tokens replaced: the
`_map` lemmas, one for each reader. The blocks are then the blocks from before with their tokens
replaced (`ofTokens_map`).
-/

namespace Taxonomy

/-- The refusal with the token that was found replaced. -/
def Refusal.map (f : Token → Token) : Refusal → Refusal
  | noName found => .noName (found.map f)
  | noParent name found => .noParent name (found.map f)
  | noBody name found => .noBody name (found.map f)
  | noDot name found => .noDot name (found.map f)
  | unclosed name => .unclosed name

def Dropped.map (f : Token → Token) (d : Dropped) : Dropped :=
  ⟨d.read.map f, d.entries.map (Entry.map f), d.cause.map f, d.rest.map f⟩

/-- The block with each token replaced. -/
def Block.map (f : Token → Token) : Block → Block
  | declared d => .declared (d.map f)
  | abandoned keyword rest entries cause =>
    .abandoned (f keyword) (rest.map f) (entries.map (Entry.map f)) (cause.map f)
  | stray first rest => .stray (f first) (rest.map f)

/-- What a step of reading read and left, with each token replaced. -/
def Dropped.mapResult {α : Type} (g : α → α) (f : Token → Token) :
    Except Dropped (α × List Token) → Except Dropped (α × List Token)
  | .ok (a, rest) => .ok (g a, rest.map f)
  | .error dropped => .error (dropped.map f)

theorem Header.tail_map (f : Token → Token) (h : Header) :
    (h.map f).tokens.tail = h.tokens.tail.map f := by
  rw [tokens_map, List.map_tail]

theorem Block.tokens_map (f : Token → Token) (b : Block) : (b.map f).tokens = b.tokens.map f := by
  cases b with
  | declared d => exact Declaration.tokens_map f d
  | abandoned => rfl
  | stray => rfl

theorem Block.entries_map (f : Token → Token) (b : Block) :
    (b.map f).entries = b.entries.map (Entry.map f) := by
  cases b with
  | declared d =>
    rcases d with ⟨header, body, dot⟩
    cases body <;> rfl
  | abandoned => rfl
  | stray => rfl

theorem Refusal.code_map (f : Token → Token) (r : Refusal) : (r.map f).code = r.code := by
  cases r <;> rfl

theorem Refusal.className_map (f : Token → Token) (r : Refusal) :
    (r.map f).className = r.className := by
  cases r <;> rfl

section

variable {f : Token → Token} (keeps : ∀ t, (f t).text = t.text)

include keeps

theorem Token.kind_map (t : Token) : (f t).kind = t.kind := by
  rw [kind, kind, keeps]

theorem Token.isText_map (t : Token) : (f t).isText = t.isText := by
  rw [isText, isText, kind_map keeps]

theorem Refusal.describe_map (found : Option Token) : describe (found.map f) = describe found := by
  cases found with
  | none => rfl
  | some t => rw [Option.map_some, describe, describe, Token.kind_map keeps, keeps]

/-- A message about a refusal quotes texts only. -/
theorem Refusal.message_map (r : Refusal) : (r.map f).message = r.message := by
  cases r <;> rw [map] <;> unfold message <;> simp only [describe_map keeps]

/-! ## Property blocks -/

namespace Entry

theorem skip_map (ts : List Token) :
    skip (ts.map f) = ((skip ts).1.map f, (skip ts).2.map f) := by
  fun_induction skip ts with
  | case1 => rfl
  | case2 t ts kind => simp [skip, Token.kind_map keeps, kind]
  | case3 t ts kind => simp [skip, Token.kind_map keeps, kind]
  | case4 t ts kind => simp [skip, Token.kind_map keeps, kind]
  | case5 t ts kind => simp [skip, Token.kind_map keeps, kind]
  | case6 t ts star brace keyword semicolon ih =>
    rw [List.map_cons, skip, Token.kind_map keeps, ih]
    split <;> simp_all

theorem readProperty_map (star : Token) (ts : List Token) :
    readProperty (f star) (ts.map f) =
      (readProperty star ts).map fun r => (r.1.map f, r.2.map f) := by
  rcases ts with _ | ⟨name, _ | ⟨range, _ | ⟨semicolon, ts⟩⟩⟩
  · rfl
  · rfl
  · rfl
  · simp only [List.map_cons, readProperty, Token.isText_map keeps, Token.kind_map keeps]
    split <;> rfl

theorem read_map (t : Token) (ts : List Token) :
    read (f t) (ts.map f) = ((read t ts).1.map f, (read t ts).2.map f) := by
  rw [read, read, Token.kind_map keeps, readProperty_map keeps, skip_map keeps]
  by_cases last : t.kind = .semicolon
  · simp only [last, if_true]
    rfl
  · by_cases star : t.kind = .star
    · simp only [star, if_true]
      cases readProperty t ts <;> rfl
    · simp only [last, star, if_false]
      rfl

theorem readAll_map (ts : List Token) :
    readAll (ts.map f) =
      ((readAll ts).1.map (Entry.map f), (readAll ts).2.1.map f, (readAll ts).2.2.map f) := by
  fun_induction readAll ts with
  | case1 => simp [readAll]
  | case2 t ts kind => simp [readAll, Token.kind_map keeps, kind]
  | case3 t ts _ kind => simp [readAll, Token.kind_map keeps, kind]
  | case4 t ts noBrace noClass ih =>
    rw [List.map_cons, readAll, Token.kind_map keeps, if_neg noBrace, if_neg noClass,
      read_map keeps, ih]
    rfl

end Entry

/-! ## Declarations -/

theorem Token.readName_map (followers : List TokenKind) (ts : List Token) :
    readName followers (ts.map f) = (readName followers ts).map fun r => (f r.1, r.2.map f) := by
  rcases ts with _ | ⟨t, _ | ⟨next, ts⟩⟩
  · rfl
  · simp only [List.map_cons, readName, kind_map keeps]
    cases t.kind <;> rfl
  · simp only [List.map_cons, readName, kind_map keeps]
    by_cases follows : next.kind ∈ followers
    · simp only [follows, if_true]
      cases t.kind <;> rfl
    · simp only [follows, if_false]
      cases t.kind <;> rfl

namespace Declaration

theorem skip_map (ts : List Token) :
    skip (ts.map f) = ((skip ts).1.map f, (skip ts).2.map f) := by
  fun_induction skip ts with
  | case1 => rfl
  | case2 t ts kind => simp [skip, Token.kind_map keeps, kind]
  | case3 t ts kind => simp [skip, Token.kind_map keeps, kind]
  | case4 t ts keyword dot ih =>
    rw [List.map_cons, skip, Token.kind_map keeps, ih]
    split <;> simp_all

theorem readHeader_map (keyword : Token) (ts : List Token) :
    readHeader (f keyword) (ts.map f) =
      Dropped.mapResult (Header.map f) f (readHeader keyword ts) := by
  rw [readHeader, readHeader, Token.readName_map keeps]
  rcases Token.readName [.extendsKeyword, .leftBrace, .dot] ts with _ | ⟨name, _ | ⟨t, us⟩⟩
  · simp [Dropped.mapResult, Dropped.map, Refusal.map]
  · rfl
  · simp only [Option.map_some, List.map_cons, Token.kind_map keeps, Token.readName_map keeps]
    by_cases kind : t.kind = .extendsKeyword
    · simp only [kind, if_true]
      cases Token.readName [.leftBrace, .dot] us with
      | none => simp [Dropped.mapResult, Dropped.map, Refusal.map, keeps]
      | some => rfl
    · simp only [kind, if_false]
      rfl

theorem readBody_map (h : Header) (ts : List Token) :
    readBody (h.map f) (ts.map f) =
      Dropped.mapResult (Option.map (Body.map f)) f (readBody h ts) := by
  cases ts with
  | nil => rfl
  | cons t ts =>
    rw [List.map_cons, readBody, readBody, Token.kind_map keeps]
    by_cases opens : t.kind = .leftBrace
    · rw [if_pos opens, if_pos opens, Entry.readAll_map keeps]
      rcases Entry.readAll ts with ⟨entries, closing, rest⟩
      cases closing with
      | some => rfl
      | none =>
        have name : (h.map f).name.text = h.name.text := keeps _
        simp [Dropped.mapResult, Dropped.map, Refusal.map, Header.tail_map, name, List.flatMap_map,
          List.map_flatMap, Entry.tokens_map]
    · rw [if_neg opens, if_neg opens]
      rfl

theorem readDot_map (h : Header) (body : Option Body) (ts : List Token) :
    readDot (h.map f) (body.map (Body.map f)) (ts.map f) =
      Dropped.mapResult (Declaration.map f) f (readDot h body ts) := by
  have name : (h.map f).name.text = h.name.text := keeps _
  have parent : (h.map f).parent.isNone = h.parent.isNone := Option.isNone_map
  have tokens : (body.map (Body.map f)).elim [] Body.tokens = (body.elim [] Body.tokens).map f := by
    cases body with
    | none => rfl
    | some b => exact Body.tokens_map f b
  have entries : (body.map (Body.map f)).elim [] Body.entries =
      (body.elim [] Body.entries).map (Entry.map f) := by
    cases body <;> rfl
  cases ts with
  | nil =>
    simp only [readDot, List.map_nil, Header.tail_map, name, parent, tokens, entries,
      Option.isNone_map]
    split <;> simp [Dropped.mapResult, Dropped.map, Refusal.map]
  | cons t ts =>
    by_cases dot : t.kind = .dot
    · simp [readDot, Token.kind_map keeps, dot, Dropped.mapResult, map]
    · simp only [readDot, List.map_cons, Token.kind_map keeps, dot, if_false,
        Header.tail_map, name, parent, tokens, entries, Option.isNone_map]
      split <;> simp [Dropped.mapResult, Dropped.map, Refusal.map]

theorem read_map (keyword : Token) (ts : List Token) :
    read (f keyword) (ts.map f) = Dropped.mapResult (map f) f (read keyword ts) := by
  rw [read, read, readHeader_map keeps]
  rcases readHeader keyword ts with dropped | ⟨header, ts⟩
  · rfl
  · simp only [Dropped.mapResult, readBody_map keeps]
    rcases readBody header ts with dropped | ⟨body, ts⟩
    · rfl
    · exact readDot_map keeps header body ts

end Declaration

/-! ## Blocks -/

namespace Block

theorem ofDropped_map (keyword : Token) (d : Dropped) :
    ofDropped (f keyword) (d.map f) =
      ((ofDropped keyword d).1.map f, (ofDropped keyword d).2.map f) := by
  rcases d with ⟨read, entries, cause, rest⟩
  cases cause <;>
    simp [ofDropped, Dropped.map, Refusal.map, map, Declaration.skip_map keeps]

theorem readDeclaration_map (keyword : Token) (ts : List Token) :
    readDeclaration (f keyword) (ts.map f) =
      ((readDeclaration keyword ts).1.map f, (readDeclaration keyword ts).2.map f) := by
  rw [readDeclaration, readDeclaration, Declaration.read_map keeps]
  cases Declaration.read keyword ts with
  | ok => rfl
  | error dropped => exact ofDropped_map keeps keyword dropped

/-- Tokens with the same texts are cut into the same blocks. -/
theorem ofTokens_map (ts : List Token) : ofTokens (ts.map f) = (ofTokens ts).map (map f) := by
  have other :
      (fun t : Token => t.kind != .classKeyword) ∘ f = fun t => t.kind != .classKeyword := by
    funext t
    rw [Function.comp_apply, Token.kind_map keeps]
  fun_induction ofTokens ts with
  | case1 => simp [ofTokens]
  | case2 t ts kind ih =>
    rw [List.map_cons, ofTokens, Token.kind_map keeps, if_pos kind, readDeclaration_map keeps, ih,
      List.map_cons]
  | case3 t ts kind ih =>
    rw [List.map_cons, ofTokens, Token.kind_map keeps, if_neg kind, List.takeWhile_map,
      List.dropWhile_map, other, ih, List.map_cons, map]

end Block

end

end Taxonomy
