import Taxonomy.Schema.Reader.Entry

/-!
# Reading one declaration

The header, the property block and the final dot are read in turn; the first that fails says why.
What was read and what was left make up the tokens given, whether the declaration is complete or
not.
-/

namespace Taxonomy

/-- A name at the front: a word, or a keyword that one of `followers` comes after. -/
def Token.readName (followers : List TokenKind) : List Token → Option (Token × List Token)
  | [] => none
  | t :: ts =>
    match t.kind with
    | .word => some (t, ts)
    | .classKeyword | .extendsKeyword =>
      match ts with
      | next :: _ => if next.kind ∈ followers then some (t, ts) else none
      | [] => none
    | _ => none

theorem Token.readName_eq_some {followers : List TokenKind} {ts rest : List Token} {t : Token}
    (h : readName followers ts = some (t, rest)) : ts = t :: rest := by
  unfold readName at h
  split at h
  · cases h
  · split at h
    · cases h
      rfl
    · split at h
      · split at h
        · cases h
          rfl
        · cases h
      · cases h
    · split at h
      · split at h
        · cases h
          rfl
        · cases h
      · cases h
    · cases h

/-- A declaration given up: what was read of it after the keyword, the items among that, why, and
the tokens from there on. -/
structure Dropped where
  read : List Token
  entries : List Entry := []
  cause : Refusal
  rest : List Token
  deriving DecidableEq, Repr

namespace Declaration

/-- The name and the parent. -/
def readHeader (keyword : Token) (ts : List Token) : Except Dropped (Header × List Token) :=
  match Token.readName [.extendsKeyword, .leftBrace, .dot] ts with
  | none => .error { read := [], cause := .noName ts.head?, rest := ts }
  | some (name, []) => .ok ({ keyword, name }, [])
  | some (name, t :: ts) =>
    if t.kind = .extendsKeyword then
      match Token.readName [.leftBrace, .dot] ts with
      | none => .error { read := [name, t], cause := .noParent name.text ts.head?, rest := ts }
      | some (parent, ts) => .ok ({ keyword, name, parent := some (t, parent) }, ts)
    else .ok ({ keyword, name }, t :: ts)

/-- The property block, if the next token opens one. -/
def readBody (h : Header) : List Token → Except Dropped (Option Body × List Token)
  | [] => .ok (none, [])
  | t :: ts =>
    if t.kind = .leftBrace then
      match Entry.readAll ts with
      | (entries, some closing, rest) => .ok (some ⟨t, entries, closing⟩, rest)
      | (entries, none, rest) =>
        .error
          { read := h.tokens.tail ++ t :: entries.flatMap Entry.tokens
            entries
            cause := .unclosed h.name.text
            rest }
    else .ok (none, t :: ts)

/-- The dot that ends the declaration. -/
def readDot (header : Header) (body : Option Body) (ts : List Token) :
    Except Dropped (Declaration × List Token) :=
  let fail : Except Dropped (Declaration × List Token) :=
    .error
      { read := header.tokens.tail ++ body.elim [] Body.tokens
        entries := body.elim [] Body.entries
        cause :=
          if header.parent.isNone && body.isNone then .noBody header.name.text ts.head?
          else .noDot header.name.text ts.head?
        rest := ts }
  match ts with
  | [] => fail
  | t :: ts => if t.kind = .dot then .ok (⟨header, body, t⟩, ts) else fail

/-- A declaration after its keyword. -/
def read (keyword : Token) (ts : List Token) : Except Dropped (Declaration × List Token) :=
  match readHeader keyword ts with
  | .error dropped => .error dropped
  | .ok (header, ts) =>
    match readBody header ts with
    | .error dropped => .error dropped
    | .ok (body, ts) => readDot header body ts

/-- What is passed over after a malformed declaration, and the rest: through `.`, or up to
`class`. -/
def skip : List Token → List Token × List Token
  | [] => ([], [])
  | t :: ts =>
    match t.kind with
    | .classKeyword => ([], t :: ts)
    | .dot => ([t], ts)
    | _ => (t :: (skip ts).1, (skip ts).2)

theorem skip_append (ts : List Token) : (skip ts).1 ++ (skip ts).2 = ts := by
  fun_induction skip ts <;> simp_all

/-- What a step read of a declaration and what it left make up the tokens after the keyword. -/
theorem readHeader_append (keyword : Token) (ts : List Token) :
    match readHeader keyword ts with
    | .ok (header, rest) => header.tokens ++ rest = keyword :: ts
    | .error dropped => dropped.read ++ dropped.rest = ts := by
  unfold readHeader
  split
  · rename_i result heq
    split at heq
    · cases heq
    · rename_i hname
      cases heq
      rw [Token.readName_eq_some hname]
      rfl
    · rename_i hname
      split at heq
      · split at heq
        · cases heq
        · rename_i hparent
          cases heq
          rw [Token.readName_eq_some hname, Token.readName_eq_some hparent]
          rfl
      · cases heq
        rw [Token.readName_eq_some hname]
        rfl
  · rename_i result heq
    split at heq
    · cases heq
      rfl
    · cases heq
    · rename_i hname
      split at heq
      · split at heq
        · cases heq
          rw [Token.readName_eq_some hname]
          rfl
        · cases heq
      · cases heq

theorem readBody_append (h : Header) (ts : List Token) :
    match readBody h ts with
    | .ok (body, rest) => body.elim [] Body.tokens ++ rest = ts
    | .error dropped => dropped.read ++ dropped.rest = h.tokens.tail ++ ts := by
  cases ts with
  | nil => rfl
  | cons t ts =>
    unfold readBody
    have happend := Entry.readAll_append ts
    by_cases hopen : t.kind = .leftBrace
    · simp only [hopen, if_true]
      rcases heq : Entry.readAll ts with ⟨entries, closing, rest⟩
      rw [heq] at happend
      cases closing with
      | none => simpa using happend
      | some c => simpa [Body.tokens] using happend
    · simp [hopen]

theorem readDot_append (header : Header) (body : Option Body) (ts : List Token) :
    match readDot header body ts with
    | .ok (d, rest) => d.tokens ++ rest = header.tokens ++ (body.elim [] Body.tokens ++ ts)
    | .error dropped =>
      dropped.read ++ dropped.rest = header.tokens.tail ++ (body.elim [] Body.tokens ++ ts) := by
  unfold readDot
  cases ts with
  | nil => simp
  | cons t ts => by_cases h : t.kind = .dot <;> simp [h, tokens]

theorem read_append (keyword : Token) (ts : List Token) :
    match read keyword ts with
    | .ok (d, rest) => d.tokens ++ rest = keyword :: ts
    | .error dropped => dropped.read ++ dropped.rest = ts := by
  unfold read
  have hheader := readHeader_append keyword ts
  cases h₁ : readHeader keyword ts with
  | error dropped => simpa [h₁] using hheader
  | ok r₁ =>
    obtain ⟨header, ts₁⟩ := r₁
    have hbody := readBody_append header ts₁
    simp only [h₁] at hheader
    cases h₂ : readBody header ts₁ with
    | error dropped =>
      simp only [h₂] at hbody
      simp only [h₂]
      rw [hbody, ← List.tail_append_of_ne_nil (by simp [Header.tokens]), hheader, List.tail_cons]
    | ok r₂ =>
      obtain ⟨body, ts₂⟩ := r₂
      have hdot := readDot_append header body ts₂
      simp only [h₂] at hbody
      simp only [h₂]
      cases h₃ : readDot header body ts₂ with
      | error dropped =>
        simp only [h₃] at hdot
        simp only
        rw [hdot, hbody, ← List.tail_append_of_ne_nil (by simp [Header.tokens]), hheader,
          List.tail_cons]
      | ok r₃ =>
        simp only [h₃] at hdot
        simp only
        rw [hdot, hbody, hheader]

end Declaration

end Taxonomy
