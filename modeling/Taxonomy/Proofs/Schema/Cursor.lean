import Mathlib.Data.PFun
import Taxonomy.Schema.Reader

/-!
# Reading with a cursor

The reader of blocks takes tokens off the front of those that are left. Here the tokens stay as they
are and a cursor counts those consumed. Each loop is `PFun.fix` of one turn, which leaves the loop
(`.inl`) or goes on from another cursor (`.inr`), so a loop that no turn leaves has no result. Every
operation does have one, the cursor at which the tokens begin that the reader of blocks leaves
(`Moves`): the `_ends` and `_follows` lemmas, one for each operation.
-/

namespace Taxonomy

namespace Cursor

/-! ## Operations -/

section

variable (ts : List Token)

/-- The kind of the token at the cursor. -/
def kind? (n : Nat) : Option TokenKind :=
  ts[n]?.map Token.kind

/-- Consumes one token, if there is one. An operation that does not apply leaves the cursor where it
is. -/
def bump? (n : Nat) : Option Nat :=
  (kind? ts n).map fun _ => n + 1

def eat? (kind : TokenKind) (n : Nat) : Option Nat :=
  if kind? ts n = some kind then bump? ts n else none

/-- Consumes a name: a word, or a keyword that one of `followers` comes after. -/
def eatName? (followers : List TokenKind) (n : Nat) : Option Nat :=
  match kind? ts n with
  | some .word => bump? ts n
  | some .classKeyword | some .extendsKeyword =>
    if (kind? ts (n + 1)).any (· ∈ followers) then bump? ts n else none
  | _ => none

/-- Consumes a name, a range and `;`, and nothing unless all three are there. -/
def eatProperty? (n : Nat) : Option Nat :=
  match kind? ts n, kind? ts (n + 1), kind? ts (n + 2) with
  | some name, some range, some last =>
    if name.isText && range.isText && last == .semicolon then some (n + 3) else none
  | _, _, _ => none

/-- One turn of a loop that passes over tokens: up to a token of one of the kinds in `before`, or
through one of the kinds in `through`. -/
def skipTurn (before through : List TokenKind) (n : Nat) : Nat ⊕ Nat :=
  match kind? ts n with
  | none => .inl n
  | some kind =>
    if kind ∈ before then .inl n
    else if kind ∈ through then .inl (n + 1)
    else .inr (n + 1)

def skip (before through : List TokenKind) : Nat →. Nat :=
  PFun.fix fun n => Part.some (skipTurn ts before through n)

/-- Passes over the rest of an item that is no property. -/
def skipEntry : Nat →. Nat :=
  skip ts [.star, .rightBrace, .classKeyword] [.semicolon]

/-- Passes over the rest of a malformed declaration. -/
def skipDeclaration : Nat →. Nat :=
  skip ts [.classKeyword] [.dot]

/-- One turn of the loop over a property block. The loop is left behind the closing brace, or with
the code of the diagnostic for a block that has none. -/
def blockTurn (n : Nat) : Part ((Option DiagnosticCode × Nat) ⊕ Nat) :=
  match kind? ts n with
  | none | some .classKeyword => Part.some (.inl (some .unterminatedBlock, n))
  | some .rightBrace => Part.some (.inl (none, n + 1))
  | some .star =>
    match eatProperty? ts (n + 1) with
    | some n => Part.some (.inr n)
    | none => (skipEntry ts (n + 1)).map .inr
  | some _ => (skipEntry ts n).map .inr

def block : Nat →. Option DiagnosticCode × Nat :=
  PFun.fix (blockTurn ts)

/-- The name and the parent of a declaration. -/
def header (n : Nat) : Option DiagnosticCode × Nat :=
  match eatName? ts [.extendsKeyword, .leftBrace, .dot] n with
  | none => (some .malformedDeclaration, n)
  | some n =>
    match eat? ts .extendsKeyword n with
    | none => (none, n)
    | some n =>
      match eatName? ts [.leftBrace, .dot] n with
      | none => (some .malformedDeclaration, n)
      | some n => (none, n)

def body (n : Nat) : Part (Option DiagnosticCode × Nat) :=
  match eat? ts .leftBrace n with
  | none => Part.some (none, n)
  | some n => block ts n

def dot (n : Nat) : Option DiagnosticCode × Nat :=
  match eat? ts .dot n with
  | none => (some .malformedDeclaration, n)
  | some n => (none, n)

/-- A declaration after its keyword: the code of the diagnostic if it is given up, and the cursor
then. -/
def declarationBody (n : Nat) : Part (Option DiagnosticCode × Nat) :=
  match header ts n with
  | (some code, n) => Part.some (some code, n)
  | (none, n) =>
    (body ts n).bind fun
      | (some code, n) => Part.some (some code, n)
      | (none, n) => Part.some (dot ts n)

/-- A declaration from its keyword on. The rest of a malformed one is passed over. -/
def declaration (n : Nat) : Part Nat :=
  match bump? ts n with
  | none => Part.some n
  | some n =>
    (declarationBody ts n).bind fun
      | (some .malformedDeclaration, n) => skipDeclaration ts n
      | (_, n) => Part.some n

/-- Passes over a stray run, the first token of which may be of any kind. -/
def stray (n : Nat) : Part Nat :=
  match bump? ts n with
  | none => Part.some n
  | some n => skip ts [.classKeyword] [] n

/-- One top-level step. -/
def runTurn (n : Nat) : Part (Nat ⊕ Nat) :=
  match kind? ts n with
  | none => Part.some (.inl n)
  | some .classKeyword => (declaration ts n).map .inr
  | some _ => (stray ts n).map .inr

def run : Nat →. Nat :=
  PFun.fix (runTurn ts)

end

variable {ts : List Token} {n m n' : Nat} {t : Token} {us vs rest : List Token}

/-! ## Moves of the cursor -/

/-- The cursor is moved from `n` to `n'`, neither back nor past the end of the tokens, and `rest` is
left. -/
structure Moves (ts : List Token) (n : Nat) (rest : List Token) (n' : Nat) : Prop where
  onward : n ≤ n'
  inside : n' ≤ max n ts.length
  left : ts.drop n' = rest

theorem lt_length_of_drop (here : ts.drop n = t :: us) : n < ts.length := by
  have counted := congrArg List.length here
  rw [List.length_drop, List.length_cons] at counted
  omega

namespace Moves

theorem refl (here : ts.drop n = rest) : Moves ts n rest n :=
  ⟨Nat.le_refl n, Nat.le_max_left _ _, here⟩

theorem next (here : ts.drop n = t :: us) : Moves ts n us (n + 1) where
  onward := Nat.le_succ n
  inside := by
    have := lt_length_of_drop here
    omega
  left := by rw [← List.tail_drop, here, List.tail_cons]

theorem trans (first : Moves ts n us m) (second : Moves ts m vs n') : Moves ts n vs n' where
  onward := Nat.le_trans first.onward second.onward
  inside := by
    have := first.inside
    have := second.inside
    omega
  left := second.left

/-- Over as many tokens as are no longer left. -/
theorem eq_add (moves : Moves ts n rest n') (split : ts.drop n = us ++ rest) :
    n' = n + us.length := by
  have counted := congrArg List.length split
  rw [← moves.left, List.length_append, List.length_drop, List.length_drop] at counted
  have := moves.onward
  have := moves.inside
  omega

end Moves

/-- The reason to give up, if there is one, and the tokens that are left. -/
def verdict {α : Type} : Except Dropped (α × List Token) → Option DiagnosticCode × List Token
  | .ok (_, rest) => (none, rest)
  | .error dropped => (some dropped.cause.code, dropped.rest)

/-- A reading with the cursor comes to the same as one of the tokens from the cursor on. -/
structure Follows (ts : List Token) (n : Nat) (reading : Option DiagnosticCode × Nat)
    (verdict : Option DiagnosticCode × List Token) : Prop where
  code : reading.1 = verdict.1
  moves : Moves ts n verdict.2 reading.2

namespace Follows

variable {α : Type} {code : Option DiagnosticCode}

theorem of_ok {result : α × List Token}
    (follows : Follows ts n (code, m) (verdict (.ok result))) :
    code = none ∧ Moves ts n result.2 m :=
  ⟨follows.code, follows.moves⟩

theorem of_error {dropped : Dropped}
    (follows : Follows ts n (code, m) (verdict (α := α) (.error dropped))) :
    code = some dropped.cause.code ∧ Moves ts n dropped.rest m :=
  ⟨follows.code, follows.moves⟩

end Follows

theorem Moves.follows {reading : Option DiagnosticCode × Nat}
    {verdict : Option DiagnosticCode × List Token} (first : Moves ts n rest m)
    (second : Follows ts m reading verdict) : Follows ts n reading verdict :=
  ⟨second.code, first.trans second.moves⟩

/-! ## Single tokens and properties -/

theorem kind?_of_drop (here : ts.drop n = us) : kind? ts n = us.head?.map Token.kind := by
  rw [← here, List.head?_drop, kind?]

theorem bump?_of_drop (here : ts.drop n = us) : bump? ts n = us.head?.map fun _ => n + 1 := by
  rw [bump?, kind?_of_drop here, Option.map_map]
  rfl

theorem eat?_nil (here : ts.drop n = []) (kind : TokenKind) : eat? ts kind n = none := by
  simp [eat?, kind?_of_drop here]

theorem eat?_cons (here : ts.drop n = t :: us) (kind : TokenKind) :
    eat? ts kind n = if t.kind = kind then some (n + 1) else none := by
  simp [eat?, kind?_of_drop here, bump?_of_drop here]

theorem eatName?_eq (followers : List TokenKind) (n : Nat) :
    eatName? ts followers n = (Token.readName followers (ts.drop n)).map fun _ => n + 1 := by
  cases here : ts.drop n with
  | nil => simp [eatName?, kind?_of_drop here, Token.readName]
  | cons t us =>
    have after := kind?_of_drop (Moves.next here).left
    unfold eatName?
    rw [kind?_of_drop here, after, bump?_of_drop here]
    cases us <;> cases kind : t.kind <;> simp [Token.readName, kind]

theorem moves_readName {followers : List TokenKind} {name : Token}
    (read : Token.readName followers (ts.drop n) = some (name, rest)) : Moves ts n rest (n + 1) :=
  .next (Token.readName_eq_some read)

theorem eatProperty?_eq (star : Token) (n : Nat) :
    eatProperty? ts n = (Entry.readProperty star (ts.drop n)).map fun _ => n + 3 := by
  have second : kind? ts (n + 1) = (ts.drop n).tail.head?.map Token.kind :=
    kind?_of_drop List.tail_drop.symm
  have third : kind? ts (n + 2) = (ts.drop n).tail.tail.head?.map Token.kind :=
    kind?_of_drop (by rw [List.tail_drop, List.tail_drop])
  rw [eatProperty?, kind?_of_drop rfl, second, third]
  rcases ts.drop n with _ | ⟨name, _ | ⟨range, _ | ⟨last, us⟩⟩⟩
  · rfl
  · rfl
  · rfl
  · by_cases parts : name.isText && range.isText && last.kind == .semicolon <;>
      simp_all [Entry.readProperty, Token.isText]

theorem moves_readProperty {star : Token} {e : Entry}
    (read : Entry.readProperty star (ts.drop n) = some (e, rest)) : Moves ts n rest (n + 3) := by
  unfold Entry.readProperty at read
  split at read
  · rename_i here
    split at read
    · cases read
      have second := Moves.next here
      have third := Moves.next second.left
      exact (second.trans third).trans (.next third.left)
    · cases read
  · cases read

/-! ## Loops -/

theorem fix_of_left {α β : Type} {turn : α →. β ⊕ α} {a : α} {b : β}
    (left : turn a = Part.some (.inl b)) : turn.fix a = Part.some b :=
  Part.eq_some_iff.mpr (PFun.fix_stop (Part.eq_some_iff.mp left))

theorem fix_of_again {α β : Type} {turn : α →. β ⊕ α} {a a' : α}
    (again : turn a = Part.some (.inr a')) : turn.fix a = turn.fix a' :=
  PFun.fix_fwd_eq (Part.eq_some_iff.mp again)

/-- What is left of tokens when they are passed over up to one of the kinds in `before`, or through
one of the kinds in `through`. -/
def passOver (before through : List TokenKind) : List Token → List Token
  | [] => []
  | t :: us =>
    if t.kind ∈ before then t :: us
    else if t.kind ∈ through then us
    else passOver before through us

theorem passOver_entry (us : List Token) :
    passOver [.star, .rightBrace, .classKeyword] [.semicolon] us = (Entry.skip us).2 := by
  fun_induction Entry.skip us <;> simp_all [passOver]

theorem passOver_declaration (us : List Token) :
    passOver [.classKeyword] [.dot] us = (Declaration.skip us).2 := by
  fun_induction Declaration.skip us <;> simp_all [passOver]

theorem passOver_stray (us : List Token) :
    passOver [.classKeyword] [] us = us.dropWhile (·.kind != .classKeyword) := by
  induction us with
  | nil => rfl
  | cons t us ih => by_cases kind : t.kind = .classKeyword <;> simp [passOver, kind, ih]

theorem skip_ends (ts : List Token) (before through : List TokenKind) (n : Nat) :
    ∃ n', skip ts before through n = Part.some n' ∧
      Moves ts n (passOver before through (ts.drop n)) n' := by
  generalize here : ts.drop n = us
  induction us generalizing n with
  | nil =>
    have turn : skipTurn ts before through n = .inl n := by simp [skipTurn, kind?_of_drop here]
    exact ⟨n, fix_of_left (congrArg Part.some turn), .refl here⟩
  | cons t us ih =>
    have kind : kind? ts n = some t.kind := kind?_of_drop here
    have next := Moves.next here
    rw [passOver]
    by_cases stop : t.kind ∈ before
    · have turn : skipTurn ts before through n = .inl n := by simp [skipTurn, kind, stop]
      refine ⟨n, fix_of_left (congrArg Part.some turn), ?_⟩
      rw [if_pos stop]
      exact .refl here
    by_cases last : t.kind ∈ through
    · have turn : skipTurn ts before through n = .inl (n + 1) := by
        simp [skipTurn, kind, stop, last]
      refine ⟨n + 1, fix_of_left (congrArg Part.some turn), ?_⟩
      rw [if_neg stop, if_pos last]
      exact next
    · have turn : skipTurn ts before through n = .inr (n + 1) := by
        simp [skipTurn, kind, stop, last]
      obtain ⟨n', ends, moves⟩ := ih (n + 1) next.left
      refine ⟨n', (fix_of_again (congrArg Part.some turn)).trans ends, ?_⟩
      rw [if_neg stop, if_neg last]
      exact next.trans moves

theorem skipEntry_ends (ts : List Token) (n : Nat) :
    ∃ n', skipEntry ts n = Part.some n' ∧ Moves ts n (Entry.skip (ts.drop n)).2 n' := by
  rw [← passOver_entry]
  exact skip_ends ts _ _ n

theorem skipDeclaration_ends (ts : List Token) (n : Nat) :
    ∃ n', skipDeclaration ts n = Part.some n' ∧
      Moves ts n (Declaration.skip (ts.drop n)).2 n' := by
  rw [← passOver_declaration]
  exact skip_ends ts _ _ n

/-- A turn that does not leave the block reads one item. Passing over one stops in front of `*`, `}`
and `class`, but the item's own first token is consumed before that: a star by the turn, and any
other token because it is none of these. -/
theorem blockTurn_reads (here : ts.drop n = t :: us) (notClosed : t.kind ≠ .rightBrace)
    (notClass : t.kind ≠ .classKeyword) :
    ∃ n', blockTurn ts n = Part.some (.inr n') ∧ Moves ts n (Entry.read t us).2 n' := by
  have next := Moves.next here
  have kind : kind? ts n = some t.kind := kind?_of_drop here
  by_cases star : t.kind = .star
  · have turn : blockTurn ts n =
        match eatProperty? ts (n + 1) with
        | some n => Part.some (.inr n)
        | none => (skipEntry ts (n + 1)).map .inr := by
      simp only [blockTurn, kind, star]
    rw [turn, eatProperty?_eq t, next.left]
    cases property : Entry.readProperty t us with
    | some result =>
      have moves := moves_readProperty (next.left.symm ▸ property)
      refine ⟨n + 1 + 3, rfl, ?_⟩
      simpa [Entry.read, star, property] using next.trans moves
    | none =>
      obtain ⟨n', ends, moves⟩ := skipEntry_ends ts (n + 1)
      rw [next.left] at moves
      refine ⟨n', by simp [ends], ?_⟩
      simpa [Entry.read, star, property] using next.trans moves
  · have turn : blockTurn ts n = (skipEntry ts n).map .inr := by
      cases other : t.kind <;> simp_all [blockTurn]
    obtain ⟨n', ends, moves⟩ := skipEntry_ends ts n
    refine ⟨n', by simp [turn, ends], ?_⟩
    rw [here] at moves
    cases other : t.kind <;> simp_all [Entry.read, Entry.skip]

theorem block_ends (ts : List Token) (n : Nat) :
    ∃ reading, block ts n = Part.some reading ∧
      Follows ts n reading
        (if (Entry.readAll (ts.drop n)).2.1.isSome then none else some .unterminatedBlock,
          (Entry.readAll (ts.drop n)).2.2) := by
  generalize here : ts.drop n = us
  fun_induction Entry.readAll us generalizing n with
  | case1 =>
    refine ⟨(some .unterminatedBlock, n), fix_of_left ?_, rfl, .refl here⟩
    simp [blockTurn, kind?_of_drop here]
  | case2 t us closed =>
    refine ⟨(none, n + 1), fix_of_left ?_, rfl, .next here⟩
    simp [blockTurn, kind?_of_drop here, closed]
  | case3 t us _ left =>
    refine ⟨(some .unterminatedBlock, n), fix_of_left ?_, rfl, .refl here⟩
    simp [blockTurn, kind?_of_drop here, left]
  | case4 t us notClosed notClass ih =>
    obtain ⟨m, turn, moves⟩ := blockTurn_reads here notClosed notClass
    obtain ⟨reading, ends, follows⟩ := ih m moves.left
    exact ⟨reading, (fix_of_again turn).trans ends, moves.follows follows⟩

/-! ## Declarations and stray runs -/

theorem header_follows (ts : List Token) (keyword : Token) (n : Nat) :
    Follows ts n (header ts n) (verdict (Declaration.readHeader keyword (ts.drop n))) := by
  unfold header Declaration.readHeader
  rw [eatName?_eq]
  cases read : Token.readName [.extendsKeyword, .leftBrace, .dot] (ts.drop n) with
  | none => exact ⟨rfl, .refl rfl⟩
  | some result =>
    obtain ⟨name, us⟩ := result
    have first := moves_readName read
    refine first.follows ?_
    rw [Option.map_some]
    cases us with
    | nil =>
      simp only [eat?_nil first.left]
      exact ⟨rfl, .refl first.left⟩
    | cons t us =>
      simp only [eat?_cons first.left]
      by_cases extend : t.kind = .extendsKeyword
      · have second := Moves.next first.left
        simp only [extend, if_true, eatName?_eq, second.left]
        cases parent : Token.readName [.leftBrace, .dot] us with
        | none => exact ⟨rfl, second⟩
        | some result =>
          exact ⟨rfl, second.trans (moves_readName (second.left.symm ▸ parent))⟩
      · simp only [extend, if_false]
        exact ⟨rfl, .refl first.left⟩

theorem body_ends (ts : List Token) (h : Header) (n : Nat) :
    ∃ reading, body ts n = Part.some reading ∧
      Follows ts n reading (verdict (Declaration.readBody h (ts.drop n))) := by
  unfold body Declaration.readBody
  cases here : ts.drop n with
  | nil =>
    rw [eat?_nil here]
    exact ⟨(none, n), rfl, rfl, .refl here⟩
  | cons t us =>
    rw [eat?_cons here]
    by_cases opening : t.kind = .leftBrace
    · have next := Moves.next here
      obtain ⟨reading, ends, follows⟩ := block_ends ts (n + 1)
      simp only [opening, if_true]
      refine ⟨reading, ends, next.follows ?_⟩
      rw [next.left] at follows
      rcases read : Entry.readAll us with ⟨entries, closing, rest⟩
      rw [read] at follows
      cases closing <;> exact follows
    · simp only [opening, if_false]
      exact ⟨(none, n), rfl, rfl, .refl here⟩

theorem dot_follows (ts : List Token) (h : Header) (b : Option Body) (n : Nat) :
    Follows ts n (dot ts n) (verdict (Declaration.readDot h b (ts.drop n))) := by
  -- whether there is a parent or a block changes the message, but not the code
  have code : ∀ found, (if h.parent.isNone && b.isNone then Refusal.noBody h.name.text found
      else .noDot h.name.text found).code = .malformedDeclaration := by
    intro found
    split <;> rfl
  unfold dot Declaration.readDot
  cases here : ts.drop n with
  | nil =>
    rw [eat?_nil here]
    exact ⟨congrArg some (code none).symm, .refl here⟩
  | cons t us =>
    rw [eat?_cons here]
    by_cases last : t.kind = .dot
    · simp only [last, if_true]
      exact ⟨rfl, .next here⟩
    · simp only [last, if_false]
      exact ⟨congrArg some (code (some t)).symm, .refl here⟩

theorem declarationBody_ends (ts : List Token) (keyword : Token) (n : Nat) :
    ∃ reading, declarationBody ts n = Part.some reading ∧
      Follows ts n reading (verdict (Declaration.read keyword (ts.drop n))) := by
  have first := header_follows ts keyword n
  unfold declarationBody Declaration.read
  generalize header ts n = reading at first ⊢
  obtain ⟨code, m⟩ := reading
  cases read : Declaration.readHeader keyword (ts.drop n) with
  | error dropped =>
    rw [read] at first
    obtain ⟨rfl, moves⟩ := first.of_error
    exact ⟨_, rfl, rfl, moves⟩
  | ok result =>
    obtain ⟨h, us⟩ := result
    rw [read] at first
    obtain ⟨rfl, moves⟩ := first.of_ok
    obtain ⟨⟨code, k⟩, ends, second⟩ := body_ends ts h m
    rw [moves.left] at second
    simp only [ends, Part.bind_some]
    cases read : Declaration.readBody h us with
    | error dropped =>
      rw [read] at second
      obtain ⟨rfl, moves'⟩ := second.of_error
      exact ⟨_, rfl, rfl, moves.trans moves'⟩
    | ok result =>
      obtain ⟨b, vs⟩ := result
      rw [read] at second
      obtain ⟨rfl, moves'⟩ := second.of_ok
      have third := dot_follows ts h b k
      rw [moves'.left] at third
      exact ⟨_, rfl, (moves.trans moves').follows third⟩

theorem declaration_ends (here : ts.drop n = t :: us) :
    ∃ n', declaration ts n = Part.some n' ∧ Moves ts n (Block.readDeclaration t us).2 n' := by
  have next := Moves.next here
  obtain ⟨⟨code, m⟩, ends, follows⟩ := declarationBody_ends ts t (n + 1)
  rw [next.left] at follows
  unfold declaration Block.readDeclaration
  rw [bump?_of_drop here]
  simp only [List.head?_cons, Option.map_some, ends, Part.bind_some]
  cases read : Declaration.read t us with
  | ok result =>
    rw [read] at follows
    obtain ⟨rfl, moves⟩ := follows.of_ok
    exact ⟨m, rfl, next.trans moves⟩
  | error dropped =>
    obtain ⟨passed, entries, cause, rest⟩ := dropped
    rw [read] at follows
    obtain ⟨rfl, moves⟩ := follows.of_error
    obtain ⟨n', skips, moves'⟩ := skipDeclaration_ends ts m
    rw [moves.left] at moves'
    cases cause with
    | unclosed => exact ⟨m, rfl, next.trans moves⟩
    | noName | noParent | noBody | noDot => exact ⟨n', skips, (next.trans moves).trans moves'⟩

theorem stray_ends (here : ts.drop n = t :: us) :
    ∃ n', stray ts n = Part.some n' ∧
      Moves ts n (us.dropWhile (·.kind != .classKeyword)) n' := by
  have next := Moves.next here
  obtain ⟨n', skips, moves⟩ := skip_ends ts [.classKeyword] [] (n + 1)
  rw [next.left, passOver_stray] at moves
  refine ⟨n', ?_, next.trans moves⟩
  rw [stray, bump?_of_drop here]
  exact skips

end Cursor

end Taxonomy
