import Taxonomy.Token.Lexer
import Taxonomy.Proofs.Schema.Cursor

/-!
# The cursor makes progress

A turn of a loop that does not leave it consumes at least one token (`Advances`), so a loop cannot
take more turns than there are tokens (`Turns.add_le`). The top-level steps are the blocks that the
tokens are cut into, one each (`turns_of_blocks`), and behind the last of them no token is left
(`run_eq`).
-/

namespace Taxonomy

namespace Cursor

/-- So many turns of a loop lead from one state to another, and none of them leaves it. -/
inductive Turns {α β : Type} (turn : α →. β ⊕ α) : Nat → α → α → Prop
  | none (a : α) : Turns turn 0 a a
  | next {k : Nat} {a b c : α} (first : turn a = Part.some (.inr b)) (later : Turns turn k b c) :
    Turns turn (k + 1) a c

/-- Each turn comes to an end. It leaves the loop or consumes at least one token, and no more than
there are. -/
def Advances {β : Type} (ts : List Token) (turn : Nat →. β ⊕ Nat) : Prop :=
  ∀ n, (∃ b, turn n = Part.some (.inl b)) ∨
    ∃ n', turn n = Part.some (.inr n') ∧ n < n' ∧ n' ≤ ts.length

/-- What the top-level steps are made of. -/
inductive Operation
  | bump
  | eat (kind : TokenKind)
  | eatName (followers : List TokenKind)
  | eatProperty (star : Token)
  | skipEntry
  | skipDeclaration
  | block
  | declarationBody (keyword : Token)
  | declaration
  | stray

namespace Operation

/-- The cursor after the operation, if that ends. -/
def stop (ts : List Token) (n : Nat) : Operation → Part Nat
  | bump => Part.some ((bump? ts n).getD n)
  | eat kind => Part.some ((eat? ts kind n).getD n)
  | eatName followers => Part.some ((eatName? ts followers n).getD n)
  | eatProperty _ => Part.some ((eatProperty? ts n).getD n)
  | skipEntry => Cursor.skipEntry ts n
  | skipDeclaration => Cursor.skipDeclaration ts n
  | block => (Cursor.block ts n).map Prod.snd
  | declarationBody _ => (Cursor.declarationBody ts n).map Prod.snd
  | declaration => Cursor.declaration ts n
  | stray => Cursor.stray ts n

/-- The tokens that the reader of blocks leaves in place of the operation. -/
def left (us : List Token) : Operation → List Token
  | bump => us.tail
  | eat kind => if us.head?.map Token.kind = some kind then us.tail else us
  | eatName followers => ((Token.readName followers us).map Prod.snd).getD us
  | eatProperty star => ((Entry.readProperty star us).map Prod.snd).getD us
  | skipEntry => (Entry.skip us).2
  | skipDeclaration => (Declaration.skip us).2
  | block => (Entry.readAll us).2.2
  | declarationBody keyword => (verdict (Declaration.read keyword us)).2
  | declaration =>
    match us with
    | [] => []
    | t :: us => (Block.readDeclaration t us).2
  | stray => us.tail.dropWhile (·.kind != .classKeyword)

end Operation

variable {ts : List Token} {n n' : Nat} {t : Token} {us : List Token}

/-! ## Turns -/

namespace Turns

variable {α β : Type} {k : Nat}

theorem fix_eq {turn : α →. β ⊕ α} {a b : α} (turns : Turns turn k a b) :
    turn.fix a = turn.fix b := by
  induction turns with
  | none => rfl
  | next first _ ih => rw [fix_of_again first, ih]

theorem add_le {turn : Nat →. β ⊕ Nat} (advances : Advances ts turn)
    (turns : Turns turn k n n') : n + k ≤ n' ∧ n' ≤ max n ts.length := by
  induction turns with
  | none n => exact ⟨Nat.le_refl n, Nat.le_max_left _ _⟩
  | @next k n m n' first _ ih =>
    rcases advances n with ⟨_, leaves⟩ | ⟨m', again, forward, inside⟩
    · cases Part.some_injective (first.symm.trans leaves)
    · cases Part.some_injective (first.symm.trans again)
      omega

end Turns

theorem advances_skipTurn (before through : List TokenKind) :
    Advances ts fun n => Part.some (skipTurn ts before through n) := by
  intro n
  cases here : ts.drop n with
  | nil => exact .inl ⟨n, by simp [skipTurn, kind?_of_drop here]⟩
  | cons t us =>
    have kind : kind? ts n = some t.kind := kind?_of_drop here
    by_cases stop : t.kind ∈ before
    · exact .inl ⟨n, by simp [skipTurn, kind, stop]⟩
    by_cases last : t.kind ∈ through
    · exact .inl ⟨n + 1, by simp [skipTurn, kind, stop, last]⟩
    · refine .inr ⟨n + 1, by simp [skipTurn, kind, stop, last], Nat.lt_succ_self n, ?_⟩
      exact lt_length_of_drop here

/-- Fewer tokens are left, so some were consumed. -/
theorem Moves.advances (here : ts.drop n = t :: us) {rest : List Token} (moves : Moves ts n rest n')
    (fewer : rest.length ≤ us.length) : n < n' ∧ n' ≤ ts.length := by
  have before := congrArg List.length here
  have after := congrArg List.length moves.left
  have inside := moves.inside
  rw [List.length_drop, List.length_cons] at before
  rw [List.length_drop] at after
  omega

theorem advances_blockTurn : Advances ts (blockTurn ts) := by
  intro n
  cases here : ts.drop n with
  | nil => exact .inl ⟨_, by rw [blockTurn, kind?_of_drop here]; rfl⟩
  | cons t us =>
    by_cases closed : t.kind = .rightBrace
    · exact .inl ⟨(none, n + 1), by simp [blockTurn, kind?_of_drop here, closed]⟩
    by_cases left : t.kind = .classKeyword
    · exact .inl ⟨(some .unterminatedBlock, n), by simp [blockTurn, kind?_of_drop here, left]⟩
    obtain ⟨n', turn, moves⟩ := blockTurn_reads here closed left
    exact .inr ⟨n', turn, moves.advances here (Entry.length_read_le t us)⟩

/-- A top-level step consumes the tokens of one block. -/
theorem runTurn_takes (here : ts.drop n = t :: us) :
    ∃ b rest n', runTurn ts n = Part.some (.inr n') ∧ Moves ts n rest n' ∧
      t :: us = b.tokens ++ rest ∧ Block.ofTokens (t :: us) = b :: Block.ofTokens rest := by
  have kind : kind? ts n = some t.kind := kind?_of_drop here
  rw [Block.ofTokens]
  by_cases keyword : t.kind = .classKeyword
  · obtain ⟨n', ends, moves⟩ := declaration_ends here
    refine ⟨_, _, n', ?_, moves, (Block.readDeclaration_append t us).symm, if_pos keyword⟩
    simp [runTurn, kind, keyword, ends]
  · obtain ⟨n', ends, moves⟩ := stray_ends here
    refine ⟨_, _, n', ?_, moves, ?_, if_neg keyword⟩
    · cases other : t.kind <;> simp_all [runTurn]
    · rw [Block.tokens, List.cons_append, List.takeWhile_append_dropWhile]

theorem advances_runTurn : Advances ts (runTurn ts) := by
  intro n
  cases here : ts.drop n with
  | nil => exact .inl ⟨n, by simp [runTurn, kind?_of_drop here]⟩
  | cons t us =>
    obtain ⟨b, rest, n', turn, moves, split, -⟩ := runTurn_takes here
    have counted := congrArg List.length split
    have nonempty := List.length_pos_iff.mpr b.tokens_ne_nil
    rw [List.length_cons, List.length_append] at counted
    exact .inr ⟨n', turn, moves.advances here (by omega)⟩

/-- After as many top-level steps as some of the blocks, from the first on, the cursor is behind
their tokens. -/
theorem turns_of_blocks {before after : List Block}
    (blocks : Block.ofTokens (ts.drop n) = before ++ after) :
    Turns (runTurn ts) before.length n (n + (before.flatMap Block.tokens).length) := by
  induction before generalizing n with
  | nil => exact .none n
  | cons b before ih =>
    cases here : ts.drop n with
    | nil =>
      rw [here, Block.ofTokens] at blocks
      cases blocks
    | cons t us =>
      obtain ⟨first, rest, n', turn, moves, split, cut⟩ := runTurn_takes here
      rw [here, cut, ← moves.left] at blocks
      obtain ⟨rfl, later⟩ := List.cons.inj blocks
      have turns := ih later
      rw [moves.eq_add (here.trans split)] at turn turns
      rw [List.flatMap_cons, List.length_append, ← Nat.add_assoc]
      exact .next turn turns

/-- A run ends with every token consumed. -/
theorem run_eq (n : Nat) : run ts n = Part.some (max n ts.length) := by
  have turns := turns_of_blocks (List.append_nil (Block.ofTokens (ts.drop n))).symm
  rw [Block.ofTokens_append, List.length_drop] at turns
  have behind : n + (ts.length - n) = max n ts.length := by omega
  have last : ts.drop (max n ts.length) = [] := List.drop_of_length_le (Nat.le_max_right _ _)
  rw [run, turns.fix_eq, behind]
  exact fix_of_left (by simp [runTurn, kind?_of_drop last])

/-! ## Operations -/

/-- An operation that consumes something or does not apply. -/
theorem moves_getD {α : Type} {read : Option (α × List Token)}
    (moves : ∀ result ∈ read, Moves ts n result.2 n') :
    Moves ts n ((read.map Prod.snd).getD (ts.drop n)) ((read.map fun _ => n').getD n) := by
  cases read with
  | none => exact .refl rfl
  | some result => exact moves result rfl

theorem exists_stop (op : Operation) (n : Nat) :
    ∃ n', op.stop ts n = Part.some n' ∧ Moves ts n (op.left (ts.drop n)) n' := by
  cases op with
  | bump =>
    cases here : ts.drop n with
    | nil => exact ⟨n, by simp [Operation.stop, bump?_of_drop here], .refl here⟩
    | cons t us => exact ⟨n + 1, by simp [Operation.stop, bump?_of_drop here], .next here⟩
  | eat kind =>
    cases here : ts.drop n with
    | nil => exact ⟨n, by simp [Operation.stop, eat?_nil here], .refl here⟩
    | cons t us =>
      by_cases found : t.kind = kind
      · refine ⟨n + 1, by simp [Operation.stop, eat?_cons here, found], ?_⟩
        simpa [Operation.left, found] using Moves.next here
      · refine ⟨n, by simp [Operation.stop, eat?_cons here, found], ?_⟩
        simpa [Operation.left, found] using Moves.refl here
  | eatName followers =>
    refine ⟨_, by rw [Operation.stop, eatName?_eq], moves_getD ?_⟩
    exact fun result read => moves_readName read
  | eatProperty star =>
    refine ⟨_, by rw [Operation.stop, eatProperty?_eq star], moves_getD ?_⟩
    exact fun result read => moves_readProperty read
  | skipEntry => exact skipEntry_ends ts n
  | skipDeclaration => exact skipDeclaration_ends ts n
  | block =>
    obtain ⟨reading, ends, follows⟩ := block_ends ts n
    exact ⟨reading.2, by simp [Operation.stop, ends], follows.moves⟩
  | declarationBody keyword =>
    obtain ⟨reading, ends, follows⟩ := declarationBody_ends ts keyword n
    exact ⟨reading.2, by simp [Operation.stop, ends], follows.moves⟩
  | declaration =>
    cases here : ts.drop n with
    | nil => exact ⟨n, by simp [Operation.stop, declaration, bump?_of_drop here], .refl here⟩
    | cons t us => exact declaration_ends here
  | stray =>
    cases here : ts.drop n with
    | nil => exact ⟨n, by simp [Operation.stop, stray, bump?_of_drop here], .refl here⟩
    | cons t us => exact stray_ends here

/-- Reading the tokens with a cursor makes progress, wherever the cursor is. -/
structure MakesProgress (ts : List Token) : Prop where
  /-- Every operation ends. It moves the cursor neither back nor past the end of the tokens, to
  where the tokens begin that the reader of blocks leaves. -/
  operation : ∀ (op : Operation) (n : Nat),
    ∃ n', op.stop ts n = Part.some n' ∧ Moves ts n (op.left (ts.drop n)) n'
  passing : ∀ before through, Advances ts fun n => Part.some (skipTurn ts before through n)
  items : Advances ts (blockTurn ts)
  topLevel : Advances ts (runTurn ts)
  /-- The loop of top-level steps ends with no token left. -/
  consumed : ∀ n, run ts n = Part.some (max n ts.length)
  /-- The top-level steps are the blocks. -/
  steps : ∀ n before after, Block.ofTokens (ts.drop n) = before ++ after →
    Turns (runTurn ts) before.length n (n + (before.flatMap Block.tokens).length)
  /-- There are no more of them than tokens consumed. -/
  bounded : ∀ n k n', Turns (runTurn ts) k n n' → n + k ≤ n' ∧ n' ≤ max n ts.length

/-- Reading makes progress, whatever the tokens are. -/
theorem makesProgress (ts : List Token) : MakesProgress ts where
  operation := exists_stop
  passing := advances_skipTurn
  items := advances_blockTurn
  topLevel := advances_runTurn
  consumed := run_eq
  steps _ _ _ := turns_of_blocks
  bounded _ _ _ turns := turns.add_le advances_runTurn

/-- A stray word, a declaration without a dot that has a lone `;`, an unfinished property and a lone
word in its block, one without a name, and a keyword at the end. -/
theorem makesProgress_through_junk :
    let ts := tokenize "stray class A \x7b ; * a *b C; d \x7d x class \x7b . class"
    (∃ n', Operation.block.stop ts 4 = Part.some n' ∧ Moves ts 4 (ts.drop 13) n') ∧
      run ts 0 = Part.some 18 ∧ Turns (runTurn ts) 4 0 18 ∧ 0 + 4 ≤ 18 := by
  intro ts
  have progress := makesProgress ts
  have left : Operation.left (ts.drop 4) .block = ts.drop 13 := by decide +kernel
  have count : max 0 ts.length = 18 := by decide +kernel
  have blocks : (Block.ofTokens ts).length = 4 := by decide +kernel
  have turns := progress.steps 0 (Block.ofTokens ts) [] (List.append_nil _).symm
  have consumed := progress.consumed 0
  rw [blocks, Block.ofTokens_append, Nat.zero_add, ← Nat.zero_max ts.length, count] at turns
  rw [count] at consumed
  exact ⟨left ▸ progress.operation .block 4, consumed, turns,
    (progress.bounded 0 4 18 turns).1⟩

end Cursor

end Taxonomy
