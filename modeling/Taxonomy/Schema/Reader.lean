import Taxonomy.Schema.Reader.Declaration

/-!
# Cutting tokens into blocks

Each step takes tokens from the front and returns the rest, which is shorter: `Block.ofTokens` reads
block after block until none is left.
-/

namespace Taxonomy

namespace Block

/-- The block of a declaration given up: nothing more is passed over when its property block was
left open, since that ends where the next declaration can start. -/
def ofDropped (keyword : Token) (d : Dropped) : Block × List Token :=
  match d.cause with
  | .unclosed _ => (.abandoned keyword d.read d.entries d.cause, d.rest)
  | _ =>
    (.abandoned keyword (d.read ++ (Declaration.skip d.rest).1) d.entries d.cause,
      (Declaration.skip d.rest).2)

/-- The block that starts with the keyword `class`, and the rest. -/
def readDeclaration (keyword : Token) (ts : List Token) : Block × List Token :=
  match Declaration.read keyword ts with
  | .ok (d, rest) => (.declared d, rest)
  | .error dropped => ofDropped keyword dropped

theorem readDeclaration_append (keyword : Token) (ts : List Token) :
    (readDeclaration keyword ts).1.tokens ++ (readDeclaration keyword ts).2 = keyword :: ts := by
  have h := Declaration.read_append keyword ts
  unfold readDeclaration
  cases heq : Declaration.read keyword ts with
  | ok r => simpa [heq, tokens] using h
  | error dropped =>
    simp only [heq] at h
    cases dropped with
    | mk read entries cause rest =>
      simp only at h
      cases cause <;> simp [ofDropped, tokens, h, Declaration.skip_append]

theorem tokens_ne_nil (b : Block) : b.tokens ≠ [] := by
  cases b <;> simp [tokens, Declaration.tokens, Header.tokens]

theorem length_readDeclaration_le (keyword : Token) (ts : List Token) :
    (readDeclaration keyword ts).2.length ≤ ts.length := by
  have h := congrArg List.length (readDeclaration_append keyword ts)
  have := List.length_pos_iff.mpr (tokens_ne_nil (readDeclaration keyword ts).1)
  simp only [List.length_append, List.length_cons] at h
  omega

/-- The blocks that a schema's tokens are cut into. A stray run goes on up to the next `class`. -/
def ofTokens : List Token → List Block
  | [] => []
  | t :: ts =>
    if t.kind = .classKeyword then
      (readDeclaration t ts).1 :: ofTokens (readDeclaration t ts).2
    else
      .stray t (ts.takeWhile (·.kind != .classKeyword)) ::
        ofTokens (ts.dropWhile (·.kind != .classKeyword))
termination_by ts => ts.length
decreasing_by
  · exact Nat.lt_succ_of_le (length_readDeclaration_le t ts)
  · exact Nat.lt_succ_of_le (List.dropWhile_sublist _).length_le

/-- No token is lost and none is in two blocks. -/
theorem ofTokens_append (ts : List Token) : (ofTokens ts).flatMap tokens = ts := by
  fun_induction ofTokens ts with
  | case1 => rfl
  | case2 t ts _ ih => simp [ih, readDeclaration_append]
  | case3 t ts _ ih => simp [ih, tokens]

end Block

end Taxonomy
