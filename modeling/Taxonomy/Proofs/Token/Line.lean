import Taxonomy.Proofs.Token.Excerpt
import Taxonomy.Schema.Parse

/-!
# Tokens on one line

A message quotes the tokens of a span on one line: with one space where there are blanks between two
of them, and nothing where there are none (`excerpt_of_run`). So nothing in the quoted text is blank
but single spaces, whatever separates the tokens.
-/

namespace Taxonomy

/-! ## Texts without line breaks -/

/-- The text has no blanks but spaces. -/
def OneLine (s : String) : Prop :=
  ∀ c ∈ s.toList, Text.isBlank c → c = ' '

instance (s : String) : Decidable (OneLine s) :=
  List.decidableBAll (fun c => Text.isBlank c → c = ' ') s.toList

theorem oneLine_append {s t : String} : OneLine (s ++ t) ↔ OneLine s ∧ OneLine t := by
  rw [OneLine, String.toList_append, List.forall_mem_append]
  rfl

theorem oneLine_of_visible {s : String} (visible : ∀ c ∈ s.toList, Text.isBlank c = false) :
    OneLine s := by
  intro c member blank
  rw [visible c member] at blank
  cases blank

/-- A number is written with digits only. -/
theorem oneLine_toString_nat (n : Nat) : OneLine (toString n) := by
  refine oneLine_of_visible fun c member => ?_
  have digit := Nat.isDigit_of_mem_toDigits (by decide) (by decide) (Nat.toList_repr ▸ member)
  simp only [Char.isDigit, Bool.and_eq_true, decide_eq_true_eq, UInt32.le_iff_toNat_le] at digit
  simp only [Text.isBlank, Char.toNat, Bool.or_eq_false_iff, Bool.and_eq_false_iff,
    decide_eq_false_iff_not, beq_eq_false_iff_ne]
  have low : 48 ≤ c.val.toNat := digit.1
  have high : c.val.toNat ≤ 57 := digit.2
  omega

/-! ## A run of tokens -/

namespace Token

/-- The texts of tokens, with a space between two that do not touch. -/
def line : List Token → List Char
  | [] => []
  | [t] => t.text.toList
  | t :: u :: ts =>
    t.text.toList ++ ((if t.span.stop = u.span.start then [] else [' ']) ++ line (u :: ts))

/-- Tokens as messages quote them: on one line, cut after forty characters. -/
def quote (ts : List Token) : String :=
  if (line ts).length ≤ 40 then String.ofList (line ts)
  else String.ofList ((line ts).take 40) ++ "..."

/-- The tokens of a text that lie in a span. -/
def inside (text : String) (s : Span) : List Token :=
  (tokenize text).filter fun t => t.span.Within s

theorem oneLine_line {ts : List Token}
    (visible : ∀ t ∈ ts, ∀ c ∈ t.text.toList, Text.isBlank c = false) :
    ∀ c ∈ line ts, Text.isBlank c → c = ' ' := by
  fun_induction line ts with
  | case1 => simp
  | case2 t => exact oneLine_of_visible (visible t (by simp))
  | case3 t u ts ih =>
    rw [List.forall_mem_cons] at visible
    rw [List.forall_mem_append, List.forall_mem_append]
    refine ⟨oneLine_of_visible visible.1, ?_, ih visible.2⟩
    split <;> simp

theorem oneLine_quote {ts : List Token}
    (visible : ∀ t ∈ ts, ∀ c ∈ t.text.toList, Text.isBlank c = false) :
    OneLine (quote ts) := by
  have line := oneLine_line visible
  unfold quote
  split
  · rwa [OneLine, String.toList_ofList]
  · refine oneLine_append.mpr ⟨?_, by decide⟩
    rw [OneLine, String.toList_ofList]
    exact fun c member => line c (List.mem_of_mem_take member)

/-- The tokens between the two ends of a run of tokens are those of the run. -/
theorem inside_coverAll {text : String} {first : Token} {rest : List Token}
    (run : first :: rest <:+: tokenize text) :
    inside text (coverAll first rest) = first :: rest := by
  obtain ⟨us, vs, split⟩ := run
  rw [List.append_assoc] at split
  have order := inOrder_tokenize text
  rw [← split] at order
  have nodup := order.nodup
  rw [List.nodup_append, List.nodup_append] at nodup
  obtain ⟨-, ⟨-, -, after⟩, before⟩ := nodup
  have front : us.filter (fun t => t.span.Within (coverAll first rest)) = [] := by
    refine List.filter_eq_nil_iff.mpr fun t member within => ?_
    have own := order.mem_of_within (List.mem_append_left _ member) (of_decide_eq_true within)
    exact before t member t (List.mem_append_left _ own) rfl
  have back : vs.filter (fun t => t.span.Within (coverAll first rest)) = [] := by
    refine List.filter_eq_nil_iff.mpr fun t member within => ?_
    have own := order.mem_of_within (List.mem_append_right _ (List.mem_append_right _ member))
      (of_decide_eq_true within)
    exact after t own t member rfl
  have here : (first :: rest).filter (fun t => t.span.Within (coverAll first rest)) =
      first :: rest := by
    refine List.filter_eq_self.mpr fun t member => decide_eq_true ?_
    rw [order.middle.coverAll_eq]
    exact order.middle.within_ends (List.cons_ne_nil _ _) t member
  rw [inside, ← split, List.filter_append, List.filter_append, front, here, back, List.nil_append,
    List.append_nil]

end Token

/-- Squeezed, the text of pieces has one space where there are blanks between two of them. -/
theorem Piece.squeeze_joined_eq {ps : List Piece} (visible : Visible ps) (pos : Nat) :
    Text.squeeze (joined ps) = Token.line (tokensAt pos ps) := by
  fun_induction joined ps generalizing pos with
  | case1 => rfl
  | case2 p =>
    obtain ⟨-, notBlank⟩ := visible p List.mem_cons_self
    rw [tokensAt, tokensAt, Token.line, Token.ofChars, String.toList_ofList,
      ← List.append_nil p.lexeme, Text.squeeze_append notBlank, Text.squeeze]
  | case3 p q ps ih =>
    obtain ⟨⟨-, notBlank⟩, later⟩ := visible_cons.mp visible
    obtain ⟨c, cs, next, first⟩ := later.exists_joined
    have rest := ih later (pos + Text.byteLength p.chars)
    rw [chars, List.append_assoc, Text.squeeze_append notBlank, tokensAt, tokensAt, Token.line,
      ← tokensAt, ← rest, Token.ofChars, String.toList_ofList]
    congr 1
    by_cases none : p.gap = []
    · simp [none, Token.ofChars, chars]
    · have apart : pos + Text.byteLength p.lexeme ≠ pos + Text.byteLength p.chars := by
        have := Token.byteLength_pos none
        rw [chars, Text.byteLength_append]
        omega
      rw [next, Text.squeeze_gap p.blank none first, Token.ofChars, if_neg apart]
      rfl

/-- What a message quotes of the span of a run of tokens are these tokens. -/
theorem excerpt_of_run {text : String} {first : Token} {rest : List Token}
    (run : first :: rest <:+: tokenize text) :
    (Source.ofText text).excerpt (Token.coverAll first rest) = Token.quote (first :: rest) := by
  obtain ⟨us, vs, split⟩ := run
  rw [List.append_assoc] at split
  obtain ⟨s, isOf⟩ := Spacing.exists_isOf text
  obtain ⟨-, here, -, -, -, -, readable, same, stands⟩ := isOf.exists_run split.symm
  have collapsed : Text.collapse (Text.slice text.toList (Token.coverAll first rest)) =
      Token.line (first :: rest) := by
    rw [stands.slice_eq, readable.visible.collapse_joined, Piece.squeeze_joined_eq readable.visible,
      ← same]
  rw [Source.excerpt, Source.ofText, collapsed, Token.quote, Text.clip, Source.excerptLimit]
  by_cases short : (Token.line (first :: rest)).length ≤ 40
  · rw [if_neg (Nat.not_lt.mpr short), if_pos short]
  · rw [if_pos (Nat.not_le.mp short), if_neg short, String.ofList_append]

/-- So it can be told from the span which tokens are quoted. -/
theorem quote_inside_of_run {text : String} {first : Token} {rest : List Token}
    (run : first :: rest <:+: tokenize text) :
    Token.quote (Token.inside text (Token.coverAll first rest)) =
      (Source.ofText text).excerpt (Token.coverAll first rest) := by
  rw [Token.inside_coverAll run, excerpt_of_run run]

end Taxonomy
