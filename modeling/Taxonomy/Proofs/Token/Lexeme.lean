import Taxonomy.Proofs.Token.Cut

/-!
# Lexemes

A lexeme is a text that is read as one token and can stand for a name. What stands for a name in a
text is one (`isLexeme_of_mem_tokenize`), and written anywhere else it is read as that token again,
if what follows ends the word (`tokensFrom_lexeme`).
-/

namespace Taxonomy

/-- The text is read as one token that is all of it, a word or a keyword. -/
def IsLexeme (text : String) : Prop :=
  tokenize text = [⟨text, ⟨0, Text.byteLength text.toList⟩⟩] ∧
    (TokenKind.ofText text).isText

instance (text : String) : Decidable (IsLexeme text) :=
  inferInstanceAs (Decidable (_ ∧ _))

namespace Token

theorem tokensFrom_blank {c : Char} (blank : Text.isBlank c) (pos : Nat) (r : List Char) :
    tokensFrom pos (c :: r) = tokensFrom (pos + c.utf8Size) r := by
  rw [tokensFrom, if_pos blank]

theorem isBlank_of_isMark {c : Char} (mark : isMark c) : Text.isBlank c = false := by
  simp only [isMark, Bool.or_eq_true, beq_iff_eq] at mark
  rcases mark with (((rfl | rfl) | rfl) | rfl) | rfl <;> decide

theorem tokensFrom_mark {c : Char} (mark : isMark c) (pos : Nat) (r : List Char) :
    tokensFrom pos (c :: r) = ofChars pos [c] :: tokensFrom (pos + c.utf8Size) r := by
  have visible : ¬ Text.isBlank c = true := by simp [isBlank_of_isMark mark]
  rw [tokensFrom, if_neg visible, if_pos mark]

/-- A lexeme is read as one token wherever it stands, up to what ends the word. -/
theorem tokensFrom_lexeme {text : String} (lexeme : IsLexeme text) {rest : List Char}
    (cut : Cut rest) (pos : Nat) :
    tokensFrom pos (text.toList ++ rest) =
      ofChars pos text.toList :: tokensFrom (pos + Text.byteLength text.toList) rest := by
  have alone : tokensFrom pos text.toList = [ofChars pos text.toList] := by
    rw [← Nat.add_zero pos, tokensFrom_shift, Nat.add_zero]
    exact congrArg (List.map (shift pos)) lexeme.1 |>.trans (by simp [shift, Span.shift, ofChars])
  rw [tokensFrom_append cut, alone, List.singleton_append]

/-! ## Tokens are lexemes -/

/-- What continues a word ends where it ended when more text followed. -/
theorem wordTail_wordTail (cs : List Char) : wordTail (wordTail cs).1 = ((wordTail cs).1, []) := by
  fun_induction wordTail cs with
  | case1 => simp [wordTail]
  | case2 c word => simp [wordTail, word]
  | case3 => simp [wordTail]
  | case4 c d r continues ih =>
    cases tail : (wordTail (d :: r)).1 with
    | nil =>
      -- a dot goes on only before a word character, which is a tail itself
      have noWord : isWordChar d = false := by
        cases word : isWordChar d with
        | false => rfl
        | true => cases r <;> simp [wordTail, word] at tail
      have word : isWordChar c = true := by simpa [noWord] using continues
      simp [wordTail, word]
    | cons e es =>
      have same : e = d := by
        have append := wordTail_append (d :: r)
        rw [tail] at append
        exact (List.cons.inj append).1
      rw [tail] at ih
      simp only [wordTail, same ▸ continues, if_true, ih]
  | case5 => simp [wordTail]

theorem isText_mark {c : Char} (mark : isMark c) :
    (TokenKind.ofText (String.ofList [c])).isText = false := by
  simp only [isMark, Bool.or_eq_true, beq_iff_eq] at mark
  rcases mark with (((rfl | rfl) | rfl) | rfl) | rfl <;> decide

theorem isLexeme_of_mem_tokensFrom {pos : Nat} {cs : List Char} {t : Token}
    (member : t ∈ tokensFrom pos cs) (name : t.isText) : IsLexeme t.text := by
  fun_induction tokensFrom pos cs with
  | case1 => cases member
  | case2 pos c r _ ih => exact ih member
  | case3 pos c r _ mark ih =>
    rcases List.mem_cons.mp member with rfl | later
    · rw [isText, kind, ofChars, isText_mark mark] at name
      cases name
    · exact ih later
  | case4 pos c r visible word ih =>
    rcases List.mem_cons.mp member with rfl | later
    · refine ⟨?_, name⟩
      rw [tokenize, ofChars, String.toList_ofList, tokensFrom, if_neg visible, if_neg word,
        wordTail_wordTail, tokensFrom, ofChars, Nat.zero_add]
    · exact ih later

end Token

/-- What stands for a name in a text is a lexeme. -/
theorem isLexeme_of_mem_tokenize {text : String} {t : Token} (member : t ∈ tokenize text)
    (name : t.isText) : IsLexeme t.text :=
  Token.isLexeme_of_mem_tokensFrom member name

end Taxonomy
