import Taxonomy.Token.Lexer

/-!
# Where a text can be cut

A blank, or a mark other than the dot, ends the word before it whatever comes next. So a text may be
cut in front of such a character, and its tokens are those of the two parts (`tokensFrom_append`).
Where a text stands only moves its tokens (`tokensFrom_shift`). A dot is no such place, since the
next character tells whether it belongs to the word.
-/

namespace Taxonomy

/-- The range, the given number of bytes further on. -/
def Span.shift (offset : Nat) (s : Span) : Span :=
  ⟨offset + s.start, offset + s.stop⟩

namespace Token

/-- The token, the given number of bytes further on. -/
def shift (offset : Nat) (t : Token) : Token :=
  ⟨t.text, t.span.shift offset⟩

theorem ofChars_shift (offset pos : Nat) (cs : List Char) :
    (ofChars pos cs).shift offset = ofChars (offset + pos) cs := by
  simp only [ofChars, shift, Span.shift, Nat.add_assoc]

theorem tokensFrom_shift (offset pos : Nat) (cs : List Char) :
    tokensFrom (offset + pos) cs = (tokensFrom pos cs).map (shift offset) := by
  fun_induction tokensFrom pos cs with
  | case1 => simp [tokensFrom]
  | case2 pos c r blank ih => simp [tokensFrom, blank, Nat.add_assoc, ih]
  | case3 pos c r visible mark ih =>
    simp [tokensFrom, visible, mark, Nat.add_assoc, ih, ofChars_shift]
  | case4 pos c r visible word ih =>
    simp [tokensFrom, visible, word, Nat.add_assoc, ih, ofChars_shift]

/-! ## Cuts -/

/-- A word ends before the character, whatever comes after it. -/
def endsWord (c : Char) : Bool :=
  !isWordChar c && c != '.'

theorem endsWord_of_isBlank {c : Char} (blank : Text.isBlank c) : endsWord c := by
  have other : c ≠ '.' := by
    rintro rfl
    revert blank
    decide
  simp [endsWord, isWordChar, blank, other]

/-- The rest of a text may follow a word that ends there: it is empty or starts with a character
that ends the word. -/
def Cut (rest : List Char) : Prop :=
  ∀ c ∈ rest.head?, endsWord c

theorem cut_nil : Cut [] := by
  simp [Cut]

theorem cut_cons {c : Char} (ends : endsWord c) (r : List Char) : Cut (c :: r) := by
  simpa [Cut] using ends

theorem wordTail_cut {rest : List Char} (cut : Cut rest) (cs : List Char) :
    wordTail (cs ++ rest) = ((wordTail cs).1, (wordTail cs).2 ++ rest) := by
  cases rest with
  | nil => simp
  | cons e r =>
    obtain ⟨noWord, noDot⟩ : isWordChar e = false ∧ e ≠ '.' := by
      simpa [endsWord] using cut e rfl
    fun_induction wordTail cs with
    | case1 => cases r <;> simp [wordTail, noWord, noDot]
    | case2 c word => cases r <;> simp [wordTail, word, noWord, noDot]
    | case3 c noWord' => simp [wordTail, noWord', noWord]
    | case4 c d cs word ih =>
      simp only [List.cons_append] at ih
      simp [wordTail, word, ih]
    | case5 c d cs stops => simp [wordTail, stops]

/-- The tokens of a text are those of the two parts that it is cut into. -/
theorem tokensFrom_append {rest : List Char} (cut : Cut rest) (pos : Nat) (cs : List Char) :
    tokensFrom pos (cs ++ rest) =
      tokensFrom pos cs ++ tokensFrom (pos + Text.byteLength cs) rest := by
  fun_induction tokensFrom pos cs with
  | case1 => simp [Text.byteLength]
  | case2 pos c r blank ih => simp [tokensFrom, blank, ih, Text.byteLength, Nat.add_assoc]
  | case3 pos c r visible mark ih =>
    simp [tokensFrom, visible, mark, ih, Text.byteLength, Nat.add_assoc]
  | case4 pos c r visible word ih =>
    have parts : Text.byteLength r =
        Text.byteLength (wordTail r).1 + Text.byteLength (wordTail r).2 := by
      rw [← Text.byteLength_append, wordTail_append]
    simp only [Text.byteLength, Nat.add_assoc] at ih
    simp [tokensFrom, visible, word, wordTail_cut cut, ih, Text.byteLength, parts]

theorem tokensFrom_blanks {blanks : List Char}
    (blank : ∀ c ∈ blanks, Text.isBlank c) (pos : Nat) (rest : List Char) :
    tokensFrom pos (blanks ++ rest) = tokensFrom (pos + Text.byteLength blanks) rest := by
  induction blanks generalizing pos with
  | nil => simp [Text.byteLength]
  | cons c cs ih =>
    have first : Text.isBlank c = true := blank c List.mem_cons_self
    rw [List.cons_append, tokensFrom, if_pos first,
      ih fun d member => blank d (List.mem_cons_of_mem _ member)]
    simp only [Text.byteLength, Nat.add_assoc]

end Token

/-- The text is a run of one or more blanks. -/
def Text.IsGap (text : String) : Prop :=
  text ≠ "" ∧ ∀ c ∈ text.toList, isBlank c

/-- The tokens of two texts with a gap between them are those of the first and those of the second,
moved to where it stands. -/
theorem tokenize_append_gap (first second : String) {gap : String} (isGap : Text.IsGap gap) :
    tokenize (first ++ gap ++ second) = tokenize first ++
      (tokenize second).map (Token.shift (Text.byteLength (first ++ gap).toList)) := by
  obtain ⟨some, blank⟩ := isGap
  have cut : Token.Cut (gap.toList ++ second.toList) := by
    cases chars : gap.toList with
    | nil => exact absurd (String.toList_eq_nil_iff.mp chars) some
    | cons c cs =>
      exact Token.cut_cons (Token.endsWord_of_isBlank (blank c (by simp [chars]))) _
  rw [tokenize, String.toList_append, String.toList_append, List.append_assoc,
    Token.tokensFrom_append cut, Token.tokensFrom_blanks blank, tokenize, tokenize,
    ← Token.tokensFrom_shift, Text.byteLength_append, Nat.zero_add, Nat.add_zero]

end Taxonomy
