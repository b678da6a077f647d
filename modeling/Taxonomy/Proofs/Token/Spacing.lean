import Taxonomy.Proofs.Token.Lexeme
import Taxonomy.Proofs.Token.Order

/-!
# Blanks between tokens

A text is its tokens with blanks before, between and after them, its `Spacing`. A list of pieces of
text is read as the tokens of the pieces if each is a token in front of what comes next
(`tokensFrom_eq_iff`). This does not change if there are other blanks between the tokens, as long as
some are left where there were some (`Readable.respaced`). A dot after a word is the one place where
the next character is not enough: it stays a token of its own because of the character after it.
-/

namespace Taxonomy

/-- The characters of a token with the blanks after them. -/
structure Piece where
  lexeme : List Char
  gap : List Char
  blank : ∀ c ∈ gap, Text.isBlank c

namespace Piece

def chars (p : Piece) : List Char :=
  p.lexeme ++ p.gap

/-- The tokens of pieces of which the first stands at byte `pos`. -/
def tokensAt (pos : Nat) : List Piece → List Token
  | [] => []
  | p :: ps => Token.ofChars pos p.lexeme :: tokensAt (pos + Text.byteLength p.chars) ps

/-- The pieces are those of the same tokens. Between two tokens, `R` relates the blanks, and after
the last one there may be any. -/
inductive Respaced (R : List Char → List Char → Prop) : List Piece → List Piece → Prop
  | nil : Respaced R [] []
  | last {p q : Piece} : p.lexeme = q.lexeme → Respaced R [p] [q]
  | cons {p q : Piece} {ps qs : List Piece} :
      p.lexeme = q.lexeme → R p.gap q.gap → Respaced R ps qs → Respaced R (p :: ps) (q :: qs)

theorem Respaced.mono {R R' : List Char → List Char → Prop} {ps qs : List Piece}
    (same : Respaced R ps qs)
    (weaker : ∀ g g', R g g' → R' g g') : Respaced R' ps qs := by
  induction same with
  | nil => exact .nil
  | last lexeme => exact .last lexeme
  | cons lexeme gap _ ih => exact .cons lexeme (weaker _ _ gap) ih

end Piece

/-- A text's tokens and all blanks around them. -/
structure Spacing where
  front : List Char
  blank : ∀ c ∈ front, Text.isBlank c
  pieces : List Piece

namespace Spacing

def chars (s : Spacing) : List Char :=
  s.front ++ s.pieces.flatMap Piece.chars

def tokens (s : Spacing) : List Token :=
  Piece.tokensAt (Text.byteLength s.front) s.pieces

/-- The text has these tokens and these blanks around them. -/
structure IsOf (s : Spacing) (text : String) : Prop where
  chars : s.chars = text.toList
  tokens : s.tokens = tokenize text

end Spacing

/-- Where there are blanks, there still are some. -/
def Opens (gap gap' : List Char) : Prop :=
  gap ≠ [] → gap' ≠ []

theorem Opens.eq_nil {gap gap' : List Char} (opens : Opens gap gap') (none : gap' = []) :
    gap = [] := by
  cases gap with
  | nil => rfl
  | cons => exact absurd none (opens (by simp))

/-- There are blanks where there were some, and nowhere else. -/
def KeepsBreaks (gap gap' : List Char) : Prop :=
  gap = [] ↔ gap' = []

instance (gap gap' : List Char) : Decidable (KeepsBreaks gap gap') :=
  inferInstanceAs (Decidable (_ ↔ _))

theorem KeepsBreaks.opens {gap gap' : List Char} (keeps : KeepsBreaks gap gap') : Opens gap gap' :=
  mt keeps.mpr

/-- The second text is the first one with other blanks at its ends and, as `R` allows, between its
tokens. -/
def Relaid (R : List Char → List Char → Prop) (text text' : String) : Prop :=
  ∃ s s' : Spacing, s.IsOf text ∧ s'.chars = text'.toList ∧
    Piece.Respaced R s.pieces s'.pieces

theorem Relaid.of_keepsBreaks {text text' : String} (relaid : Relaid KeepsBreaks text text') :
    Relaid Opens text text' := by
  obtain ⟨s, s', isOf, chars, same⟩ := relaid
  exact ⟨s, s', isOf, chars, same.mono fun _ _ => KeepsBreaks.opens⟩

/-! ## What ends a word -/

namespace Token

/-- A word before this text ends there. -/
def Stops (rest : List Char) : Prop :=
  (wordTail rest).1 = []

/-- No word begins here. -/
def NoWord (rest : List Char) : Prop :=
  ∀ c ∈ rest.head?, isWordChar c = false

theorem stops_nil : Stops [] := rfl

theorem stops_cons_iff {c : Char} {r : List Char} :
    Stops (c :: r) ↔ isWordChar c = false ∧ (c = '.' → NoWord r) := by
  rw [Stops, NoWord]
  cases r with
  | nil => cases word : isWordChar c <;> simp [wordTail, word]
  | cons d r =>
    rw [wordTail]
    cases word : isWordChar c <;> cases other : isWordChar d <;> by_cases dot : c = '.' <;>
      simp [other, dot]

theorem Stops.of_append {rest more : List Char} (stops : Stops (rest ++ more)) : Stops rest := by
  cases rest with
  | nil => exact stops_nil
  | cons c r =>
    rw [List.cons_append] at stops
    obtain ⟨word, clear⟩ := stops_cons_iff.mp stops
    refine stops_cons_iff.mpr ⟨word, ?_⟩
    intro dot d first
    apply clear dot
    rw [List.head?_append, Option.mem_def.mp first]
    rfl

theorem stops_wordTail (cs : List Char) : Stops (wordTail cs).2 := by
  fun_induction wordTail cs with
  | case1 => rfl
  | case2 => rfl
  | case3 c word => simpa [stops_cons_iff, NoWord] using word
  | case4 c d r continues ih => exact ih
  | case5 c d r stops => simp [Stops, wordTail, stops]

/-- A word's tail is one in front of all that a word may end before. -/
theorem wordTail_append_stops {tail rest : List Char} (alone : wordTail tail = (tail, []))
    (stops : Stops rest) : wordTail (tail ++ rest) = (tail, rest) := by
  induction tail with
  | nil =>
    have parts := wordTail_append rest
    rw [stops, List.nil_append] at parts
    exact Prod.ext stops parts
  | cons c tail ih =>
    cases tail with
    | nil =>
      have word : isWordChar c = true := by
        cases word : isWordChar c with
        | true => rfl
        | false => simp [wordTail, word] at alone
      have rest' := ih rfl
      rw [List.nil_append] at rest'
      cases rest with
      | nil => simp [wordTail, word]
      | cons d r => simp [wordTail, word, rest']
    | cons d tail =>
      rw [wordTail] at alone
      split at alone
      · next continues =>
        rw [Prod.mk.injEq, List.cons.injEq] at alone
        have rest' := ih (Prod.ext alone.1.2 alone.2)
        rw [List.cons_append] at rest'
        rw [List.cons_append, List.cons_append, wordTail, if_pos continues, rest']
      · cases alone

/-- The characters are read as one token if `rest` comes after them. -/
inductive Reads : List Char → List Char → Prop
  | mark {c : Char} {rest : List Char} : isMark c → Reads [c] rest
  | word {c : Char} {tail rest : List Char} :
      isWordChar c → wordTail tail = (tail, []) → Stops rest → Reads (c :: tail) rest

theorem Reads.visible {w rest : List Char} (reads : Reads w rest) :
    w ≠ [] ∧ ∀ c ∈ w, Text.isBlank c = false := by
  cases reads with
  | mark mark => simpa using isBlank_of_isMark mark
  | @word c tail _ word alone _ =>
    have later := wordTail_not_blank tail
    rw [alone] at later
    have first : Text.isBlank c = false ∧ isMark c = false := by simpa [isWordChar] using word
    refine ⟨by simp, fun d member => ?_⟩
    rcases List.mem_cons.mp member with rfl | member
    · exact first.1
    · exact later d member

theorem Reads.of_stops {w rest rest' : List Char} (reads : Reads w rest)
    (stops : Stops rest → Stops rest') : Reads w rest' := by
  cases reads with
  | mark mark => exact .mark mark
  | word word alone ends => exact .word word alone (stops ends)

theorem tokensFrom_of_reads {w rest : List Char} (reads : Reads w rest) (pos : Nat) :
    tokensFrom pos (w ++ rest) =
      ofChars pos w :: tokensFrom (pos + Text.byteLength w) rest := by
  cases reads with
  | mark mark => exact tokensFrom_mark mark pos rest
  | @word c tail _ word alone stops =>
    obtain ⟨visible, noMark⟩ : Text.isBlank c = false ∧ isMark c = false := by
      simpa [isWordChar] using word
    rw [List.cons_append, tokensFrom, if_neg (by simp [visible]), if_neg (by simp [noMark]),
      wordTail_append_stops alone stops]

/-- What is read as a token at the front of a text is one before the rest of the text. -/
theorem reads_of_tokensFrom {pos : Nat} {w rest : List Char} {ts : List Token}
    (read : tokensFrom pos (w ++ rest) = ofChars pos w :: ts) : Reads w rest := by
  have order := (laid_tokensFrom pos (w ++ rest)).inOrder
  rw [read] at order
  have nonempty := order.nonempty _ List.mem_cons_self
  cases w with
  | nil => simp [ofChars, Text.byteLength] at nonempty
  | cons c w =>
    rw [List.cons_append, tokensFrom] at read
    split at read
    · -- a blank is in no token, so all tokens stand after it
      have late := (laid_tokensFrom (pos + c.utf8Size) (w ++ rest)).start_le (ofChars pos (c :: w))
        (by simp [read])
      have := c.utf8Size_pos
      simp only [ofChars] at late
      omega
    · next visible =>
      split at read
      · next mark =>
        have same := congrArg Token.text (List.cons.inj read).1
        simp only [ofChars, String.ofList_inj, List.cons.injEq, true_and] at same
        exact same ▸ .mark mark
      · next noMark =>
        have same := congrArg Token.text (List.cons.inj read).1
        simp only [ofChars, String.ofList_inj, List.cons.injEq, true_and] at same
        have parts := wordTail_append (w ++ rest)
        have alone := wordTail_wordTail (w ++ rest)
        have stops := stops_wordTail (w ++ rest)
        rw [same] at parts alone
        rw [List.append_cancel_left parts] at stops
        exact .word (by simp [isWordChar, visible, noMark]) alone stops

end Token

/-! ## Pieces that are read as tokens -/

namespace Piece

open Token

/-- Each piece is a token in front of what comes next. -/
def Readable : List Piece → Prop
  | [] => True
  | p :: ps => Reads p.lexeme (p.gap ++ ps.flatMap chars) ∧ Readable ps

theorem tokensFrom_gap (p : Piece) (pos : Nat) (rest : List Char) :
    tokensFrom (pos + Text.byteLength p.lexeme) (p.gap ++ rest) =
      tokensFrom (pos + Text.byteLength p.chars) rest := by
  rw [tokensFrom_blanks p.blank, chars, Text.byteLength_append, Nat.add_assoc]

theorem tokensFrom_eq_iff {pos : Nat} {ps : List Piece} :
    tokensFrom pos (ps.flatMap chars) = tokensAt pos ps ↔ Readable ps := by
  induction ps generalizing pos with
  | nil => simp [tokensFrom, tokensAt, Readable]
  | cons p ps ih =>
    rw [List.flatMap_cons, tokensAt, Readable]
    constructor
    · intro read
      rw [chars, List.append_assoc] at read
      have reads := reads_of_tokensFrom read
      rw [tokensFrom_of_reads reads, List.cons.injEq, tokensFrom_gap] at read
      exact ⟨reads, ih.mp read.2⟩
    · rintro ⟨reads, later⟩
      have rest := (tokensFrom_gap p pos (ps.flatMap chars)).trans (ih.mpr later)
      rw [← rest, chars, List.append_assoc, tokensFrom_of_reads reads]

/-! ## Other blanks -/

variable {R : List Char → List Char → Prop} {ps qs : List Piece}

theorem Respaced.lexemes (same : Respaced R ps qs) : ps.map lexeme = qs.map lexeme := by
  induction same with
  | nil => rfl
  | last lexeme => rw [List.map_singleton, List.map_singleton, lexeme]
  | cons lexeme _ _ ih => rw [List.map_cons, List.map_cons, lexeme, ih]

/-- The first character is that of the first token. -/
theorem Respaced.head?_eq (same : Respaced R ps qs) (readable : Readable ps) :
    (qs.flatMap chars).head? = (ps.flatMap chars).head? := by
  have first : ∀ {p q : Piece} {rest}, Reads p.lexeme rest → p.lexeme = q.lexeme → ∀ r r',
      (q.chars ++ r).head? = (p.chars ++ r').head? := by
    intro p q rest reads lexeme r r'
    obtain ⟨c, w, head⟩ := List.exists_cons_of_ne_nil reads.visible.1
    rw [chars, chars, ← lexeme, head]
    rfl
  cases same with
  | nil => rfl
  | last lexeme => exact first readable.1 lexeme _ _
  | cons lexeme _ _ => exact first readable.1 lexeme _ _

/-- No word begins after the new blanks if none began after the old ones. -/
theorem noWord_respaced {p q : Piece} {rest rest' : List Char} (opens : Opens p.gap q.gap)
    (same : rest'.head? = rest.head?) (clear : NoWord (p.gap ++ rest)) :
    NoWord (q.gap ++ rest') := by
  cases gap : q.gap with
  | nil =>
    rw [opens.eq_nil gap] at clear
    simpa [NoWord, same] using clear
  | cons c g =>
    intro d first
    cases first
    simp [isWordChar, q.blank c (by simp [gap])]

/-- If a word ended before a token, it also does with other text after that token, since the token
can only be a mark. -/
theorem stops_of_reads {w after rest rest' : List Char} (reads : Reads w after)
    (stops : Stops (w ++ rest)) (clear : NoWord rest → NoWord rest') : Stops (w ++ rest') := by
  cases reads with
  | mark =>
    exact stops_cons_iff.mpr ((stops_cons_iff.mp stops).imp_right fun h dot => clear (h dot))
  | word word => simp [stops_cons_iff, word] at stops

theorem stops_gap {gap rest : List Char} (blank : ∀ c ∈ gap, Text.isBlank c)
    (stops : gap = [] → Stops rest) : Stops (gap ++ rest) := by
  cases gap with
  | nil => exact stops rfl
  | cons c g =>
    have ends := endsWord_of_isBlank (blank c List.mem_cons_self)
    simp only [endsWord, Bool.and_eq_true, Bool.not_eq_true', bne_iff_ne] at ends
    exact stops_cons_iff.mpr ⟨ends.1, fun dot => absurd dot ends.2⟩

/-- A word ends where it ended: either there are blanks after it or there still are none, and then
the next token and what may come after a dot are as before. -/
theorem stops_respaced {p q : Piece} (opens : Opens p.gap q.gap) (same : Respaced Opens ps qs)
    (readable : Readable ps) (stops : Stops (p.gap ++ ps.flatMap chars)) :
    Stops (q.gap ++ qs.flatMap chars) := by
  refine stops_gap q.blank fun none => ?_
  rw [opens.eq_nil none, List.nil_append] at stops
  cases same with
  | nil => exact stops_nil
  | @last _ q lexeme =>
    have clear : NoWord q.gap := fun c first => by
      simp [isWordChar, q.blank c (List.mem_of_mem_head? first)]
    simp only [List.flatMap_cons, List.flatMap_nil, List.append_nil, chars] at stops ⊢
    exact lexeme ▸ stops_of_reads readable.1 stops fun _ => clear
  | cons lexeme between later =>
    rw [List.flatMap_cons, chars, List.append_assoc] at stops ⊢
    exact lexeme ▸ stops_of_reads readable.1 stops
      (noWord_respaced between (later.head?_eq readable.2))

/-- Pieces with other blanks between them are read as the same tokens. -/
theorem Readable.respaced (readable : Readable ps) (same : Respaced Opens ps qs) : Readable qs := by
  induction same with
  | nil => trivial
  | @last p q lexeme =>
    exact ⟨lexeme ▸ readable.1.of_stops fun _ => stops_gap q.blank fun _ => stops_nil,
      trivial⟩
  | cons lexeme between later ih =>
    exact ⟨lexeme ▸ readable.1.of_stops (stops_respaced between later readable.2),
      ih readable.2⟩

theorem map_text_tokensAt (pos : Nat) (ps : List Piece) :
    (tokensAt pos ps).map (·.text) = (ps.map lexeme).map String.ofList := by
  induction ps generalizing pos with
  | nil => rfl
  | cons p ps ih =>
    rw [tokensAt, List.map_cons, ih, List.map_cons, List.map_cons, Token.ofChars]

end Piece

/-! ## The spacing of a text -/

namespace Spacing

variable {s : Spacing} {text : String}

theorem isOf_iff : s.IsOf text ↔ s.chars = text.toList ∧ Piece.Readable s.pieces := by
  have read (same : s.chars = text.toList) : tokenize text =
      Token.tokensFrom (Text.byteLength s.front) (s.pieces.flatMap Piece.chars) := by
    rw [tokenize, ← same, chars, Token.tokensFrom_blanks s.blank, Nat.zero_add]
  constructor
  · rintro ⟨same, tokens⟩
    exact ⟨same, Piece.tokensFrom_eq_iff.mp ((read same).symm.trans tokens.symm)⟩
  · rintro ⟨same, readable⟩
    exact ⟨same, ((read same).trans (Piece.tokensFrom_eq_iff.mpr readable)).symm⟩

/-- Every text has a spacing. -/
theorem exists_isOf (text : String) : ∃ s : Spacing, s.IsOf text := by
  have split : ∀ {pos cs ts}, Token.Laid pos cs ts → ∃ s : Spacing, s.chars = cs ∧
      ts = Piece.tokensAt (pos + Text.byteLength s.front) s.pieces := by
    intro pos cs ts laid
    induction laid with
    | done => exact ⟨⟨[], by simp, []⟩, rfl, rfl⟩
    | @blank pos c r ts blank _ ih =>
      obtain ⟨s, rfl, rfl⟩ := ih
      refine ⟨⟨c :: s.front, ?_, s.pieces⟩, rfl, ?_⟩
      · simpa [blank] using s.blank
      · rw [Text.byteLength, Nat.add_assoc]
    | @token pos cs r ts _ _ _ ih =>
      obtain ⟨s, rfl, rfl⟩ := ih
      refine ⟨⟨[], by simp, ⟨cs, s.front, s.blank⟩ :: s.pieces⟩, ?_, ?_⟩
      · simp [chars, Piece.chars]
      · simp [Piece.tokensAt, Piece.chars, Text.byteLength, Nat.add_assoc]
  obtain ⟨s, same, tokens⟩ := split (Token.laid_tokensFrom 0 text.toList)
  rw [Nat.zero_add] at tokens
  exact ⟨s, same, tokens.symm⟩

/-- Other blanks around the same tokens are a spacing of the text with these blanks. -/
theorem IsOf.respaced {s' : Spacing} {text' : String} (isOf : s.IsOf text)
    (same : s'.chars = text'.toList) (respaced : Piece.Respaced Opens s.pieces s'.pieces) :
    s'.IsOf text' := by
  rw [isOf_iff] at isOf ⊢
  exact ⟨same, isOf.2.respaced respaced⟩

end Spacing

end Taxonomy
