import Taxonomy.Proofs.Text.Position
import Taxonomy.Proofs.Token.Spacing

/-!
# The text of a run of tokens

What lies between the ends of a run of tokens is their text with the blanks between them, and as a
text of its own it has these tokens (`exists_stands`). On one line, with one space for each run of
blanks, it does not depend on what the blanks are, only on where there are some (`excerpt_eq`).
-/

namespace Taxonomy

namespace Text

theorem squeeze_cons {c : Char} (visible : isBlank c = false) (r : List Char) :
    squeeze (c :: r) = c :: squeeze r := by
  cases r <;> simp [squeeze, visible]

theorem squeeze_append {w : List Char} (visible : ∀ c ∈ w, isBlank c = false) (r : List Char) :
    squeeze (w ++ r) = w ++ squeeze r := by
  induction w with
  | nil => rfl
  | cons c w ih =>
    rw [List.cons_append, squeeze_cons (visible c List.mem_cons_self),
      ih fun d member => visible d (List.mem_cons_of_mem _ member), List.cons_append]

/-- A run of blanks is one space. -/
theorem squeeze_gap {g : List Char} (blank : ∀ c ∈ g, isBlank c) (some : g ≠ []) {c : Char}
    (visible : isBlank c = false) (r : List Char) :
    squeeze (g ++ c :: r) = ' ' :: squeeze (c :: r) := by
  induction g with
  | nil => exact absurd rfl some
  | cons b g ih =>
    have first := blank b List.mem_cons_self
    cases g with
    | nil => simp [squeeze, first, visible]
    | cons b' g =>
      have second := blank b' (by simp)
      have rest := ih (fun d member => blank d (List.mem_cons_of_mem _ member)) (by simp)
      rw [List.cons_append] at rest
      rw [List.cons_append, List.cons_append, squeeze, if_pos first, if_pos second, rest]

end Text

namespace Piece

/-- The text of the tokens and of the blanks between them. -/
def joined : List Piece → List Char
  | [] => []
  | [p] => p.lexeme
  | p :: q :: ps => p.chars ++ joined (q :: ps)

/-- Only the blanks after the last token are left out. -/
theorem exists_joined_append (ps : List Piece) : ∃ gap, ps.flatMap chars = joined ps ++ gap := by
  fun_induction joined ps with
  | case1 => exact ⟨[], rfl⟩
  | case2 p => exact ⟨p.gap, by simp [chars]⟩
  | case3 p q ps ih =>
    obtain ⟨gap, same⟩ := ih
    exact ⟨gap, by rw [List.flatMap_cons, same, List.append_assoc]⟩

theorem joined_cons (p : Piece) (ps : List Piece) :
    ∃ rest, joined (p :: ps) = p.lexeme ++ rest := by
  cases ps with
  | nil => exact ⟨[], (List.append_nil _).symm⟩
  | cons q ps => exact ⟨p.gap ++ joined (q :: ps), by rw [joined, chars, List.append_assoc]⟩

/-- The tokens can be seen. -/
def Visible (ps : List Piece) : Prop :=
  ∀ p ∈ ps, p.lexeme ≠ [] ∧ ∀ c ∈ p.lexeme, Text.isBlank c = false

theorem visible_cons {p : Piece} {ps : List Piece} :
    Visible (p :: ps) ↔
      (p.lexeme ≠ [] ∧ ∀ c ∈ p.lexeme, Text.isBlank c = false) ∧ Visible ps :=
  List.forall_mem_cons

theorem Readable.visible {ps : List Piece} (readable : Readable ps) : Visible ps := by
  induction ps with
  | nil => simp [Visible]
  | cons p ps ih => exact visible_cons.mpr ⟨readable.1.visible, ih readable.2⟩

theorem Visible.exists_joined {p : Piece} {ps : List Piece} (visible : Visible (p :: ps)) :
    ∃ c rest, joined (p :: ps) = c :: rest ∧ Text.isBlank c = false := by
  obtain ⟨some, notBlank⟩ := visible p List.mem_cons_self
  obtain ⟨c, w, lexeme⟩ := List.exists_cons_of_ne_nil some
  obtain ⟨rest, same⟩ := joined_cons p ps
  exact ⟨c, w ++ rest, by rw [same, lexeme, List.cons_append], notBlank c (by simp [lexeme])⟩

theorem Visible.collapse_joined {ps : List Piece} (visible : Visible ps) :
    Text.collapse (joined ps) = Text.squeeze (joined ps) := by
  cases ps with
  | nil => rfl
  | cons p ps =>
    obtain ⟨c, rest, same, notBlank⟩ := visible.exists_joined
    rw [Text.collapse, same, List.dropWhile_cons_of_neg (by simp [notBlank])]

/-- On one line, the text does not depend on what the blanks are. -/
theorem squeeze_joined {ps qs : List Piece} (same : Respaced KeepsBreaks ps qs)
    (visible : Visible ps) (visible' : Visible qs) :
    Text.squeeze (joined ps) = Text.squeeze (joined qs) := by
  induction same with
  | nil => rfl
  | last lexeme => rw [joined, joined, lexeme]
  | @cons p q ps qs lexeme breaks later ih =>
    obtain ⟨⟨-, notBlank⟩, visible⟩ := visible_cons.mp visible
    obtain ⟨⟨-, notBlank'⟩, visible'⟩ := visible_cons.mp visible'
    have rest := ih visible visible'
    cases ps with
    | nil =>
      cases later
      rw [joined, joined, lexeme]
    | cons p' ps =>
      cases qs with
      | nil => cases later
      | cons q' qs =>
        obtain ⟨c, cs, here, first⟩ := visible.exists_joined
        obtain ⟨c', cs', here', first'⟩ := visible'.exists_joined
        rw [joined, joined, chars, chars, List.append_assoc, List.append_assoc,
          Text.squeeze_append notBlank, Text.squeeze_append notBlank', lexeme]
        by_cases none : p.gap = []
        · rw [none, breaks.mp none, List.nil_append, List.nil_append, rest]
        · rw [here, here', Text.squeeze_gap p.blank none first,
            Text.squeeze_gap q.blank (mt breaks.mpr none) first', ← here, ← here', rest]

/-! ## Runs of tokens -/

theorem tokensAt_append (pos : Nat) (ps qs : List Piece) :
    tokensAt pos (ps ++ qs) =
      tokensAt pos ps ++ tokensAt (pos + Text.byteLength (ps.flatMap chars)) qs := by
  induction ps generalizing pos with
  | nil => rfl
  | cons p ps ih =>
    rw [List.cons_append, tokensAt, ih, tokensAt, List.cons_append, List.flatMap_cons,
      Text.byteLength_append, Nat.add_assoc]

theorem length_tokensAt (pos : Nat) (ps : List Piece) : (tokensAt pos ps).length = ps.length := by
  simpa using congrArg List.length (map_text_tokensAt pos ps)

/-- The last token ends where the text of all of them does. -/
theorem stop_getLast_tokensAt (pos : Nat) (p : Piece) (ps : List Piece) :
    ((tokensAt pos (p :: ps)).getLast (by simp [tokensAt])).span.stop =
      pos + Text.byteLength (joined (p :: ps)) := by
  induction ps generalizing pos p with
  | nil => rfl
  | cons q ps ih =>
    have later := ih (pos + Text.byteLength p.chars) q
    rw [joined, Text.byteLength_append, ← Nat.add_assoc, ← later]
    rfl

/-- A run among the tokens of pieces is the run of tokens of some of the pieces, in the same
place. -/
theorem exists_run {pos : Nat} {ps : List Piece} {us run vs : List Token}
    (split : tokensAt pos ps = us ++ (run ++ vs)) :
    ∃ before here after, ps = before ++ (here ++ after) ∧ before.length = us.length ∧
      here.length = run.length ∧
      run = tokensAt (pos + Text.byteLength (before.flatMap chars)) here := by
  have bound : us.length + (run.length + vs.length) = ps.length := by
    simpa [length_tokensAt] using (congrArg List.length split).symm
  have parts : ps = ps.take us.length ++
      ((ps.drop us.length).take run.length ++ (ps.drop us.length).drop run.length) := by
    rw [List.take_append_drop, List.take_append_drop]
  refine ⟨_, _, _, parts, by simp; omega, by simp; omega, ?_⟩
  rw [parts, tokensAt_append, tokensAt_append] at split
  obtain ⟨-, split⟩ := List.append_inj split (by simp [length_tokensAt]; omega)
  exact (List.append_inj split (by simp [length_tokensAt]; omega)).1.symm

/-- What lies between the two ends of a run of tokens is their text and the blanks between them. -/
theorem stands_run (front : List Char) (before here after : List Piece) {first : Token}
    {rest : List Token} (order : Token.InOrder (first :: rest))
    (run : first :: rest = tokensAt
      (Text.byteLength front + Text.byteLength (before.flatMap chars)) here) :
    Text.Stands (joined here) (Token.coverAll first rest)
      (front ++ (before ++ (here ++ after)).flatMap chars) := by
  cases here with
  | nil => cases run
  | cons p ps =>
    have stop := stop_getLast_tokensAt
      (Text.byteLength front + Text.byteLength (before.flatMap chars)) p ps
    have start : first.span.start =
        Text.byteLength front + Text.byteLength (before.flatMap chars) := by
      rw [(List.cons.inj run).1]
      rfl
    obtain ⟨gap, all⟩ := exists_joined_append (p :: ps)
    simp only [← run] at stop
    refine ⟨front ++ before.flatMap chars, gap ++ after.flatMap chars, ?_, ?_⟩
    · rw [List.flatMap_append, List.flatMap_append, all, List.append_assoc, List.append_assoc]
    · rw [order.coverAll_eq, stop, start, Text.byteLength_append]

/-! ## A run as a text of its own -/

theorem Readable.left {ps qs : List Piece} (readable : Readable (ps ++ qs)) : Readable ps := by
  induction ps with
  | nil => trivial
  | cons p ps ih =>
    rw [List.cons_append, Readable, List.flatMap_append, ← List.append_assoc] at readable
    obtain ⟨reads, later⟩ := readable
    exact ⟨reads.of_stops Token.Stops.of_append, ih later⟩

theorem Readable.right {ps qs : List Piece} (readable : Readable (ps ++ qs)) : Readable qs := by
  induction ps with
  | nil => exact readable
  | cons p ps ih => exact ih readable.2

/-- The text of some tokens has just these tokens. -/
theorem Readable.tokensFrom_joined {ps : List Piece} (readable : Readable ps) (pos : Nat) :
    Token.tokensFrom pos (joined ps) = tokensAt pos ps := by
  fun_induction joined ps generalizing pos with
  | case1 => rw [Token.tokensFrom, tokensAt]
  | case2 p =>
    have reads : Token.Reads p.lexeme [] := readable.1.of_stops fun _ => Token.stops_nil
    have read := Token.tokensFrom_of_reads reads pos
    rw [List.append_nil, Token.tokensFrom] at read
    exact read
  | case3 p q ps ih =>
    obtain ⟨gap, all⟩ := exists_joined_append (q :: ps)
    obtain ⟨reads, later⟩ := readable
    rw [all, ← List.append_assoc] at reads
    have alone : Token.Reads p.lexeme (p.gap ++ joined (q :: ps)) :=
      reads.of_stops Token.Stops.of_append
    rw [chars, List.append_assoc, Token.tokensFrom_of_reads alone, tokensFrom_gap, ih later]
    rfl

theorem Respaced.append_inv {R : List Char → List Char → Prop} {ps qs ps' qs' : List Piece}
    (same : Respaced R (ps ++ qs) (ps' ++ qs')) (length : ps.length = ps'.length) :
    Respaced R ps ps' ∧ Respaced R qs qs' := by
  induction ps generalizing ps' with
  | nil =>
    obtain rfl := List.length_eq_zero_iff.mp length.symm
    exact ⟨.nil, same⟩
  | cons p ps ih =>
    cases ps' with
    | nil => cases length
    | cons p' ps' =>
      have length : ps.length = ps'.length := Nat.succ.inj length
      rw [List.cons_append, List.cons_append] at same
      generalize left : ps ++ qs = all at same
      generalize right : ps' ++ qs' = all' at same
      cases same with
      | last lexeme =>
        obtain ⟨rfl, rfl⟩ := List.append_eq_nil_iff.mp left
        obtain ⟨rfl, rfl⟩ := List.append_eq_nil_iff.mp right
        exact ⟨.last lexeme, .nil⟩
      | cons lexeme gap later =>
        subst left right
        obtain ⟨first, second⟩ := ih later length
        exact ⟨.cons lexeme gap first, second⟩

end Piece

/-- A run of tokens of a text is that of a run of its pieces, which are what stands in its place. -/
theorem Spacing.IsOf.exists_run {s : Spacing} {text : String} (isOf : s.IsOf text)
    {us vs rest : List Token} {first : Token}
    (split : tokenize text = us ++ (first :: rest ++ vs)) :
    ∃ before here after, s.pieces = before ++ (here ++ after) ∧ before.length = us.length ∧
      here.length = rest.length + 1 ∧ Piece.Readable here ∧
      first :: rest = Piece.tokensAt (Token.coverAll first rest).start here ∧
      Text.Stands (Piece.joined here) (Token.coverAll first rest) text.toList := by
  have readable := (isOf_iff.mp isOf).2
  have order := inOrder_tokenize text
  rw [split] at order
  obtain ⟨before, here, after, pieces, length, count, run⟩ :=
    Piece.exists_run (isOf.tokens.trans split)
  have stands := Piece.stands_run s.front before here after order.middle run
  rw [pieces] at readable
  rw [← pieces, ← Spacing.chars, isOf.chars] at stands
  have start : (Token.coverAll first rest).start =
      Text.byteLength s.front + Text.byteLength (before.flatMap Piece.chars) := by
    rw [order.middle.coverAll_eq]
    cases here with
    | nil => cases run
    | cons p ps =>
      rw [(List.cons.inj run).1]
      rfl
  exact ⟨before, here, after, pieces, length, count, readable.right.left, start ▸ run, stands⟩

/-- What lies between the ends of a run of tokens is read as these tokens. -/
theorem exists_stands {text : String} {first : Token} {rest : List Token}
    (part : first :: rest <:+: tokenize text) :
    ∃ excerpt, Text.Stands excerpt (Token.coverAll first rest) text.toList ∧
      Token.tokensFrom (Token.coverAll first rest).start excerpt = first :: rest := by
  obtain ⟨us, vs, split⟩ := part
  rw [List.append_assoc] at split
  obtain ⟨s, isOf⟩ := Spacing.exists_isOf text
  obtain ⟨-, here, -, -, -, -, readable, run, stands⟩ := isOf.exists_run split.symm
  exact ⟨Piece.joined here, stands, (readable.tokensFrom_joined _).trans run.symm⟩

/-- A run of tokens is quoted as the run in its place is if there are blanks between the same
tokens. -/
theorem Spacing.excerpt_eq {s s' : Spacing} {text text' : String} (isOf : s.IsOf text)
    (isOf' : s'.IsOf text') (same : Piece.Respaced KeepsBreaks s.pieces s'.pieces)
    {us vs us' vs' rest rest' : List Token} {first first' : Token}
    (split : tokenize text = us ++ (first :: rest ++ vs))
    (split' : tokenize text' = us' ++ (first' :: rest' ++ vs')) (place : us.length = us'.length)
    (size : rest.length = rest'.length) :
    Text.collapse (Text.slice text.toList (Token.coverAll first rest)) =
      Text.collapse (Text.slice text'.toList (Token.coverAll first' rest')) := by
  obtain ⟨before, here, after, pieces, length, count, readable, -, stands⟩ :=
    isOf.exists_run split
  obtain ⟨before', here', after', pieces', length', count', readable', -, stands'⟩ :=
    isOf'.exists_run split'
  rw [pieces, pieces'] at same
  obtain ⟨-, same⟩ := same.append_inv (by omega)
  obtain ⟨same, -⟩ := same.append_inv (by omega)
  rw [stands.slice_eq, stands'.slice_eq, readable.visible.collapse_joined,
    readable'.visible.collapse_joined, Piece.squeeze_joined same readable.visible readable'.visible]

end Taxonomy
