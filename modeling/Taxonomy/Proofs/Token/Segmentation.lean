import Mathlib.Data.List.Pairwise
import Taxonomy.Proofs.Text.Position
import Taxonomy.Proofs.Token.Spacing

/-!
# Tokens as a segmentation

Which tokens a text has is a local matter: whether two neighbouring characters belong together
depends on the two and, if one of them is a dot, on the character on its other side. A list of
tokens that keeps to the rules is what `tokenize` gives (`isSegmentation_iff`). The link is
`Token.Reads`, which says of one token and what comes next that the token is read there; its word
case has a local form too (`reads_iff`).
-/

namespace Taxonomy

/-- The bytes of a character that comes after the given text. -/
def Text.place (before : List Char) (c : Char) : Span :=
  ⟨byteLength before, byteLength before + c.utf8Size⟩

namespace Token

/-- There is a word character right before and right after. -/
def BetweenWords (before after : List Char) : Prop :=
  (∃ x ∈ before.getLast?, isWordChar x) ∧ ∃ y ∈ after.head?, isWordChar y

/-- The token has characters both before and after the range. -/
def Surrounds (t : Token) (s : Span) : Prop :=
  t.span.start < s.start ∧ s.stop < t.span.stop

/-- The tokens segment the text by the rules for neighbouring characters. -/
structure IsSegmentation (cs : List Char) (ts : List Token) : Prop where
  /-- The tokens come one after another, none of them empty. -/
  order : InOrder ts
  /-- A token's text is what stands at its span. -/
  stands : ∀ t ∈ ts, Text.Stands t.text.toList t.span cs
  visible : ∀ t ∈ ts, ∀ c ∈ t.text.toList, Text.isBlank c = false
  /-- What is in no token is blank. -/
  covered : ∀ before c after, cs = before ++ c :: after → Text.isBlank c = false →
    ∃ t ∈ ts, (Text.place before c).Within t.span
  mark : ∀ before c after, cs = before ++ c :: after → isMark c → c ≠ '.' →
    ofChars (Text.byteLength before) [c] ∈ ts
  together : ∀ before c d after, cs = before ++ c :: d :: after →
    isWordChar c → isWordChar d →
    ∃ t ∈ ts, (Text.place before c).Within t.span ∧
      (Text.place (before ++ [c]) d).Within t.span
  /-- A dot is inside a word, with characters of the word on both sides, exactly if it stands
  between two word characters. -/
  inner : ∀ before after, cs = before ++ '.' :: after →
    ((∃ t ∈ ts, t.kind = .word ∧ t.Surrounds (Text.place before '.')) ↔
      BetweenWords before after)
  lone : ∀ before after, cs = before ++ '.' :: after → ¬ BetweenWords before after →
    ofChars (Text.byteLength before) ['.'] ∈ ts

/-! ## Prefixes and their sizes -/

theorem prefix_of_byteLength_le {a b cs : List Char} (first : a <+: cs) (second : b <+: cs)
    (le : Text.byteLength a ≤ Text.byteLength b) : a <+: b := by
  rcases List.prefix_or_prefix_of_prefix first second with shorter | ⟨more, rfl⟩
  · exact shorter
  · by_cases none : more = []
    · simp [none]
    · have := byteLength_pos none
      rw [Text.byteLength_append] at le
      omega

/-- A character whose place lies in a part of the text is one of the part. -/
theorem exists_split_of_within {front part rest before after : List Char} {c : Char}
    (split : front ++ (part ++ rest) = before ++ c :: after)
    (within : (Text.place before c).Within
      ⟨Text.byteLength front, Text.byteLength front + Text.byteLength part⟩) :
    ∃ u v, part = u ++ c :: v ∧ before = front ++ u ∧ after = v ++ rest := by
  obtain ⟨start, stop⟩ := within
  simp only [Text.place] at start stop
  have earlier : front <+: before :=
    prefix_of_byteLength_le ⟨_, split⟩ (List.prefix_append before (c :: after)) start
  have later : before ++ [c] <+: front ++ part := by
    have here : before ++ [c] <+: before ++ c :: after := ⟨after, by simp⟩
    refine prefix_of_byteLength_le here ⟨rest, by rw [← split, List.append_assoc]⟩ ?_
    simpa only [Text.byteLength_append, Text.byteLength, Nat.add_zero] using stop
  obtain ⟨u, rfl⟩ := earlier
  obtain ⟨v, same⟩ := later
  have inside : part = u ++ c :: v := by
    rw [List.append_assoc, List.append_assoc] at same
    simpa using (List.append_cancel_left same).symm
  refine ⟨u, v, inside, rfl, ?_⟩
  rw [inside] at split
  simpa using split.symm

/-- A property of all places of a list is one of its first place and of all later ones. -/
theorem forall_split_cons_iff {α : Type} {P : List α → α → List α → Prop} {c : α}
    {cs : List α} :
    (∀ u d v, c :: cs = u ++ d :: v → P u d v) ↔
      P [] c cs ∧ ∀ u d v, cs = u ++ d :: v → P (c :: u) d v := by
  constructor
  · intro all
    refine ⟨all [] c cs rfl, ?_⟩
    intro u d v split
    exact all (c :: u) d v (by rw [split, List.cons_append])
  · rintro ⟨first, later⟩ u d v split
    cases u with
    | nil =>
      obtain ⟨rfl, rfl⟩ := List.cons.inj split
      exact first
    | cons e u =>
      obtain ⟨rfl, rest⟩ := List.cons.inj split
      exact later u d v rest

/-! ## Words -/

theorem wordTail_cons_eq_self_iff {c : Char} {cs : List Char} :
    wordTail (c :: cs) = (c :: cs, []) ↔
      (isWordChar c ∨ c = '.' ∧ ∃ y ∈ cs.head?, isWordChar y) ∧
        wordTail cs = (cs, []) := by
  cases cs with
  | nil => cases word : isWordChar c <;> simp [wordTail, word]
  | cons d cs =>
    rw [wordTail]
    split
    · next continues =>
      simp only [Bool.or_eq_true, Bool.and_eq_true, beq_iff_eq] at continues
      simp [continues, Prod.ext_iff]
    · next stops =>
      simp only [Bool.or_eq_true, Bool.and_eq_true, beq_iff_eq] at stops
      simp [stops]

theorem wordTail_eq_self_iff {cs : List Char} :
    wordTail cs = (cs, []) ↔
      ∀ u d v, cs = u ++ d :: v →
        isWordChar d ∨ d = '.' ∧ ∃ y ∈ v.head?, isWordChar y := by
  induction cs with
  | nil => simp [wordTail]
  | cons c cs ih => rw [wordTail_cons_eq_self_iff, forall_split_cons_iff, ih]

/-- All characters are word characters and dots between two of them. -/
def IsWord (w : List Char) : Prop :=
  w ≠ [] ∧ ∀ u c v, w = u ++ c :: v → isWordChar c ∨ c = '.' ∧ BetweenWords u v

theorem isWordChar_dot : isWordChar '.' = false := by decide

theorem isWord_cons_iff {c : Char} {cs : List Char} :
    IsWord (c :: cs) ↔ isWordChar c ∧ wordTail cs = (cs, []) := by
  rw [IsWord, wordTail_eq_self_iff]
  constructor
  · rintro ⟨-, all⟩
    refine ⟨?_, ?_⟩
    · rcases all [] c cs rfl with word | ⟨-, ⟨x, none, -⟩, -⟩
      · exact word
      · cases none
    · intro u d v split
      exact (all (c :: u) d v (by rw [split, List.cons_append])).imp_right
        fun dot => ⟨dot.1, dot.2.2⟩
  · rintro ⟨first, later⟩
    refine ⟨by simp, ?_⟩
    rw [forall_split_cons_iff]
    refine ⟨.inl first, ?_⟩
    intro u d v split
    refine (later u d v split).imp_right fun ⟨dot, next⟩ => ⟨dot, ?_, next⟩
    -- two dots cannot follow one another, so a word character comes before the dot
    rcases List.eq_nil_or_concat' u with rfl | ⟨u', x, rfl⟩
    · exact ⟨c, rfl, first⟩
    · refine ⟨x, by simp [List.getLast?_cons], ?_⟩
      rcases later u' x (d :: v) (by simp [split]) with word | ⟨-, y, head, word⟩
      · exact word
      · cases head
        rw [dot, isWordChar_dot] at word
        cases word

/-- A token is a mark, or a word that ends where it does. -/
theorem reads_iff {w rest : List Char} :
    Reads w rest ↔ (∃ c, w = [c] ∧ isMark c) ∨ IsWord w ∧ Stops rest := by
  constructor
  · intro reads
    cases reads with
    | mark mark => exact .inl ⟨_, rfl, mark⟩
    | word word alone stops => exact .inr ⟨isWord_cons_iff.mpr ⟨word, alone⟩, stops⟩
  · rintro (⟨c, rfl, mark⟩ | ⟨word, stops⟩)
    · exact .mark mark
    · obtain ⟨c, cs, rfl⟩ := List.exists_cons_of_ne_nil word.1
      obtain ⟨first, alone⟩ := isWord_cons_iff.mp word
      exact .word first alone stops

/-- A word ends with a word character. -/
theorem IsWord.exists_last {w : List Char} (word : IsWord w) :
    ∃ u x, w = u ++ [x] ∧ isWordChar x := by
  obtain ⟨u, x, rfl⟩ := (List.eq_nil_or_concat' w).resolve_left word.1
  refine ⟨u, x, rfl, ?_⟩
  rcases word.2 u x [] rfl with last | ⟨-, -, y, none, -⟩
  · exact last
  · cases none

theorem isMark_of_visible {c : Char} (visible : Text.isBlank c = false)
    (other : isWordChar c = false) : isMark c := by
  simpa [isWordChar, visible] using other

/-! ## Overlapping tokens -/

/-- Tokens that overlap are the same. -/
theorem InOrder.eq_of_overlap {ts : List Token} (order : InOrder ts) {t u : Token}
    (first : t ∈ ts) (second : u ∈ ts) (before : t.span.start < u.span.stop)
    (after : u.span.start < t.span.stop) : t = u := by
  by_contra other
  have apart : ts.Pairwise fun a b =>
      a.span.stop ≤ b.span.start ∨ b.span.stop ≤ a.span.start := order.apart.imp .inl
  have symmetric : Std.Symm fun a b : Token =>
      a.span.stop ≤ b.span.start ∨ b.span.stop ≤ a.span.start := ⟨fun _ _ => Or.symm⟩
  rcases apart.forall first second other with apart | apart
  · omega
  · omega

/-- Tokens around the same character are the same. -/
theorem InOrder.eq_of_within {ts : List Token} (order : InOrder ts) {t u : Token} (first : t ∈ ts)
    (second : u ∈ ts) {before : List Char} {c : Char}
    (within : (Text.place before c).Within t.span) (within' : (Text.place before c).Within u.span) :
    t = u := by
  have size := c.utf8Size_pos
  simp only [Text.place, Span.Within] at within within'
  exact order.eq_of_overlap first second (by omega) (by omega)

theorem within_part (before u : List Char) (c : Char) (v : List Char) :
    (Text.place (before ++ u) c).Within (ofChars (Text.byteLength before) (u ++ c :: v)).span := by
  simp only [Text.place, Span.Within, ofChars, Text.byteLength_append, Text.byteLength]
  omega

/-! ## Only one segmentation -/

namespace IsSegmentation

variable {cs : List Char} {ts : List Token}

theorem isWord_of_mem (segments : IsSegmentation cs ts) {before w after : List Char}
    (split : cs = before ++ (w ++ after)) (member : ofChars (Text.byteLength before) w ∈ ts)
    (noMark : ¬ ∃ c, w = [c] ∧ isMark c) : IsWord w := by
  have visible := segments.visible _ member
  have nonempty := segments.order.nonempty _ member
  refine ⟨?_, ?_⟩
  · rintro rfl
    simp [ofChars, Text.byteLength] at nonempty
  · rintro u c v rfl
    by_contra other
    rw [not_or] at other
    -- a token of its own at this place would be all of the word
    have alone : ofChars (Text.byteLength (before ++ u)) [c] ∉ ts := by
      intro own
      have same := segments.order.eq_of_within own member
        (by simpa using within_part (before ++ u) [] c []) (within_part before u c v)
      have text := congrArg Token.text same
      simp only [ofChars, String.ofList_inj] at text
      refine noMark ⟨c, text.symm, isMark_of_visible (visible c ?_) (by simpa using other.1)⟩
      simp [ofChars]
    have isMark : isMark c := by
      refine isMark_of_visible (visible c ?_) (by simpa using other.1)
      simp [ofChars]
    have here : cs = (before ++ u) ++ c :: (v ++ after) := by simp [split]
    by_cases dot : c = '.'
    · subst dot
      by_cases between : BetweenWords (before ++ u) (v ++ after)
      · obtain ⟨t, found, -, start, stop⟩ := (segments.inner _ _ here).mpr between
        have same : t = ofChars (Text.byteLength before) (u ++ '.' :: v) := by
          refine segments.order.eq_of_within found member ?_ (within_part before u '.' v)
          exact ⟨Nat.le_of_lt start, Nat.le_of_lt stop⟩
        subst same
        have some : u ≠ [] := by
          rintro rfl
          simp [Text.place, ofChars] at start
        have some' : v ≠ [] := by
          rintro rfl
          simp only [Text.place, ofChars, Text.byteLength_append, Text.byteLength] at stop
          omega
        refine other.2 ⟨rfl, ?_⟩
        simpa [BetweenWords, List.getLast?_append_of_ne_nil _ some,
          List.head?_append_of_ne_nil _ some'] using between
      · exact alone (segments.lone _ _ here between)
    · exact alone (segments.mark _ _ _ here isMark dot)

/-- A word goes on as far as it can. -/
theorem stops_of_mem (segments : IsSegmentation cs ts) {before w after : List Char}
    (split : cs = before ++ (w ++ after)) (member : ofChars (Text.byteLength before) w ∈ ts)
    (word : IsWord w) : Stops after := by
  obtain ⟨u, x, rfl, last⟩ := word.exists_last
  cases after with
  | nil => exact stops_nil
  | cons d after =>
    rw [stops_cons_iff]
    refine ⟨?_, ?_⟩
    · by_contra next
      have here : cs = (before ++ u) ++ x :: d :: after := by simp [split]
      obtain ⟨t, found, within, within'⟩ :=
        segments.together _ _ _ _ here last (by simpa using next)
      have same := segments.order.eq_of_within found member within (within_part before u x [])
      have size := d.utf8Size_pos
      subst same
      simp only [Text.place, Span.Within, ofChars, Text.byteLength_append,
        Text.byteLength] at within'
      omega
    · rintro rfl y head
      by_contra next
      have here : cs = (before ++ (u ++ [x])) ++ '.' :: after := by simp [split]
      have between : BetweenWords (before ++ (u ++ [x])) after :=
        ⟨⟨x, by simp, last⟩, y, head, by simpa using next⟩
      obtain ⟨t, found, -, start, stop⟩ := (segments.inner _ _ here).mpr between
      have nonempty := segments.order.nonempty _ member
      have same : t = ofChars (Text.byteLength before) (u ++ [x]) := by
        refine segments.order.eq_of_overlap found member ?_ ?_
        · simpa [Text.place, ofChars] using start
        · simp only [Text.place, ofChars, Text.byteLength_append] at stop nonempty ⊢
          omega
      subst same
      simp only [Text.place, ofChars, Text.byteLength_append] at stop
      omega

theorem reads_of_mem (segments : IsSegmentation cs ts) {before w after : List Char}
    (split : cs = before ++ (w ++ after)) (member : ofChars (Text.byteLength before) w ∈ ts) :
    Reads w after := by
  rw [reads_iff]
  by_cases mark : ∃ c, w = [c] ∧ isMark c
  · exact .inl mark
  · have word := segments.isWord_of_mem split member mark
    exact .inr ⟨word, segments.stops_of_mem split member word⟩

theorem exists_split_of_mem (segments : IsSegmentation cs ts) {t : Token} (member : t ∈ ts) :
    ∃ before w after, cs = before ++ (w ++ after) ∧ t = ofChars (Text.byteLength before) w := by
  obtain ⟨before, after, split, span⟩ := segments.stands t member
  refine ⟨before, t.text.toList, after, split, ?_⟩
  rw [ofChars, String.ofList_toList, ← span]

/-- No token starts with a blank. -/
theorem start_of_blank (segments : IsSegmentation cs ts) {front rest : List Char} {c : Char}
    (split : cs = front ++ c :: rest) (blank : Text.isBlank c) {t : Token} (member : t ∈ ts)
    (late : Text.byteLength front ≤ t.span.start) :
    Text.byteLength (front ++ [c]) ≤ t.span.start := by
  obtain ⟨before, w, after, split', rfl⟩ := segments.exists_split_of_mem member
  have nonempty := segments.order.nonempty _ member
  obtain ⟨more, rfl⟩ : front <+: before :=
    prefix_of_byteLength_le ⟨_, split.symm⟩ ⟨_, split'.symm⟩ late
  have here : c :: rest = more ++ (w ++ after) := by
    rw [split, List.append_assoc] at split'
    exact List.append_cancel_left split'
  cases more with
  | nil =>
    cases w with
    | nil => simp [ofChars, Text.byteLength] at nonempty
    | cons d w =>
      obtain rfl : c = d := (List.cons.inj here).1
      have visible := segments.visible _ member c (by simp [ofChars])
      rw [visible] at blank
      cases blank
  | cons d more =>
    obtain rfl : c = d := (List.cons.inj here).1
    simp only [ofChars, Text.byteLength_append, Text.byteLength]
    omega

/-- The token around a character that no earlier token has starts at the character. -/
theorem exists_token_at (segments : IsSegmentation cs ts) {front rest : List Char} {c : Char}
    (split : cs = front ++ c :: rest) (visible : Text.isBlank c = false) {us : List Token}
    (late : ∀ t ∈ us, Text.byteLength front ≤ t.span.start)
    (early : ∀ t ∈ ts, t ∈ us ∨ t.span.stop ≤ Text.byteLength front) :
    ∃ w after, c :: rest = w ++ after ∧ ofChars (Text.byteLength front) w ∈ us := by
  obtain ⟨t, member, start, stop⟩ := segments.covered _ _ _ split visible
  have size := c.utf8Size_pos
  simp only [Text.place] at start stop
  have listed : t ∈ us := (early t member).resolve_right (by omega)
  have bound := late t listed
  obtain ⟨before, w, after, split', rfl⟩ := segments.exists_split_of_mem member
  have first : front <+: before :=
    prefix_of_byteLength_le ⟨_, split.symm⟩ ⟨_, split'.symm⟩ bound
  have second : before <+: front :=
    prefix_of_byteLength_le ⟨_, split'.symm⟩ ⟨_, split.symm⟩ start
  obtain rfl : front = before := first.eq_of_length_le second.length_le
  rw [split] at split'
  exact ⟨w, after, List.append_cancel_left split', listed⟩

/-- The tokens from a place on are those that are read there, if none of the others goes on over
it. -/
theorem eq_tokensFrom (segments : IsSegmentation cs ts) {front rest : List Char} {us : List Token}
    (split : cs = front ++ rest) (part : us.Sublist ts)
    (late : ∀ t ∈ us, Text.byteLength front ≤ t.span.start)
    (early : ∀ t ∈ ts, t ∈ us ∨ t.span.stop ≤ Text.byteLength front) :
    us = tokensFrom (Text.byteLength front) rest := by
  induction length : rest.length using Nat.strong_induction_on generalizing front rest us with
  | _ n ih =>
    cases rest with
    | nil =>
      rw [tokensFrom, List.eq_nil_iff_forall_not_mem]
      intro t member
      have stop := (segments.stands t (part.subset member)).stop_le
      have nonempty := segments.order.nonempty t (part.subset member)
      have start := late t member
      rw [split, List.append_nil] at stop
      omega
    | cons c r =>
      by_cases blank : Text.isBlank c
      · have further : us = tokensFrom (Text.byteLength (front ++ [c])) r := by
          refine ih r.length (by simp [← length]) (by simp [split]) part ?_ ?_ rfl
          · intro t member
            exact segments.start_of_blank split blank (part.subset member) (late t member)
          · intro t member
            apply (early t member).imp_right
            intro stop
            rw [Text.byteLength_append]
            omega
        rw [tokensFrom_blank blank, further]
        simp [Text.byteLength]
      · obtain ⟨w, after, here, first⟩ :=
          segments.exists_token_at split (by simpa using blank) late early
        have member := part.subset first
        have nonempty := segments.order.nonempty _ member
        have reads := segments.reads_of_mem (here ▸ split) member
        obtain ⟨t, us, rfl⟩ := List.exists_cons_of_ne_nil (List.ne_nil_of_mem first)
        obtain ⟨apart, -⟩ := List.pairwise_cons.mp (segments.order.apart.sublist part)
        -- the first one listed is the one that starts here, since no other starts earlier
        obtain rfl : ofChars (Text.byteLength front) w = t := by
          rcases List.mem_cons.mp first with same | later
          · exact same
          · have stop := apart _ later
            have start := late t List.mem_cons_self
            have nonempty := segments.order.nonempty t (part.subset List.mem_cons_self)
            simp only [ofChars] at stop
            omega
        have further : us = tokensFrom (Text.byteLength (front ++ w)) after := by
          refine ih after.length ?_ (by rw [split, here, List.append_assoc])
            ((List.sublist_cons_self _ _).trans part) ?_ ?_ rfl
          · have some : w ≠ [] := reads.visible.1
            have count := congrArg List.length here
            have := List.length_pos_iff.mpr some
            rw [List.length_append] at count
            omega
          · intro u later
            rw [Text.byteLength_append]
            exact apart u later
          · intro u other
            rw [Text.byteLength_append]
            rcases early u other with listed | stop
            · rcases List.mem_cons.mp listed with rfl | later
              · exact .inr (Nat.le_refl _)
              · exact .inl later
            · exact .inr (by omega)
        rw [here, tokensFrom_of_reads reads, further, Text.byteLength_append]

end IsSegmentation

/-! ## The tokens of a text -/

/-- Each token of a text is read where it stands. -/
theorem exists_reads_of_mem_tokensFrom {pos : Nat} {cs : List Char} {t : Token}
    (member : t ∈ tokensFrom pos cs) :
    ∃ before w after, cs = before ++ (w ++ after) ∧
      t = ofChars (pos + Text.byteLength before) w ∧ Reads w after := by
  fun_induction tokensFrom pos cs with
  | case1 => cases member
  | case2 pos c r _ ih =>
    obtain ⟨before, w, after, rfl, rfl, reads⟩ := ih member
    exact ⟨c :: before, w, after, rfl, by rw [Text.byteLength, Nat.add_assoc], reads⟩
  | case3 pos c r _ mark ih =>
    rcases List.mem_cons.mp member with rfl | later
    · exact ⟨[], [c], r, rfl, rfl, .mark mark⟩
    · obtain ⟨before, w, after, rfl, rfl, reads⟩ := ih later
      exact ⟨c :: before, w, after, rfl, by rw [Text.byteLength, Nat.add_assoc], reads⟩
  | case4 pos c r visible noMark ih =>
    rcases List.mem_cons.mp member with rfl | later
    · refine ⟨[], c :: (wordTail r).1, (wordTail r).2, ?_, rfl, ?_⟩
      · rw [List.nil_append, List.cons_append, wordTail_append]
      · exact .word (by simp [isWordChar, visible, noMark]) (wordTail_wordTail r)
          (stops_wordTail r)
    · obtain ⟨before, w, after, split, rfl, reads⟩ := ih later
      refine ⟨c :: (wordTail r).1 ++ before, w, after, ?_, ?_, reads⟩
      · rw [List.append_assoc, ← split, List.cons_append, wordTail_append]
      · rw [Text.byteLength_append, Nat.add_assoc]

/-- A character that is not blank is in a token, which is read where it stands. -/
theorem exists_reads_around {text : String} {before after : List Char} {c : Char}
    (split : text.toList = before ++ c :: after) (visible : Text.isBlank c = false) :
    ∃ front u v rest, before = front ++ u ∧ after = v ++ rest ∧ Reads (u ++ c :: v) rest ∧
      ofChars (Text.byteLength front) (u ++ c :: v) ∈ tokenize text := by
  obtain ⟨t, member, within⟩ := exists_token_of_not_blank split visible
  obtain ⟨front, w, rest, split', rfl, reads⟩ := exists_reads_of_mem_tokensFrom member
  rw [Nat.zero_add] at within member
  obtain ⟨u, v, rfl, rfl, rfl⟩ := exists_split_of_within (split'.symm.trans split) within
  exact ⟨front, u, v, rest, rfl, rfl, reads, member⟩

/-- A word with a dot in it is no keyword. -/
theorem IsWord.kind_of_dot {u v : List Char} (word : IsWord (u ++ '.' :: v)) (pos : Nat) :
    (ofChars pos (u ++ '.' :: v)).kind = .word := by
  have other {text : String} (noDot : '.' ∉ text.toList) :
      String.ofList (u ++ '.' :: v) ≠ text := by
    rintro rfl
    simp at noDot
  have lone : String.ofList (u ++ '.' :: v) ≠ "." := by
    intro same
    have chars : u ++ '.' :: v = ['.'] := by rw [← String.toList_ofList (l := u ++ _), same]; rfl
    rw [chars, isWord_cons_iff] at word
    cases isWordChar_dot.symm.trans word.1
  have kind :
      (ofChars pos (u ++ '.' :: v)).kind = TokenKind.ofText (String.ofList (u ++ '.' :: v)) :=
    rfl
  rw [kind, TokenKind.ofText, if_neg (other (by decide)), if_neg (other (by decide)),
    if_neg (other (by decide)), if_neg (other (by decide)), if_neg (other (by decide)),
    if_neg (other (by decide)), if_neg lone]

theorem BetweenWords.extend {u v : List Char} (between : BetweenWords u v)
    (front rest : List Char) : BetweenWords (front ++ u) (v ++ rest) := by
  obtain ⟨⟨x, last, word⟩, y, head, word'⟩ := between
  refine ⟨⟨x, ?_, word⟩, y, ?_, word'⟩
  · rw [List.getLast?_append, last]
    rfl
  · rw [List.head?_append, head]
    rfl

theorem IsWord.not_isMark {u v : List Char} {c : Char} (word : IsWord (u ++ c :: v))
    (noDot : c ≠ '.') : isMark c = false := by
  rcases word.2 u c v rfl with word | ⟨dot, -⟩
  · simp only [isWordChar, Bool.and_eq_true, Bool.not_eq_true'] at word
    exact word.2
  · exact absurd dot noDot

/-- A character that is read as a token of one character, or with others as a word. -/
theorem reads_around_iff {u v rest : List Char} {c : Char} :
    Reads (u ++ c :: v) rest ↔
      (u = [] ∧ v = [] ∧ isMark c) ∨ IsWord (u ++ c :: v) ∧ Stops rest := by
  rw [reads_iff]
  refine or_congr_left ⟨?_, ?_⟩
  · rintro ⟨d, same, mark⟩
    obtain ⟨rfl, here⟩ | ⟨-, none⟩ := List.append_eq_singleton_iff.mp same
    · obtain ⟨rfl, rfl⟩ := List.cons.inj here
      exact ⟨rfl, rfl, mark⟩
    · cases none
  · rintro ⟨rfl, rfl, mark⟩
    exact ⟨c, rfl, mark⟩

section Tokenize

variable {text : String} {before after : List Char}

theorem mem_tokenize_of_mark {c : Char} (split : text.toList = before ++ c :: after)
    (mark : isMark c) (noDot : c ≠ '.') :
    ofChars (Text.byteLength before) [c] ∈ tokenize text := by
  obtain ⟨front, u, v, rest, rfl, rfl, reads, member⟩ :=
    exists_reads_around split (isBlank_of_isMark mark)
  rcases reads_around_iff.mp reads with ⟨rfl, rfl, -⟩ | ⟨word, -⟩
  · simpa using member
  · rw [word.not_isMark noDot] at mark
    cases mark

theorem isBlank_of_isWordChar {c : Char} (word : isWordChar c) : Text.isBlank c = false := by
  simp only [isWordChar, Bool.and_eq_true, Bool.not_eq_true'] at word
  exact word.1

/-- The token of a word character is a word. -/
theorem exists_word_around {c : Char} (split : text.toList = before ++ c :: after)
    (word : isWordChar c) :
    ∃ front u v rest, before = front ++ u ∧ after = v ++ rest ∧ IsWord (u ++ c :: v) ∧
      Stops rest ∧ ofChars (Text.byteLength front) (u ++ c :: v) ∈ tokenize text := by
  obtain ⟨front, u, v, rest, rfl, rfl, reads, member⟩ :=
    exists_reads_around split (isBlank_of_isWordChar word)
  rcases reads_around_iff.mp reads with ⟨-, -, mark⟩ | ⟨isWord, stops⟩
  · simp [isWordChar, mark] at word
  · exact ⟨front, u, v, rest, rfl, rfl, isWord, stops, member⟩

theorem together_tokenize {c d : Char} (split : text.toList = before ++ c :: d :: after)
    (word : isWordChar c) (word' : isWordChar d) :
    ∃ t ∈ tokenize text,
      (Text.place before c).Within t.span ∧ (Text.place (before ++ [c]) d).Within t.span := by
  obtain ⟨front, u, v, rest, rfl, tail, -, stops, member⟩ := exists_word_around split word
  cases v with
  | nil =>
    rw [List.nil_append] at tail
    rw [← tail, stops_cons_iff, word'] at stops
    cases stops.1
  | cons e v =>
    obtain rfl : d = e := (List.cons.inj tail).1
    refine ⟨_, member, within_part front u c (d :: v), ?_⟩
    simpa using within_part front (u ++ [c]) d v

theorem inner_tokenize (split : text.toList = before ++ '.' :: after) :
    (∃ t ∈ tokenize text, t.kind = .word ∧ t.Surrounds (Text.place before '.')) ↔
      BetweenWords before after := by
  constructor
  · rintro ⟨t, member, -, start, stop⟩
    obtain ⟨front, w, rest, split', rfl, reads⟩ := exists_reads_of_mem_tokensFrom member
    have within : (Text.place before '.').Within (ofChars (0 + Text.byteLength front) w).span :=
      ⟨Nat.le_of_lt start, Nat.le_of_lt stop⟩
    rw [Nat.zero_add] at within
    obtain ⟨u, v, rfl, rfl, rfl⟩ := exists_split_of_within (split'.symm.trans split) within
    rcases reads_around_iff.mp reads with ⟨rfl, rfl, -⟩ | ⟨word, -⟩
    · simp [Text.place, ofChars] at start
    · rcases word.2 u '.' v rfl with letter | ⟨-, between⟩
      · cases isWordChar_dot.symm.trans letter
      · exact between.extend front rest
  · rintro ⟨⟨x, last, word⟩, y, head, word'⟩
    obtain ⟨before, rfl⟩ := List.getLast?_eq_some_iff.mp last
    obtain ⟨after, rfl⟩ := List.head?_eq_some_iff.mp head
    have split' : text.toList = before ++ x :: '.' :: y :: after := by simpa using split
    obtain ⟨front, u, v, rest, rfl, tail, isWord, stops, member⟩ :=
      exists_word_around split' word
    -- the word of the character before the dot goes on over the dot and what follows it
    cases v with
    | nil =>
      rw [List.nil_append] at tail
      rw [← tail, stops_cons_iff] at stops
      have noWord := stops.2 rfl y rfl
      rw [word'] at noWord
      cases noWord
    | cons e v =>
      obtain rfl : '.' = e := (List.cons.inj tail).1
      have isWord : IsWord ((u ++ [x]) ++ '.' :: v) := by simpa using isWord
      have some : v ≠ [] := by
        rintro rfl
        rcases isWord.2 (u ++ [x]) '.' [] rfl with letter | ⟨-, -, y, none, -⟩
        · cases isWordChar_dot.symm.trans letter
        · cases none
      have size := byteLength_pos some
      have size' := x.utf8Size_pos
      refine ⟨_, member, ?_, ?_, ?_⟩
      · simpa using isWord.kind_of_dot (Text.byteLength front)
      · simp only [Text.place, ofChars, Text.byteLength_append, Text.byteLength]
        omega
      · simp only [Text.place, ofChars, Text.byteLength_append, Text.byteLength]
        omega

theorem lone_tokenize (split : text.toList = before ++ '.' :: after)
    (lone : ¬ BetweenWords before after) :
    ofChars (Text.byteLength before) ['.'] ∈ tokenize text := by
  obtain ⟨front, u, v, rest, rfl, rfl, reads, member⟩ := exists_reads_around split (by decide)
  rcases reads_around_iff.mp reads with ⟨rfl, rfl, -⟩ | ⟨word, -⟩
  · simpa using member
  · rcases word.2 u '.' v rfl with letter | ⟨-, between⟩
    · cases isWordChar_dot.symm.trans letter
    · exact absurd (between.extend front rest) lone

end Tokenize

theorem isSegmentation_tokenize (text : String) : IsSegmentation text.toList (tokenize text) := by
  refine {
    order := inOrder_tokenize text
    stands := ?_
    visible := ?_
    covered := fun _ _ _ split visible => exists_token_of_not_blank split visible
    mark := fun _ _ _ => mem_tokenize_of_mark
    together := fun _ _ _ _ => together_tokenize
    inner := fun _ _ => inner_tokenize
    lone := fun _ _ => lone_tokenize }
  · intro t member
    obtain ⟨front, w, rest, split, rfl, -⟩ := exists_reads_of_mem_tokensFrom member
    exact ⟨front, rest, by simpa [ofChars] using split, by simp [ofChars]⟩
  · intro t member c inside
    obtain ⟨front, w, rest, -, rfl, reads⟩ := exists_reads_of_mem_tokensFrom member
    exact reads.visible.2 c (by simpa [ofChars] using inside)

/-- The tokens of a text are the only list of tokens that segments it by the rules: each is a run of
the text without blanks, they are in order and leave out nothing but blanks, each mark other than
the dot is a token of its own, neighbouring word characters are in one token, and a dot is inside a
word if it stands between two word characters and a token of its own if it does not. -/
theorem isSegmentation_iff (text : String) (ts : List Token) :
    IsSegmentation text.toList ts ↔ ts = tokenize text := by
  constructor
  · intro segments
    exact segments.eq_tokensFrom (List.nil_append text.toList).symm (List.Sublist.refl ts)
      (fun t _ => Nat.zero_le _) (fun t member => .inl member)
  · rintro rfl
    exact isSegmentation_tokenize text

end Token

end Taxonomy
