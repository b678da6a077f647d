import Taxonomy.Token.Lexer

/-!
# Where the tokens of a text lie

`Laid` says how tokens and blanks share a text. From it follow the two facts that all spans of
blocks and diagnostics rest on: tokens come one after another, none of them empty
(`inOrder_tokenize`), and every character that is not blank belongs to one
(`exists_token_of_not_blank`).
-/

namespace Taxonomy

/-- The range lies inside the other one. -/
def Span.Within (inner outer : Span) : Prop :=
  outer.start ≤ inner.start ∧ inner.stop ≤ outer.stop

instance (inner outer : Span) : Decidable (inner.Within outer) :=
  inferInstanceAs (Decidable (_ ∧ _))

namespace Span

theorem Within.trans {a b c : Span} (inner : a.Within b) (outer : b.Within c) : a.Within c :=
  ⟨Nat.le_trans outer.1 inner.1, Nat.le_trans inner.2 outer.2⟩

/-- A range that is not empty lies inside at most one of two ranges of which one ends before the
other starts. -/
theorem Within.not_before {s a b : Span} (nonempty : s.start < s.stop) (first : s.Within a)
    (second : s.Within b) : ¬ a.stop ≤ b.start := by
  intro before
  have h₁ := first.2
  have h₂ := second.1
  omega

end Span

namespace Token

/-- How tokens lie in a text that begins at byte `pos`: each is a run of characters of which none is
blank, and what is in no token is blank. -/
inductive Laid : Nat → List Char → List Token → Prop
  | done (pos : Nat) : Laid pos [] []
  | blank {pos : Nat} {c : Char} {r : List Char} {ts : List Token} :
      Text.isBlank c = true → Laid (pos + c.utf8Size) r ts → Laid pos (c :: r) ts
  | token {pos : Nat} {cs r : List Char} {ts : List Token} :
      cs ≠ [] → (∀ c ∈ cs, Text.isBlank c = false) →
      Laid (pos + Text.byteLength cs) r ts →
      Laid pos (cs ++ r) (ofChars pos cs :: ts)

theorem wordTail_not_blank (cs : List Char) :
    ∀ c ∈ (wordTail cs).1, Text.isBlank c = false := by
  have wordChar : ∀ c, isWordChar c = true → Text.isBlank c = false := by
    intro c h
    simp only [isWordChar, Bool.and_eq_true, Bool.not_eq_true'] at h
    exact h.1
  fun_induction wordTail cs with
  | case1 => simp
  | case2 c h =>
    intro d member
    rw [List.mem_singleton.mp member]
    exact wordChar c h
  | case3 => simp
  | case4 c d r h ih =>
    intro e member
    rcases List.mem_cons.mp member with rfl | member
    · simp only [Bool.or_eq_true, Bool.and_eq_true, beq_iff_eq] at h
      rcases h with h | ⟨rfl, -⟩
      · exact wordChar e h
      · decide
    · exact ih e member
  | case5 => simp

theorem laid_tokensFrom (pos : Nat) (cs : List Char) : Laid pos cs (tokensFrom pos cs) := by
  fun_induction tokensFrom pos cs with
  | case1 pos => exact .done pos
  | case2 pos c r h ih => exact .blank h ih
  | case3 pos c r h _ ih =>
    have alone : ∀ d ∈ [c], Text.isBlank d = false := by simpa using h
    have rest : Laid (pos + Text.byteLength [c]) r (tokensFrom (pos + c.utf8Size) r) := by
      simpa [Text.byteLength] using ih
    exact Laid.token (by simp) alone rest
  | case4 pos c r h _ ih =>
    have run : ∀ d ∈ c :: (wordTail r).1, Text.isBlank d = false := by
      intro d member
      rcases List.mem_cons.mp member with rfl | member
      · simpa using h
      · exact wordTail_not_blank r d member
    have laid := Laid.token (by simp) run ih
    rwa [List.cons_append, wordTail_append] at laid

theorem byteLength_pos {cs : List Char} (nonempty : cs ≠ []) : 0 < Text.byteLength cs := by
  cases cs with
  | nil => exact absurd rfl nonempty
  | cons c r =>
    have := c.utf8Size_pos
    simp only [Text.byteLength]
    omega

/-- Tokens that come one after another, none of them empty. -/
structure InOrder (ts : List Token) : Prop where
  apart : ts.Pairwise fun a b => a.span.stop ≤ b.span.start
  nonempty : ∀ t ∈ ts, t.span.start < t.span.stop

theorem Laid.start_le {pos : Nat} {cs : List Char} {ts : List Token} (h : Laid pos cs ts) :
    ∀ t ∈ ts, pos ≤ t.span.start := by
  induction h with
  | done => simp
  | blank _ _ ih =>
    intro t member
    have := ih t member
    omega
  | token _ _ _ ih =>
    intro t member
    rcases List.mem_cons.mp member with rfl | member
    · exact Nat.le_refl _
    · have := ih t member
      omega

theorem Laid.inOrder {pos : Nat} {cs : List Char} {ts : List Token} (h : Laid pos cs ts) :
    InOrder ts := by
  induction h with
  | done => exact ⟨.nil, by simp⟩
  | blank _ _ ih => exact ih
  | @token pos cs r ts nonempty _ rest ih =>
    refine ⟨List.pairwise_cons.mpr ⟨fun t member => rest.start_le t member, ih.apart⟩, ?_⟩
    intro t member
    rcases List.mem_cons.mp member with rfl | member
    · have := byteLength_pos nonempty
      simp only [ofChars]
      omega
    · exact ih.nonempty t member

theorem Laid.visible {pos : Nat} {cs : List Char} {ts : List Token} (h : Laid pos cs ts) :
    ∀ t ∈ ts, ∀ c ∈ t.text.toList, Text.isBlank c = false := by
  induction h with
  | done => simp
  | blank _ _ ih => exact ih
  | token _ visible _ ih =>
    intro t member
    rcases List.mem_cons.mp member with rfl | member
    · rwa [ofChars, String.toList_ofList]
    · exact ih t member

/-- A character that is not blank belongs to a token. -/
theorem Laid.exists_token {pos : Nat} {cs : List Char} {ts : List Token} (h : Laid pos cs ts) :
    ∀ {a b : List Char} {c : Char}, cs = a ++ c :: b → Text.isBlank c = false →
      ∃ t ∈ ts, Span.Within
        ⟨pos + Text.byteLength a, pos + Text.byteLength a + c.utf8Size⟩ t.span := by
  induction h with
  | done =>
    intro a b c split _
    simp at split
  | @blank pos d r ts blank _ ih =>
    intro a b c split visible
    cases a with
    | nil =>
      simp only [List.nil_append, List.cons.injEq] at split
      rw [split.1, visible] at blank
      cases blank
    | cons e a =>
      simp only [List.cons_append, List.cons.injEq] at split
      obtain ⟨rfl, split⟩ := split
      obtain ⟨t, member, within⟩ := ih split visible
      refine ⟨t, member, ?_⟩
      simpa only [Text.byteLength, Nat.add_assoc] using within
  | @token pos run r ts _ _ _ ih =>
    intro a b c split visible
    rcases List.append_eq_append_iff.mp split with ⟨e, rfl, after⟩ | ⟨e, rfl, after⟩
    -- the character stands after the token's run
    · obtain ⟨t, member, within⟩ := ih after visible
      refine ⟨t, List.mem_cons_of_mem _ member, ?_⟩
      simpa only [Text.byteLength_append, Nat.add_assoc] using within
    · cases e with
      | nil =>
        obtain ⟨t, member, within⟩ := ih (a := []) after.symm visible
        refine ⟨t, List.mem_cons_of_mem _ member, ?_⟩
        simpa [Text.byteLength] using within
      -- the character stands in the run
      | cons d e =>
        simp only [List.cons_append, List.cons.injEq] at after
        obtain ⟨rfl, -⟩ := after
        refine ⟨_, List.mem_cons_self, ?_⟩
        simp only [Span.Within, ofChars, Text.byteLength_append, Text.byteLength]
        omega

namespace InOrder

theorem sublist {ts us : List Token} (h : InOrder ts) (sub : us.Sublist ts) : InOrder us :=
  ⟨h.apart.sublist sub, fun t member => h.nonempty t (sub.subset member)⟩

theorem nodup {ts : List Token} (order : InOrder ts) : ts.Nodup := by
  refine order.apart.imp_of_mem fun {a b} member _ apart same => ?_
  have nonempty := order.nonempty a member
  rw [← same] at apart
  omega

theorem middle {us run vs : List Token} (h : InOrder (us ++ (run ++ vs))) : InOrder run :=
  h.sublist ((List.sublist_append_left _ _).trans (List.sublist_append_right _ _))

theorem head_start_le {ts : List Token} (h : InOrder ts) (some : ts ≠ []) :
    ∀ t ∈ ts, (ts.head some).span.start ≤ t.span.start := by
  cases ts with
  | nil => simp
  | cons first rest =>
    intro t member
    rcases List.mem_cons.mp member with rfl | member
    · exact Nat.le_refl _
    · have := (List.pairwise_cons.mp h.apart).1 t member
      have := h.nonempty first List.mem_cons_self
      simp only [List.head_cons]
      omega

/-- Every token ends before the next one, so the last one ends last. -/
theorem stop_le_getLast {ts : List Token} (h : InOrder ts) (some : ts ≠ []) :
    ∀ t ∈ ts, t.span.stop ≤ (ts.getLast some).span.stop := by
  induction ts with
  | nil => simp
  | cons first rest ih =>
    cases rest with
    | nil => simp
    | cons second rest =>
      have later := ih (h.sublist (List.sublist_cons_self first _)) (by simp)
      rw [List.getLast_cons (by simp)]
      intro t member
      rcases List.mem_cons.mp member with rfl | member
      · have := (List.pairwise_cons.mp h.apart).1 second List.mem_cons_self
        have := h.nonempty second (by simp)
        have := later second List.mem_cons_self
        omega
      · exact later t member

/-- The span from the start of the first token to the end of the last is around all of them. -/
theorem within_ends {ts : List Token} (h : InOrder ts) (some : ts ≠ []) :
    ∀ t ∈ ts, t.span.Within ⟨(ts.head some).span.start, (ts.getLast some).span.stop⟩ :=
  fun t member => ⟨h.head_start_le some t member, h.stop_le_getLast some t member⟩

/-- The span over a run of tokens goes from the start of its first token to the end of its last. -/
theorem coverAll_eq {first : Token} {rest : List Token} (h : InOrder (first :: rest)) :
    coverAll first rest =
      ⟨first.span.start, ((first :: rest).getLast (by simp)).span.stop⟩ := by
  have last : rest.getLast?.getD first = (first :: rest).getLast (by simp) := by
    rw [List.getLast_eq_getLastD, List.getLastD_eq_getLast?]
  have start := h.head_start_le (by simp) _ (List.getLast_mem (by simp : first :: rest ≠ []))
  have stop := h.stop_le_getLast (by simp) first List.mem_cons_self
  simp only [List.head_cons] at start
  simp only [coverAll, last, Span.cover, Span.mk.injEq]
  omega

/-- A token that lies in the span of a run of tokens is one of the run. -/
theorem mem_of_within {us rest vs : List Token} {first t : Token}
    (order : InOrder (us ++ (first :: rest ++ vs))) (member : t ∈ us ++ (first :: rest ++ vs))
    (within : t.span.Within (coverAll first rest)) : t ∈ first :: rest := by
  have nonempty := order.nonempty t member
  rw [order.middle.coverAll_eq] at within
  obtain ⟨start, stop⟩ := within
  simp only at start stop
  obtain ⟨-, here, apart⟩ := List.pairwise_append.mp order.apart
  rcases List.mem_append.mp member with before | member
  · have := apart t before first (by simp)
    omega
  · rcases List.mem_append.mp member with inside | after
    · exact inside
    · have last : (first :: rest).getLast (by simp) ∈ first :: rest := List.getLast_mem _
      have := (List.pairwise_append.mp here).2.2 _ last t after
      omega

end InOrder

end Token

/-- The tokens of a text come one after another, none of them empty. -/
theorem inOrder_tokenize (text : String) : Token.InOrder (tokenize text) :=
  (Token.laid_tokensFrom 0 text.toList).inOrder

/-- No character of a token is blank. -/
theorem visible_of_mem_tokenize {text : String} {t : Token} (member : t ∈ tokenize text) :
    ∀ c ∈ t.text.toList, Text.isBlank c = false :=
  (Token.laid_tokensFrom 0 text.toList).visible t member

/-- A character of a text that is not blank belongs to a token. -/
theorem exists_token_of_not_blank {text : String} {a b : List Char} {c : Char}
    (split : text.toList = a ++ c :: b) (visible : Text.isBlank c = false) :
    ∃ t ∈ tokenize text,
      Span.Within ⟨Text.byteLength a, Text.byteLength a + c.utf8Size⟩ t.span := by
  have found := (Token.laid_tokensFrom 0 text.toList).exists_token split visible
  rwa [Nat.zero_add] at found

end Taxonomy
