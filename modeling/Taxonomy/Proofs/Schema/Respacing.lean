import Mathlib.Data.List.Forall2
import Taxonomy.Proofs.Schema.Account
import Taxonomy.Proofs.Schema.Relabel
import Taxonomy.Proofs.Token.Excerpt

/-!
# Layout does not matter

If a text gets other blanks, its tokens stay what they are and so do its blocks. What a block adds
to the classes and the report is then the same but for where it stands (`Transfer.add`), and so is
what all of them add (`parse_of_relaid`). A message may quote the text of a run of tokens. It quotes
the same if no blanks were put between two tokens that had none.
-/

namespace Taxonomy

/-- The range goes from the start of the token with the first number to the end of the token with
the second. -/
def Span.Covers (s : Span) (ts : List Token) (i j : Nat) : Prop :=
  i ≤ j ∧ ∃ first last, ts[i]? = some first ∧ ts[j]? = some last ∧
    s = ⟨first.span.start, last.span.stop⟩

/-- The ranges cover tokens of the same numbers, each in its own text. -/
def Span.CoversAlike (ts ts' : List Token) (s s' : Span) : Prop :=
  ∃ i j, s.Covers ts i j ∧ s'.Covers ts' i j

/-- The declarations say the same and cover the same tokens. -/
structure ClassDeclaration.Alike (ts ts' : List Token) (c c' : ClassDeclaration) : Prop where
  name : c'.name = c.name
  parent : c'.parent = c.parent
  properties : c'.properties = c.properties
  span : Span.CoversAlike ts ts' c.span c'.span

/-- The diagnostics are of the same kind and about the same tokens. If `P` holds, they say the same,
but for the line that a redeclaration names. -/
structure Diagnostic.Alike (P : Prop) (ts ts' : List Token) (d d' : Diagnostic) : Prop where
  code : d'.code = d.code
  span : Span.CoversAlike ts ts' d.span d'.span
  message : P → d.code ≠ .duplicateClass → d'.message = d.message

/-- Two texts have the same classes, and the same trouble with them, in the same order. -/
structure Outcome.Alike (P : Prop) (ts ts' : List Token) (o o' : Outcome) : Prop where
  classes : List.Forall₂ (ClassDeclaration.Alike ts ts') o.classes.entries o'.classes.entries
  report : List.Forall₂ (Diagnostic.Alike P ts ts') o.report.items o'.report.items

/-- The tokens of the second text are those of the first under a map that keeps texts, and if `P`
holds, each run of them is quoted as it was. -/
structure Transfer (P : Prop) (text text' : String) (f : Token → Token) : Prop where
  keeps : ∀ t, (f t).text = t.text
  tokens : tokenize text' = (tokenize text).map f
  excerpt : P → ∀ first rest, first :: rest <:+: tokenize text →
    (Source.ofText text').excerpt (Token.coverAll (f first) (rest.map f)) =
      (Source.ofText text).excerpt (Token.coverAll first rest)

/-! ## Ranges -/

theorem Token.InOrder.covers {us vs rest : List Token} {first : Token}
    (order : InOrder (us ++ (first :: rest ++ vs))) :
    (coverAll first rest).Covers (us ++ (first :: rest ++ vs)) us.length
      (us.length + rest.length) := by
  refine ⟨Nat.le_add_right _ _, first, (first :: rest).getLast (by simp), ?_, ?_,
    order.middle.coverAll_eq⟩
  · simp
  · rw [List.getElem?_append_right (by omega), Nat.add_sub_cancel_left,
      List.getElem?_append_left (by simp), List.getLast_eq_getElem,
      List.getElem?_eq_getElem (by simp)]
    simp

theorem Token.map_split (f : Token → Token) {ts us rest vs : List Token} {first : Token}
    (split : ts = us ++ (first :: rest ++ vs)) :
    ts.map f = us.map f ++ (f first :: rest.map f ++ vs.map f) := by
  simp [split]

namespace Transfer

variable {P : Prop} {text text' : String} {f : Token → Token} (transfer : Transfer P text text' f)

include transfer

theorem covers {first : Token} {rest : List Token} (part : first :: rest <:+: tokenize text) :
    Span.CoversAlike (tokenize text) (tokenize text') (Token.coverAll first rest)
      (Token.coverAll (f first) (rest.map f)) := by
  obtain ⟨us, vs, split⟩ := part
  rw [List.append_assoc] at split
  have split' := transfer.tokens.trans (Token.map_split f split.symm)
  have order := inOrder_tokenize text
  have order' := inOrder_tokenize text'
  rw [← split] at order
  rw [split'] at order'
  refine ⟨us.length, us.length + rest.length, split ▸ order.covers, ?_⟩
  simpa [split'] using order'.covers

theorem span_block {b : Block} (part : b.tokens <:+: tokenize text) :
    Span.CoversAlike (tokenize text) (tokenize text') b.span (b.map f).span := by
  have part' : (b.map f).tokens <:+: tokenize text' := by
    rw [Block.tokens_map, transfer.tokens]
    exact part.map f
  obtain ⟨first, rest, tokens, span⟩ :=
    Block.span_eq_coverAll ((inOrder_tokenize text).sublist part.sublist)
  obtain ⟨first', rest', tokens', span'⟩ :=
    Block.span_eq_coverAll ((inOrder_tokenize text').sublist part'.sublist)
  rw [Block.tokens_map, tokens] at tokens'
  cases tokens'
  rw [span, span']
  exact transfer.covers (tokens ▸ part)

theorem toClass_alike {d : Declaration} (part : d.tokens <:+: tokenize text) :
    d.toClass.Alike (tokenize text) (tokenize text') (d.map f).toClass := by
  have span := transfer.span_block (b := .declared d) part
  rw [Declaration.toClass_map transfer.keeps]
  exact ⟨rfl, rfl, rfl, span⟩

/-- What is reported about items of a property block. -/
theorem ofEntries {entries : List Entry} (parts : ∀ e ∈ entries, e.tokens <:+: tokenize text)
    (name : String) :
    List.Forall₂ (Diagnostic.Alike P (tokenize text) (tokenize text'))
      ((Source.ofText text).ofEntries name entries)
      ((Source.ofText text').ofEntries name (entries.map (Entry.map f))) := by
  induction entries with
  | nil => exact .nil
  | cons e entries ih =>
    have rest := ih fun e member => parts e (List.mem_cons_of_mem _ member)
    cases e with
    | property => exact rest
    | junk first more =>
      have part : first :: more <:+: tokenize text := parts _ List.mem_cons_self
      refine .cons ⟨rfl, transfer.covers part, fun holds _ => ?_⟩ rest
      rw [Source.junk, Source.junk, Source.diagnose, Source.diagnose,
        transfer.excerpt holds first more part]

end Transfer

/-! ## Steps -/

theorem ClassMap.put_alike {ts ts' : List Token} {d d' : ClassDeclaration}
    {es es' : List ClassDeclaration} (same : List.Forall₂ (ClassDeclaration.Alike ts ts') es es')
    (alike : d.Alike ts ts' d') :
    (put d' es').1.isSome = (put d es).1.isSome ∧
      List.Forall₂ (ClassDeclaration.Alike ts ts') (put d es).2 (put d' es').2 := by
  induction same with
  | nil => exact ⟨rfl, .cons alike .nil⟩
  | @cons e e' es es' first rest ih =>
    rw [put, put, first.name, alike.name]
    by_cases here : e.name = d.name
    · rw [if_pos here, if_pos here]
      exact ⟨rfl, .cons alike rest⟩
    · rw [if_neg here, if_neg here]
      exact ⟨ih.1, .cons first ih.2⟩

/-- A redeclaration is reported at the same tokens, with the line of what it replaces. -/
theorem Source.redeclared_alike {P : Prop} {ts ts' : List Token} {d d' : ClassDeclaration}
    {found found' : Option ClassDeclaration} (s s' : Source)
    (replaced : found'.isSome = found.isSome) (alike : d.Alike ts ts' d') :
    List.Forall₂ (Diagnostic.Alike P ts ts') (found.toList.map (s.redeclared · d))
      (found'.toList.map (s'.redeclared · d')) := by
  cases found with
  | none =>
    cases found' with
    | none => exact .nil
    | some => cases replaced
  | some =>
    cases found' with
    | none => cases replaced
    | some => exact .cons ⟨rfl, alike.span, fun _ other => absurd rfl other⟩ .nil

namespace Transfer

variable {P : Prop} {text text' : String} {f : Token → Token} (transfer : Transfer P text text' f)

include transfer

/-- A block adds the same to both outcomes. -/
theorem add {b : Block} {o o' : Outcome} (part : b.tokens <:+: tokenize text)
    (parts : ∀ e ∈ b.entries, e.tokens <:+: tokenize text)
    (same : o.Alike P (tokenize text) (tokenize text') o') :
    (Outcome.add (Source.ofText text) o b).Alike P (tokenize text) (tokenize text')
      (Outcome.add (Source.ofText text') o' (b.map f)) := by
  have span := transfer.span_block part
  have items := transfer.ofEntries parts
  cases b with
  | declared d =>
    have name : (d.map f).header.name.text = d.header.name.text := transfer.keeps _
    have entries : (d.map f).entries = d.entries.map (Entry.map f) :=
      Block.entries_map f (.declared d)
    obtain ⟨replaced, classes⟩ := ClassMap.put_alike same.classes (transfer.toClass_alike part)
    refine ⟨classes, List.rel_append (List.rel_append same.report ?_) ?_⟩
    · rw [name, entries]
      exact items _
    · exact Source.redeclared_alike _ _ replaced (transfer.toClass_alike part)
  | abandoned keyword rest entries cause =>
    refine ⟨same.classes, List.rel_append (List.rel_append same.report ?_) ?_⟩
    · rw [Refusal.className_map]
      exact items _
    · refine .cons ⟨Refusal.code_map f cause, span, fun _ _ => ?_⟩ .nil
      exact Refusal.message_map transfer.keeps cause
  | stray first rest =>
    refine ⟨same.classes,
      List.rel_append same.report (.cons ⟨rfl, span, fun holds _ => ?_⟩ .nil)⟩
    have excerpt := transfer.excerpt holds first rest part
    rw [Source.stray, Source.stray, Source.diagnose, Source.diagnose]
    simp only [Block.map, Block.span, excerpt]

/-- So do blocks one after another. -/
theorem foldl {bs : List Block} {o o' : Outcome} (parts : ∀ b ∈ bs, b.tokens <:+: tokenize text)
    (items : ∀ b ∈ bs, ∀ e ∈ b.entries, e.tokens <:+: b.tokens)
    (same : o.Alike P (tokenize text) (tokenize text') o') :
    (bs.foldl (Outcome.add (Source.ofText text)) o).Alike P (tokenize text) (tokenize text')
      ((bs.map (Block.map f)).foldl (Outcome.add (Source.ofText text')) o') := by
  induction bs generalizing o o' with
  | nil => exact same
  | cons b bs ih =>
    obtain ⟨part, parts⟩ := List.forall_mem_cons.mp parts
    obtain ⟨own, items⟩ := List.forall_mem_cons.mp items
    exact ih parts items (transfer.add part (fun e member => (own e member).trans part) same)

theorem parse_alike : (parse text).Alike P (tokenize text) (tokenize text') (parse text') := by
  rw [parse, parse, transfer.tokens, Block.ofTokens_map transfer.keeps, ← transfer.tokens]
  apply transfer.foldl
  · intro b block
    exact Block.infix_of_mem_ofTokens block
  · intro b block e
    exact Block.infix_of_mem_entries block
  · exact ⟨.nil, .nil⟩

end Transfer

/-! ## Other blanks -/

/-- Tokens that are pairwise different are mapped to any others with the same texts. -/
theorem Token.exists_map {ts ts' : List Token} (distinct : ts.Nodup)
    (texts : ts.map (·.text) = ts'.map (·.text)) :
    ∃ f : Token → Token, (∀ t, (f t).text = t.text) ∧ ts' = ts.map f := by
  induction ts generalizing ts' with
  | nil => exact ⟨id, fun _ => rfl, by simpa using texts.symm⟩
  | cons t ts ih =>
    cases ts' with
    | nil => cases texts
    | cons t' ts' =>
      obtain ⟨fresh, distinct⟩ := List.nodup_cons.mp distinct
      obtain ⟨first, texts⟩ := List.cons.inj texts
      obtain ⟨f, keeps, rfl⟩ := ih distinct texts
      refine ⟨fun u => if u = t then t' else f u, fun u => ?_, ?_⟩
      · dsimp only
        split
        · next here => rw [here]; exact first.symm
        · exact keeps u
      · rw [List.map_cons, if_pos rfl]
        refine congrArg (t' :: ·) (List.map_congr_left fun u member => (if_neg ?_).symm)
        rintro rfl
        exact fresh member

theorem Relaid.exists_transfer {text text' : String} (relaid : Relaid Opens text text') :
    ∃ f, Transfer (Relaid KeepsBreaks text text') text text' f := by
  obtain ⟨s, s', isOf, chars, same⟩ := relaid
  have isOf' := isOf.respaced chars same
  have texts : (tokenize text).map (·.text) = (tokenize text').map (·.text) := by
    rw [← isOf.tokens, ← isOf'.tokens, Spacing.tokens, Spacing.tokens, Piece.map_text_tokensAt,
      Piece.map_text_tokensAt, same.lexemes]
  obtain ⟨f, keeps, tokens⟩ := Token.exists_map (inOrder_tokenize text).nodup texts
  refine ⟨f, keeps, tokens, ?_⟩
  rintro ⟨s, s', isOf, chars, same⟩ first rest ⟨us, vs, split⟩
  have isOf' := isOf.respaced chars (same.mono fun _ _ => KeepsBreaks.opens)
  rw [List.append_assoc] at split
  have split' := tokens.trans (Token.map_split f split.symm)
  have quoted := Spacing.excerpt_eq isOf isOf' same split.symm split' (by simp) (by simp)
  rw [Source.excerpt, Source.excerpt]
  exact congrArg (fun cs => String.ofList (Text.clip Source.excerptLimit cs)) quoted.symm

/-- A text with other blanks at its ends and between its tokens has the same tokens, declares the
same classes, and gets the same diagnostics, about tokens of the same numbers. If there are blanks
between the same tokens as before, the messages are the same as well. -/
theorem parse_of_relaid {text text' : String} (relaid : Relaid Opens text text') :
    (tokenize text').map (fun t => (t.kind, t.text)) =
        (tokenize text).map (fun t => (t.kind, t.text)) ∧
      (parse text).Alike (Relaid KeepsBreaks text text') (tokenize text) (tokenize text')
        (parse text') := by
  obtain ⟨f, transfer⟩ := relaid.exists_transfer
  refine ⟨?_, transfer.parse_alike⟩
  rw [transfer.tokens, List.map_map]
  refine List.map_congr_left fun t _ => ?_
  rw [Function.comp_apply, Token.kind_map transfer.keeps, transfer.keeps]

/-- A text with stray tokens and an item that is no property. -/
def oneLine : Spacing where
  front := []
  blank := by simp
  pieces := [⟨"class".toList, [' '], by simp [Text.isBlank]⟩, ⟨"A.b".toList, [], by simp⟩,
    ⟨['{'], [], by simp⟩, ⟨"no".toList, [' ', ' '], by simp [Text.isBlank]⟩,
    ⟨"item".toList, [], by simp⟩, ⟨['}'], [], by simp⟩, ⟨['.'], [], by simp⟩,
    ⟨"more".toList, [' '], by simp [Text.isBlank]⟩, ⟨"text".toList, [], by simp⟩]

/-- The same text with other blanks. -/
def threeLines : Spacing where
  front := ['\n', ' ']
  blank := by simp [Text.isBlank]
  pieces := [⟨"class".toList, ['\t'], by simp [Text.isBlank]⟩, ⟨"A.b".toList, [], by simp⟩,
    ⟨['{'], [], by simp⟩, ⟨"no".toList, ['\n'], by simp [Text.isBlank]⟩,
    ⟨"item".toList, [], by simp⟩, ⟨['}'], [], by simp⟩, ⟨['.'], [], by simp⟩,
    ⟨"more".toList, [' ', '\u2003'], by simp [Text.isBlank]⟩,
    ⟨"text".toList, ['\n'], by simp [Text.isBlank]⟩]

theorem parse_of_other_blanks :
    let text := "class A.b\x7bno  item\x7d.more text"
    let text' := "\n class\tA.b\x7bno\nitem\x7d.more \u2003text\n"
    Relaid Opens text text' ∧
      (tokenize text').map (fun t => (t.kind, t.text)) =
        (tokenize text).map (fun t => (t.kind, t.text)) ∧
      (parse text).Alike (Relaid KeepsBreaks text text') (tokenize text) (tokenize text')
        (parse text') ∧
      Relaid KeepsBreaks text text' := by
  intro text text'
  have isOf : oneLine.IsOf text := ⟨by decide +kernel, by decide +kernel⟩
  have chars : threeLines.chars = text'.toList := by decide +kernel
  have same : Piece.Respaced KeepsBreaks oneLine.pieces threeLines.pieces := by
    repeat' first | exact .last rfl | refine .cons rfl (by decide) ?_
  have relaid : Relaid KeepsBreaks text text' := ⟨oneLine, threeLines, isOf, chars, same⟩
  obtain ⟨tokens, alike⟩ := parse_of_relaid relaid.of_keepsBreaks
  exact ⟨relaid.of_keepsBreaks, tokens, alike, relaid⟩

end Taxonomy
