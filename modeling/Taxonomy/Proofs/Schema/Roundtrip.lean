import Taxonomy.Schema.Printer
import Taxonomy.Proofs.Schema.Account
import Taxonomy.Proofs.Schema.Grammar
import Taxonomy.Proofs.Token.Lexeme

/-!
# Writing and reading again

Every name in a parsed class map is a lexeme, whatever the text it was found in. A class map of
lexemes is written as one declaration phrase for each class (`exists_phrases`), and reading those
gives the classes back without a word about them (`parse_render`).
-/

namespace Taxonomy

namespace ClassDeclaration

/-- The class without its place in a text. -/
def content (c : ClassDeclaration) : String × Option String × List Property :=
  (c.name, c.parent, c.properties)

/-- What is written of a class: its name, its parent and the parts of its properties. -/
def words (c : ClassDeclaration) : List String :=
  c.name :: (c.parent.toList ++ c.properties.flatMap fun p => [p.name, p.range])

end ClassDeclaration

/-- All that the classes have to write are lexemes. -/
def ClassMap.Writable (m : ClassMap) : Prop :=
  ∀ c ∈ m.entries, ∀ word ∈ c.words, IsLexeme word

/-! ## What is parsed can be written -/

namespace Declaration

theorem mem_tokens_of_mem_entries {d : Declaration} {e : Entry} (member : e ∈ d.entries) :
    e.tokens ⊆ d.tokens := by
  have part := ((Block.infix_flatMap Entry.tokens member).trans (Block.infix_body d.body)).subset
  exact fun t inside => by simp [tokens, part inside]

/-- What a declaration gives the class it declares are texts of tokens that stand for names. -/
theorem exists_token_of_mem_words {d : Declaration} (shaped : d.Shaped Entry.Formed)
    {word : String} (member : word ∈ d.toClass.words) :
    ∃ t ∈ d.tokens, t.isText ∧ t.text = word := by
  rw [ClassDeclaration.words, List.mem_cons, List.mem_append] at member
  rcases member with rfl | given | property
  · exact ⟨d.header.name, by simp [tokens, Header.tokens], shaped.name, rfl⟩
  · rw [Option.mem_toList] at given
    obtain ⟨p, present, rfl⟩ := Option.map_eq_some_iff.mp given
    exact ⟨p.2, by simp [tokens, Header.tokens, present], (shaped.parent p present).2, rfl⟩
  · obtain ⟨p, listed, part⟩ := List.mem_flatMap.mp property
    obtain ⟨e, entry, found⟩ := List.mem_filterMap.mp listed
    have formed : e.Formed := by
      cases present : d.body with
      | none => simp [entries, present] at entry
      | some b =>
        rw [entries, present] at entry
        exact (shaped.body b present).2.1 e entry
    have inside := mem_tokens_of_mem_entries entry
    cases e with
    | junk => cases found
    | property star name range semicolon =>
      cases found
      obtain ⟨-, nameText, rangeText, -⟩ := formed.resolve_right (by simp [Entry.property?])
      rcases List.mem_cons.mp part with rfl | part
      · exact ⟨name, inside (by simp [Entry.tokens]), nameText, rfl⟩
      · obtain rfl := List.mem_singleton.mp part
        exact ⟨range, inside (by simp [Entry.tokens]), rangeText, rfl⟩

end Declaration

theorem writable_parse (text : String) : (parse text).classes.Writable := by
  intro c member word inside
  obtain ⟨d, block, rfl⟩ := exists_declared_of_mem_parse member
  have shaped : d.Shaped Entry.Formed := Block.shaped_ofTokens _ _ block
  obtain ⟨t, own, name, rfl⟩ := Declaration.exists_token_of_mem_words shaped inside
  have inText : t ∈ tokenize text := (Block.infix_of_mem_ofTokens block).subset own
  exact isLexeme_of_mem_tokenize inText name

/-! ## Tokens of what is written -/

open Token

theorem isText_ofChars {text : String} (lexeme : IsLexeme text) (pos : Nat) :
    (ofChars pos text.toList).isText := by
  rw [isText, kind, ofChars, String.ofList_toList]
  exact lexeme.2

theorem text_ofChars (pos : Nat) (text : String) : (ofChars pos text.toList).text = text :=
  String.ofList_toList

/-- A property is written as an item of a block. -/
theorem exists_item {p : Property} (name : IsLexeme p.name) (range : IsLexeme p.range) (pos : Nat) :
    ∃ e : Entry, e.IsItem ∧ e.property? = some p ∧ tokensFrom pos p.chars = e.tokens := by
  have chars : p.chars = ' ' :: '*' :: (p.name.toList ++ ' ' :: (p.range.toList ++ [';'])) := by
    simp [Property.chars]
  rw [chars, tokensFrom_blank (by decide), tokensFrom_mark (by decide),
    tokensFrom_lexeme name (cut_cons (by decide) _), tokensFrom_blank (by decide),
    tokensFrom_lexeme range (cut_cons (by decide) _), tokensFrom_mark (by decide), tokensFrom]
  refine ⟨.property _ _ _ _,
    ⟨?_, isText_ofChars name _, isText_ofChars range _, ?_⟩, ?_, rfl⟩
  · rfl
  · rfl
  · simp [Entry.property?, text_ofChars]

theorem cut_properties (ps : List Property) {rest : List Char} (cut : Cut rest) :
    Cut (ps.flatMap Property.chars ++ rest) := by
  cases ps with
  | nil => exact cut
  | cons p ps => exact cut_cons (by decide) _

theorem exists_items {ps : List Property}
    (words : ∀ p ∈ ps, IsLexeme p.name ∧ IsLexeme p.range) (pos : Nat) :
    ∃ es : List Entry, (∀ e ∈ es, e.IsItem) ∧ es.filterMap Entry.property? = ps ∧
      tokensFrom pos (ps.flatMap Property.chars) = es.flatMap Entry.tokens := by
  induction ps generalizing pos with
  | nil => exact ⟨[], by simp, rfl, by simp [tokensFrom]⟩
  | cons p ps ih =>
    obtain ⟨name, range⟩ := words p List.mem_cons_self
    obtain ⟨e, item, property, first⟩ := exists_item name range pos
    obtain ⟨es, items, properties, later⟩ :=
      ih (fun q member => words q (List.mem_cons_of_mem _ member))
        (pos + Text.byteLength p.chars)
    have cut : Cut (ps.flatMap Property.chars) := by simpa using cut_properties ps cut_nil
    refine ⟨e :: es, ?_, ?_, ?_⟩
    · intro f member
      rcases List.mem_cons.mp member with rfl | member
      · exact item
      · exact items f member
    · rw [List.filterMap_cons, property, properties]
    · rw [List.flatMap_cons, tokensFrom_append cut, first, later, List.flatMap_cons]

theorem Declaration.tokens_eq (keyword name dot : Token) (parent : Option (Token × Token))
    (body : Option Body) :
    keyword :: name :: ((parent.elim [] fun p => [p.1, p.2]) ++
        (body.elim [] Body.tokens ++ [dot])) =
      (⟨⟨keyword, name, parent⟩, body, dot⟩ : Declaration).tokens := by
  simp [tokens, Header.tokens]

section Declared

variable {c : ClassDeclaration} (lexemes : ∀ word ∈ c.words, IsLexeme word)

include lexemes

/-- The clause of the parent is written as the keyword and the parent, if there is one. -/
theorem exists_parent (pos : Nat) :
    ∃ parent : Option (Token × Token),
      (∀ p ∈ parent, p.1.kind = .extendsKeyword ∧ p.2.isText) ∧
        parent.map (·.2.text) = c.parent ∧
        tokensFrom pos c.parentChars = parent.elim [] fun p => [p.1, p.2] := by
  cases given : c.parent with
  | none =>
    exact ⟨none, by simp, rfl, by simp [ClassDeclaration.parentChars, given, tokensFrom]⟩
  | some name =>
    have keyword : IsLexeme "extends" := by decide +kernel
    have lexeme : IsLexeme name := lexemes name (by simp [ClassDeclaration.words, given])
    have chars : c.parentChars = ' ' :: ("extends".toList ++ ' ' :: (name.toList ++ [])) := by
      simp [ClassDeclaration.parentChars, given]
    rw [chars, tokensFrom_blank (by decide), tokensFrom_lexeme keyword (cut_cons (by decide) _),
      tokensFrom_blank (by decide), tokensFrom_lexeme lexeme cut_nil, tokensFrom]
    refine ⟨some (_, _), ?_, congrArg some (text_ofChars _ name), rfl⟩
    rintro p ⟨⟩
    exact ⟨rfl, isText_ofChars lexeme _⟩

/-- The block is written with its braces around the properties, if there are any. -/
theorem exists_body (pos : Nat) :
    ∃ body : Option Body,
      (∀ b ∈ body, b.opening.kind = .leftBrace ∧ (∀ e ∈ b.entries, e.IsItem) ∧
        b.closing.kind = .rightBrace) ∧
      (body.elim [] Body.entries).filterMap Entry.property? = c.properties ∧
      tokensFrom pos c.blockChars = body.elim [] Body.tokens := by
  by_cases none : c.properties = []
  · exact ⟨.none, by simp, by simp [none],
      by simp [ClassDeclaration.blockChars, none, tokensFrom]⟩
  · have words : ∀ p ∈ c.properties, IsLexeme p.name ∧ IsLexeme p.range := by
      intro p member
      refine ⟨lexemes _ ?_, lexemes _ ?_⟩ <;>
        exact List.mem_cons_of_mem _ (List.mem_append_right _
          (List.mem_flatMap.mpr ⟨p, member, by simp⟩))
    have chars : c.blockChars =
        ' ' :: '{' :: (c.properties.flatMap Property.chars ++ [' ', '}']) := by
      simp [ClassDeclaration.blockChars, none]
    obtain ⟨es, items, properties, inside⟩ :=
      exists_items words (pos + ' '.utf8Size + '{'.utf8Size)
    rw [chars, tokensFrom_blank (by decide), tokensFrom_mark (by decide),
      tokensFrom_append (cut_cons (by decide) _), inside, tokensFrom_blank (by decide),
      tokensFrom_mark (by decide), tokensFrom]
    refine ⟨some ⟨_, es, _⟩, ?_, properties, rfl⟩
    rintro b ⟨⟩
    exact ⟨rfl, items, rfl⟩

/-- A class is written as a declaration phrase. -/
theorem exists_phrase (pos : Nat) :
    ∃ d : Declaration, d.IsPhrase ∧ d.toClass.content = c.content ∧
      tokensFrom pos c.chars = d.tokens := by
  have keyword : IsLexeme "class" := by decide +kernel
  have name : IsLexeme c.name := lexemes c.name List.mem_cons_self
  have dot : Cut [' ', '.'] := cut_cons (by decide) _
  have block : Cut (c.blockChars ++ [' ', '.']) := by
    unfold ClassDeclaration.blockChars
    split
    · exact dot
    · exact cut_cons (by decide) _
  have parent : Cut (c.parentChars ++ (c.blockChars ++ [' ', '.'])) := by
    unfold ClassDeclaration.parentChars
    split
    · exact block
    · exact cut_cons (by decide) _
  have chars : c.chars = "class".toList ++ ' ' ::
      (c.name.toList ++ (c.parentChars ++ (c.blockChars ++ [' ', '.']))) := by
    have first : "class ".toList = "class".toList ++ [' '] := by decide
    unfold ClassDeclaration.chars
    rw [first]
    simp only [List.append_assoc, List.cons_append, List.nil_append]
  rw [chars, tokensFrom_lexeme keyword (cut_cons (by decide) _), tokensFrom_blank (by decide),
    tokensFrom_lexeme name parent, tokensFrom_append block, tokensFrom_append dot]
  obtain ⟨parent, parentShaped, sameParent, parentTokens⟩ := exists_parent lexemes _
  obtain ⟨body, bodyShaped, sameProperties, bodyTokens⟩ := exists_body lexemes _
  rw [parentTokens, bodyTokens, tokensFrom_blank (by decide), tokensFrom_mark (by decide),
    tokensFrom]
  refine ⟨⟨⟨_, _, parent⟩, body, _⟩, ⟨?_, ?_, parentShaped, bodyShaped, ?_⟩, ?_,
    Declaration.tokens_eq _ _ _ _ _⟩
  · rfl
  · exact isText_ofChars name _
  · rfl
  · simp [Declaration.toClass, Declaration.entries, ClassDeclaration.content, text_ofChars,
      sameParent, sameProperties]

end Declared

/-- Classes are written as one declaration phrase each. -/
theorem exists_phrases {cs : List ClassDeclaration}
    (lexemes : ∀ c ∈ cs, ∀ word ∈ c.words, IsLexeme word) (pos : Nat) :
    ∃ ds : List Declaration, (∀ d ∈ ds, d.IsPhrase) ∧
      ds.map (·.toClass.content) = cs.map ClassDeclaration.content ∧
      tokensFrom pos (cs.flatMap fun c => c.chars ++ ['\n']) = ds.flatMap Declaration.tokens := by
  induction cs generalizing pos with
  | nil => exact ⟨[], by simp, rfl, by simp [tokensFrom]⟩
  | cons c cs ih =>
    obtain ⟨d, phrase, content, first⟩ := exists_phrase (lexemes c List.mem_cons_self) pos
    obtain ⟨ds, phrases, contents, later⟩ :=
      ih (fun e member => lexemes e (List.mem_cons_of_mem _ member))
        (pos + Text.byteLength c.chars + '\n'.utf8Size)
    refine ⟨d :: ds, ?_, ?_, ?_⟩
    · intro e member
      rcases List.mem_cons.mp member with rfl | member
      · exact phrase
      · exact phrases e member
    · rw [List.map_cons, content, contents, List.map_cons]
    · rw [List.flatMap_cons, List.append_assoc, List.singleton_append,
        tokensFrom_append (cut_cons (by decide) _), first, tokensFrom_blank (by decide), later,
        List.flatMap_cons]

/-! ## Reading what is written -/

/-- The reading of declaration phrases with nothing between them. -/
def Reading.ofPhrases (ds : List Declaration) : Reading :=
  ⟨[], ds.map fun d => (d, [])⟩

namespace Reading

theorem tokens_ofPhrases (ds : List Declaration) :
    (ofPhrases ds).tokens = ds.flatMap Declaration.tokens := by
  simp [ofPhrases, tokens, List.flatMap_map]

theorem valid_ofPhrases {ds : List Declaration} (phrases : ∀ d ∈ ds, d.IsPhrase) :
    (ofPhrases ds).Valid := by
  refine ⟨by simp [ofPhrases], ?_, ?_⟩
  · intro p member
    obtain ⟨d, isPhrase, rfl⟩ := List.mem_map.mp member
    exact phrases d isPhrase
  · intro p member t inside
    obtain ⟨d, -, rfl⟩ := List.mem_map.mp member
    cases inside

/-- There is nothing to say about phrases of different names. -/
theorem partsReport_of_distinct (s : Source) {earlier ds : List Declaration}
    (others : ∀ d ∈ ds, ∀ e ∈ earlier, e.header.name.text ≠ d.header.name.text)
    (distinct : (ds.map (·.header.name.text)).Nodup) :
    partsReport s earlier (ds.map fun d => (d, [])) = [] := by
  induction ds generalizing earlier with
  | nil => rfl
  | cons d ds ih =>
    obtain ⟨alone, distinct⟩ := List.nodup_cons.mp distinct
    have first : duplicateReport s earlier d = [] := by
      have missing : earlier.find? (fun e => e.header.name.text == d.header.name.text) = none := by
        rw [List.find?_eq_none]
        intro e member
        simpa using others d List.mem_cons_self e member
      rw [duplicateReport, missing]
    have later : partsReport s (d :: earlier) (ds.map fun d => (d, [])) = [] := by
      refine ih ?_ distinct
      intro e member f before
      rcases List.mem_cons.mp before with rfl | before
      · exact fun same => alone (List.mem_map.mpr ⟨e, member, same.symm⟩)
      · exact others e (List.mem_cons_of_mem _ member) f before
    rw [List.map_cons, partsReport, first, later, strayReport, List.append_nil, List.append_nil]

/-- Phrases of different names with nothing between them are listed as they stand. -/
theorem parse_phrases {text : String} {ds : List Declaration} (phrases : ∀ d ∈ ds, d.IsPhrase)
    (distinct : (ds.map (·.header.name.text)).Nodup)
    (same : tokenize text = ds.flatMap Declaration.tokens) :
    (parse text).classes.entries = ds.map Declaration.toClass ∧
      (parse text).report.items = [] := by
  have parsed := parse_reading (valid_ofPhrases phrases) ((tokens_ofPhrases ds).trans same.symm)
  have names : (ds.map Declaration.toClass).map (·.name) = ds.map (·.header.name.text) := by
    simp [Declaration.toClass]
  rw [parsed]
  refine ⟨?_, ?_⟩
  · have listed := @ClassMap.entries_foldl_insert (ds.map Declaration.toClass) .empty
      (by simpa [ClassMap.empty, names] using distinct)
    simpa [classes, ofPhrases, ClassMap.ofList, ClassMap.empty, Function.comp_def] using listed
  · have parts := @partsReport_of_distinct (Source.ofText text) [] ds (by simp) distinct
    simpa [report, ofPhrases, strayReport] using parts

end Reading

/-- Writing the classes and reading them again gives the same classes in the same order, and there
is nothing to report. -/
def ClassMap.Rereads (m : ClassMap) : Prop :=
  (parse m.render).report.items = [] ∧
    (parse m.render).classes.entries.map ClassDeclaration.content =
      m.entries.map ClassDeclaration.content

theorem rereads_of_writable {m : ClassMap} (writable : m.Writable) : m.Rereads := by
  obtain ⟨ds, phrases, contents, written⟩ := exists_phrases writable 0
  have names : ds.map (·.header.name.text) = m.entries.map (·.name) := by
    have firsts := congrArg (List.map Prod.fst) contents
    simpa [ClassDeclaration.content, Declaration.toClass, Function.comp_def] using firsts
  have same : tokenize m.render = ds.flatMap Declaration.tokens := by
    rw [tokenize, ClassMap.render, String.toList_ofList, written]
  obtain ⟨entries, items⟩ := Reading.parse_phrases phrases (names ▸ m.distinct) same
  refine ⟨items, ?_⟩
  rw [entries, List.map_map, ← contents]
  rfl

/-- What is parsed consists of lexemes, whatever the text. Classes made of lexemes can be written
and read again without change, and so can those that were parsed. -/
theorem parse_render :
    (∀ text, (parse text).classes.Writable) ∧ (∀ m : ClassMap, m.Writable → m.Rereads) ∧
      ∀ text, (parse text).classes.Rereads :=
  ⟨writable_parse, fun _ => rereads_of_writable, fun text =>
    rereads_of_writable (writable_parse text)⟩

/-- Classes named by keywords, a dot inside a word, and a property twice. -/
def ClassMap.keywords : ClassMap where
  entries :=
    [{ name := "class", parent := some "extends",
        properties := [⟨"extends", "a.é"⟩, ⟨"class", "class"⟩, ⟨"extends", "a.é"⟩] },
      { name := "extends" }]
  distinct := by decide

theorem parse_render_keywords :
    ClassMap.keywords.render =
        "class class extends extends \x7b *extends a.é; *class class; *extends a.é; \x7d .\n" ++
          "class extends .\n" ∧
      ClassMap.keywords.Writable ∧ ClassMap.keywords.Rereads := by
  have writable : ClassMap.keywords.Writable := by
    unfold ClassMap.Writable
    decide +kernel
  exact ⟨by decide +kernel, writable, parse_render.2.1 _ writable⟩

end Taxonomy
