import Taxonomy.Proofs.Schema.Reader
import Taxonomy.Proofs.Token.Cut

/-!
# Declarations elsewhere in a text

A declaration with other tokens of the same texts in its places is as much of a declaration. Where
it is the same declaration further on in a text, only its span moves.
-/

namespace Taxonomy

def Entry.map (f : Token → Token) : Entry → Entry
  | property star name range semicolon => property (f star) (f name) (f range) (f semicolon)
  | junk first rest => junk (f first) (rest.map f)

def Header.map (f : Token → Token) (h : Header) : Header :=
  ⟨f h.keyword, f h.name, h.parent.map fun p => (f p.1, f p.2)⟩

def Body.map (f : Token → Token) (b : Body) : Body :=
  ⟨f b.opening, b.entries.map (Entry.map f), f b.closing⟩

/-- The declaration with each token replaced. -/
def Declaration.map (f : Token → Token) (d : Declaration) : Declaration :=
  ⟨d.header.map f, d.body.map (Body.map f), f d.dot⟩

theorem Entry.tokens_map (f : Token → Token) (e : Entry) : (e.map f).tokens = e.tokens.map f := by
  cases e <;> simp [Entry.map, tokens]

theorem Header.tokens_map (f : Token → Token) (h : Header) :
    (h.map f).tokens = h.tokens.map f := by
  rcases h with ⟨keyword, name, parent⟩
  cases parent <;> simp [Header.map, tokens]

theorem Body.tokens_map (f : Token → Token) (b : Body) : (b.map f).tokens = b.tokens.map f := by
  simp [Body.map, tokens, List.flatMap_map, List.map_flatMap, Entry.tokens_map]

namespace Declaration

theorem tokens_map (f : Token → Token) (d : Declaration) : (d.map f).tokens = d.tokens.map f := by
  rcases d with ⟨header, body, dot⟩
  cases body <;> simp [map, tokens, Header.tokens_map, Body.tokens_map]

variable {f : Token → Token} (keeps : ∀ t, (f t).text = t.text)

include keeps

theorem isItem_map {e : Entry} (item : e.IsItem) : (e.map f).IsItem := by
  cases e with
  | junk => exact item
  | property => simpa [Entry.map, Entry.IsItem, Token.isText, Token.kind, keeps] using item

/-- Whether a declaration is a phrase is a matter of the texts of its tokens. -/
theorem isPhrase_map {d : Declaration} (phrase : d.IsPhrase) : (d.map f).IsPhrase := by
  have kind : ∀ t, (f t).kind = t.kind := fun t => by rw [Token.kind, Token.kind, keeps]
  have isText : ∀ t, (f t).isText = t.isText := fun t => by rw [Token.isText, Token.isText, kind]
  refine ⟨?_, ?_, ?_, ?_, ?_⟩
  · exact (kind _).trans phrase.keyword
  · exact (isText _).trans phrase.name
  · intro p present
    obtain ⟨q, given, rfl⟩ := Option.map_eq_some_iff.mp present
    obtain ⟨keyword, text⟩ := phrase.parent q given
    exact ⟨(kind _).trans keyword, (isText _).trans text⟩
  · intro b present
    obtain ⟨c, given, rfl⟩ := Option.map_eq_some_iff.mp present
    obtain ⟨opening, items, closing⟩ := phrase.body c given
    refine ⟨(kind _).trans opening, ?_, (kind _).trans closing⟩
    intro e member
    obtain ⟨e, entry, rfl⟩ := List.mem_map.mp member
    exact isItem_map keeps (items e entry)
  · exact (kind _).trans phrase.dot

theorem property?_map : Entry.property? ∘ Entry.map f = Entry.property? := by
  funext e
  cases e <;> simp [Entry.map, Entry.property?, keeps]

/-- The declared class stays the same but for its span. -/
theorem toClass_map (d : Declaration) :
    (d.map f).toClass = { d.toClass with span := (d.map f).span } := by
  have properties : (d.map f).entries.filterMap Entry.property? =
      d.entries.filterMap Entry.property? := by
    obtain ⟨header, body, dot⟩ := d
    cases body with
    | none => rfl
    | some b =>
      rw [map, entries, Option.map_some, Option.elim_some, Body.map, List.filterMap_map,
        property?_map keeps]
      rfl
  have parent : (d.map f).header.parent.map (·.2.text) = d.header.parent.map (·.2.text) := by
    simp [map, Header.map, Function.comp_def, keeps]
  simp only [toClass, properties, parent]
  simp [map, Header.map, keeps]

end Declaration

end Taxonomy
