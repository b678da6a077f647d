import Taxonomy.Schema.Parse

/-!
# The grammar of a schema

A declaration phrase is a declaration of which every token is of the kind that its place asks for
and whose block holds nothing but properties. The class that it declares is said by its tokens alone
(`DeclaresClass`). A `Reading` of a schema's tokens splits them into declaration phrases and
stretches of other text, in which the keyword `class` does not occur. Nothing here looks at how
tokens are read: a reading is the second side of what `parse` accepts.
-/

namespace Taxonomy

/-- The item is `* NAME RANGE ;`. -/
def Entry.IsItem : Entry → Prop
  | property star name range semicolon =>
    star.kind = .star ∧ name.isText ∧ range.isText ∧ semicolon.kind = .semicolon
  | junk .. => False

/-- Each token of a declaration is of the kind that its place asks for:
`class NAME [extends PARENT] [{ entry* }] .` with entries as `P` has them. -/
structure Declaration.Shaped (P : Entry → Prop) (d : Declaration) : Prop where
  keyword : d.header.keyword.kind = .classKeyword
  name : d.header.name.isText
  parent : ∀ p ∈ d.header.parent, p.1.kind = .extendsKeyword ∧ p.2.isText
  body : ∀ b ∈ d.body, b.opening.kind = .leftBrace ∧ (∀ e ∈ b.entries, P e) ∧
    b.closing.kind = .rightBrace
  dot : d.dot.kind = .dot

/-- A declaration phrase: nothing in its block is anything but a property. -/
def Declaration.IsPhrase (d : Declaration) : Prop :=
  d.Shaped Entry.IsItem

/-! ## What a phrase declares -/

/-- Tokens `(* NAME RANGE ;)*` and the properties that they list, in order and with repetitions. -/
inductive ListsProperties : List Token → List Property → Prop
  | nil : ListsProperties [] []
  | cons {star name range semicolon : Token} {ts : List Token} {ps : List Property} :
      star.kind = .star → name.isText → range.isText → semicolon.kind = .semicolon →
      ListsProperties ts ps →
      ListsProperties (star :: name :: range :: semicolon :: ts) (⟨name.text, range.text⟩ :: ps)

/-- Tokens `[extends PARENT]` and the parent that they name. -/
inductive NamesParent : List Token → Option String → Prop
  | none : NamesParent [] none
  | some {keyword parent : Token} : keyword.kind = .extendsKeyword → parent.isText →
      NamesParent [keyword, parent] (some parent.text)

/-- Tokens `[{ property* }]` and the properties in the block, none if there is no block. -/
inductive HoldsProperties : List Token → List Property → Prop
  | none : HoldsProperties [] []
  | block {opening closing : Token} {ts : List Token} {ps : List Property} :
      opening.kind = .leftBrace → ListsProperties ts ps → closing.kind = .rightBrace →
      HoldsProperties (opening :: ts ++ [closing]) ps

/-- Tokens `class NAME [extends PARENT] [{ property* }] .` and the class that they declare, from the
start of the keyword to the end of the dot. -/
inductive DeclaresClass : List Token → ClassDeclaration → Prop
  | intro {keyword name dot : Token} {clause block : List Token} {parent : Option String}
      {properties : List Property} :
      keyword.kind = .classKeyword → name.isText → NamesParent clause parent →
      HoldsProperties block properties → dot.kind = .dot →
      DeclaresClass (keyword :: name :: clause ++ block ++ [dot])
        { name := name.text, parent, properties, span := ⟨keyword.span.start, dot.span.stop⟩ }

/-! ## Readings -/

/-- A token list cut into what stands before the first declaration phrase and, for each phrase, the
phrase and what stands between it and the next. -/
structure Reading where
  lead : List Token
  parts : List (Declaration × List Token)

namespace Reading

/-- The tokens that are read, in order. -/
def tokens (r : Reading) : List Token :=
  r.lead ++ r.parts.flatMap fun p => p.1.tokens ++ p.2

/-- The declarations are phrases and `class` occurs in nothing else. -/
structure Valid (r : Reading) : Prop where
  lead : ∀ t ∈ r.lead, t.kind ≠ .classKeyword
  phrase : ∀ p ∈ r.parts, p.1.IsPhrase
  stray : ∀ p ∈ r.parts, ∀ t ∈ p.2, t.kind ≠ .classKeyword

/-- The phrases, inserted one after another. -/
def classes (r : Reading) : ClassMap :=
  .ofList (r.parts.map fun p => p.1.toClass)

/-- The warning about a stretch of stray text; there is none about an empty one. -/
def strayReport (s : Source) : List Token → List Diagnostic
  | [] => []
  | t :: ts => [s.stray (Token.coverAll t ts)]

/-- The warning about a declaration of which the name was declared before, given the declarations
before it, the last one first. It names the last of those that it replaces. -/
def duplicateReport (s : Source) (earlier : List Declaration) (d : Declaration) : List Diagnostic :=
  match earlier.find? fun e => e.header.name.text == d.header.name.text with
  | none => []
  | some e => [s.redeclared e.toClass d.toClass]

/-- The warnings about phrases and what stands after each, given the declarations before them, the
last one first. -/
def partsReport (s : Source) (earlier : List Declaration) :
    List (Declaration × List Token) → List Diagnostic
  | [] => []
  | p :: ps =>
    duplicateReport s earlier p.1 ++ strayReport s p.2 ++ partsReport s (p.1 :: earlier) ps

/-- The warnings about a text that is read so. -/
def report (s : Source) (r : Reading) : List Diagnostic :=
  strayReport s r.lead ++ partsReport s [] r.parts

end Reading

end Taxonomy
