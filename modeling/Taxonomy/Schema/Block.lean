import Taxonomy.Token.Basic
import Taxonomy.Schema.Class
import Taxonomy.Schema.Diagnostic

/-!
# Blocks of a schema

A schema's tokens are cut into consecutive blocks: declarations of the form

`declaration := class NAME [extends PARENT] [{ property* }] .` with
`property := * NAME RANGE ;`,

declarations that were given up, and stray runs between them. Every token belongs to exactly one
block. A keyword may name a class or a parent if what follows it can follow a name, and may be a
property's name or range.
-/

namespace Taxonomy

/-- One item of a property block: a property's four tokens, or a run that is none. -/
inductive Entry
  | property (star name range semicolon : Token)
  | junk (first : Token) (rest : List Token)
  deriving DecidableEq, Repr

namespace Entry

def tokens : Entry → List Token
  | property star name range semicolon => [star, name, range, semicolon]
  | junk first rest => first :: rest

def property? : Entry → Option Property
  | property _ name range _ => some ⟨name.text, range.text⟩
  | junk .. => none

end Entry

/-- A declaration's start: the keyword, the name, and the clause `extends PARENT` if it is there. -/
structure Header where
  keyword : Token
  name : Token
  parent : Option (Token × Token) := none
  deriving DecidableEq, Repr

def Header.tokens (h : Header) : List Token :=
  h.keyword :: h.name :: (h.parent.elim [] fun p => [p.1, p.2])

/-- A property block with its braces. -/
structure Body where
  opening : Token
  entries : List Entry
  closing : Token
  deriving DecidableEq, Repr

def Body.tokens (b : Body) : List Token :=
  b.opening :: b.entries.flatMap Entry.tokens ++ [b.closing]

/-- A complete declaration, token by token. -/
structure Declaration where
  header : Header
  body : Option Body
  dot : Token
  deriving DecidableEq, Repr

namespace Declaration

def entries (d : Declaration) : List Entry :=
  d.body.elim [] Body.entries

def tokens (d : Declaration) : List Token :=
  d.header.tokens ++ d.body.elim [] Body.tokens ++ [d.dot]

/-- From the keyword to the dot. -/
def span (d : Declaration) : Span :=
  d.header.keyword.span.cover d.dot.span

/-- The class declared, its junk entries left out. -/
def toClass (d : Declaration) : ClassDeclaration where
  name := d.header.name.text
  parent := d.header.parent.map (·.2.text)
  properties := d.entries.filterMap Entry.property?
  span := d.span

end Declaration

/-- Why a declaration is given up, and what stands where something else had to (`none` at the end
of the text). -/
inductive Refusal
  | noName (found : Option Token)
  | noParent (name : String) (found : Option Token)
  | noBody (name : String) (found : Option Token)
  | noDot (name : String) (found : Option Token)
  | unclosed (name : String)
  deriving DecidableEq, Repr

namespace Refusal

def code : Refusal → DiagnosticCode
  | unclosed _ => .unterminatedBlock
  | _ => .malformedDeclaration

/-- The name of the class given up, empty when there is none. -/
def className : Refusal → String
  | noName _ => ""
  | noParent name _ | noBody name _ | noDot name _ | unclosed name => name

/-- A word is quoted, any other token is named by its kind. -/
def describe : Option Token → String
  | none => "end of input"
  | some t => if t.kind = .word then s!"`{t.text}`" else t.kind.describe

def message : Refusal → String
  | noName found => s!"expected class name after `class`, found {describe found}"
  | noParent name found =>
    s!"expected parent name after `extends` in `{name}`, found {describe found}"
  | noBody name found =>
    s!"expected `extends`, `\x7b` or `.` after class name `{name}`, found {describe found}"
  | noDot name found =>
    s!"expected `.` to end the declaration of `{name}`, found {describe found}"
  | unclosed name => s!"property block of `{name}` is never closed with `\x7d`"

end Refusal

/-- A stretch of a schema's tokens. -/
inductive Block
  | declared (d : Declaration)
  | abandoned (keyword : Token) (rest : List Token) (entries : List Entry) (cause : Refusal)
  | stray (first : Token) (rest : List Token)
  deriving DecidableEq, Repr

namespace Block

def tokens : Block → List Token
  | declared d => d.tokens
  | abandoned keyword rest _ _ => keyword :: rest
  | stray first rest => first :: rest

/-- From the first token of the block to its last. -/
def span : Block → Span
  | declared d => d.span
  | abandoned keyword rest _ _ => Token.coverAll keyword rest
  | stray first rest => Token.coverAll first rest

/-- The items of the block's property block, read before it was closed or given up. -/
def entries : Block → List Entry
  | declared d => d.entries
  | abandoned _ _ entries _ => entries
  | stray .. => []

def declaration? : Block → Option Declaration
  | declared d => some d
  | _ => none

end Block

end Taxonomy
