import Taxonomy.Text.Span

/-!
# Tokens

A token is a piece of a schema's text and where it stands. Its kind is a function of its text, so
a keyword is a keyword wherever it stands; whether it names something there is the parser's choice.
-/

namespace Taxonomy

/-- What a token is to the grammar. -/
inductive TokenKind
  | classKeyword
  | extendsKeyword
  | leftBrace
  | rightBrace
  | semicolon
  | star
  | dot
  | word
  deriving DecidableEq, Repr, Inhabited

namespace TokenKind

def ofText (text : String) : TokenKind :=
  if text = "class" then .classKeyword
  else if text = "extends" then .extendsKeyword
  else if text = "\x7b" then .leftBrace
  else if text = "\x7d" then .rightBrace
  else if text = ";" then .semicolon
  else if text = "*" then .star
  else if text = "." then .dot
  else .word

/-- Words and keywords: either can stand as a name or a range. -/
def isText : TokenKind → Bool
  | word | classKeyword | extendsKeyword => true
  | _ => false

/-- How messages name the kind. -/
def describe : TokenKind → String
  | classKeyword => "`class`"
  | extendsKeyword => "`extends`"
  | leftBrace => "`\x7b`"
  | rightBrace => "`\x7d`"
  | semicolon => "`;`"
  | star => "`*`"
  | dot => "`.`"
  | word => "a name"

end TokenKind

/-- A piece of text and the bytes it takes. -/
structure Token where
  text : String
  span : Span
  deriving DecidableEq, Repr, Inhabited

namespace Token

def kind (t : Token) : TokenKind :=
  TokenKind.ofText t.text

def isText (t : Token) : Bool :=
  t.kind.isText

/-- The token with the given characters at a byte offset. -/
def ofChars (pos : Nat) (cs : List Char) : Token :=
  ⟨String.ofList cs, ⟨pos, pos + Text.byteLength cs⟩⟩

/-- The span from the first of a run of tokens to its last. -/
def coverAll (first : Token) (rest : List Token) : Span :=
  first.span.cover ((rest.getLast?.getD first).span)

end Token

end Taxonomy
