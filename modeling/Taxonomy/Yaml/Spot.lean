import Taxonomy.Text.Hex

/-!
# Characters and where they stand

What a character of a YAML document means hangs on where it stands, so each is kept with its line
and its column. Line breaks of all kinds are line feeds here, and the end is a NUL, with which a
text may also end early.
-/

namespace Taxonomy.Yaml

/-! ## Classes of characters -/

def isBlank (c : Char) : Bool :=
  c == ' ' || c == '\t'

/-- A line break or the end. -/
def isLineEnd (c : Char) : Bool :=
  c == '\n' || c == '\x00'

/-- What may follow an indicator: a blank, a line break or the end. -/
def isGap (c : Char) : Bool :=
  isBlank c || isLineEnd c

/-- The indicators of flow collections. -/
def isFlow (c : Char) : Bool :=
  c == ',' || c == '[' || c == ']' || c == '{' || c == '}'

/-- The characters of names of directives and of tag handles. -/
def isWord (c : Char) : Bool :=
  c.isAlphanum || c == '_' || c == '-'

/-! ## Spots -/

structure Spot where
  char : Char
  /-- How many characters of the text come before. -/
  index : Nat
  line : Nat
  column : Nat
  /-- Nothing but blanks comes before on the line. -/
  isIndented : Bool
  deriving DecidableEq, Repr, Inhabited

/-- What is left of a document. The last spot is its end. -/
abbrev Source := List Spot

namespace Source

/-- The spots of a text that starts at the given place. -/
def spots (index line column : Nat) (isIndented : Bool) : List Char → Source
  | [] => [⟨'\x00', index, line, column, isIndented⟩]
  | '\r' :: '\n' :: rest =>
    ⟨'\n', index, line, column, isIndented⟩ :: Source.spots (index + 2) (line + 1) 0 true rest
  | c :: rest =>
    if c = '\x00' then [⟨c, index, line, column, isIndented⟩]
    else if c = '\n' || c = '\r' then
      ⟨'\n', index, line, column, isIndented⟩ :: Source.spots (index + 1) (line + 1) 0 true rest
    else
      ⟨c, index, line, column, isIndented⟩ ::
        Source.spots (index + 1) line (column + 1) (isIndented && isBlank c) rest

def ofText (text : String) : Source :=
  Source.spots 0 0 0 true text.toList

def here (s : Source) : Spot :=
  s.headD ⟨'\x00', 0, 0, 0, true⟩

/-- The next character. -/
def char (s : Source) : Char :=
  s.here.char

/-- What is left after a number of characters. -/
def skip (n : Nat) (s : Source) : Source :=
  s.drop n

/-- The character after a number of others. -/
def charAfter (n : Nat) (s : Source) : Char :=
  (s.skip n).char

def column (s : Source) : Nat :=
  s.here.column

/-- The characters at the front that are of a class. -/
def takeChars (p : Char → Bool) (s : Source) : List Char :=
  (s.takeWhile fun spot => p spot.char).map Spot.char

/-- What is left after the characters at the front that are of a class. -/
def dropChars (p : Char → Bool) (s : Source) : Source :=
  s.dropWhile fun spot => p spot.char

/-- What is left at the end of the line, if only blanks and a comment come before that; otherwise
what is left after blanks. A blank must come before a comment. -/
def skipToLineEnd? (s : Source) : Option Source :=
  let rest := s.dropChars isBlank
  if rest.char = '#' then
    if isBlank s.char then some (rest.dropChars fun c => !isLineEnd c) else none
  else some rest

/-- Three times the given character and a gap stand at the start of a line. -/
def startsWithMark (mark : Char) (s : Source) : Bool :=
  s.column == 0 && s.takeChars (· == mark) == [mark, mark, mark] && isGap (s.charAfter 3)

/-- The mark that starts or ends a document stands here. -/
def startsWithDocumentMark (s : Source) : Bool :=
  s.startsWithMark '-' || s.startsWithMark '.'

end Source

end Taxonomy.Yaml
