import Taxonomy.Text.Blank
import Taxonomy.Text.Hex

/-!
# INI documents

A document is a list of entries, each a key and its text with an equals sign or a colon between
them, and of headers in square brackets that name the section that the entries after them belong to.
A line that starts with a semicolon or a number sign is a comment. Backslashes start escapes
everywhere but in comments, and a text may be between quotes, which let it go over several lines.
-/

namespace Taxonomy.Ini

/-- A part of a document. -/
inductive Statement
  | header (name : String)
  | entry (key text : String)
  deriving DecidableEq, Repr

/-- The character with the code point that four digits in base 16 write; the first may be a plus
sign. -/
def codePoint? : List Char → Option Char
  | '+' :: digits => Text.scalarOfHex? digits
  | digits => Text.scalarOfHex? digits

/-- What a backslash and one more character stand for; a line break after a backslash is nothing,
and a character without a meaning of its own is itself. -/
def shortEscape (c : Char) : List Char :=
  if c = '0' then ['\x00']
  else if c = 'a' then ['\x07']
  else if c = 'b' then ['\x08']
  else if c = 't' then ['\t']
  else if c = 'r' then ['\r']
  else if c = 'n' then ['\n']
  else if c = '\n' then []
  else [c]

/-- The characters up to one that ends them, with escapes taken for what they stand for, and the
rest from that one on. The end of the document ends them too if `toEnd` is set. -/
def readText (ends : Char → Bool) (toEnd : Bool) : List Char → Option (List Char × List Char)
  | [] => if toEnd then some ([], []) else none
  | '\\' :: 'x' :: a :: b :: c :: d :: rest =>
    match codePoint? [a, b, c, d], readText ends toEnd rest with
    | some x, some (text, rest) => some (x :: text, rest)
    | _, _ => none
  | '\\' :: c :: rest =>
    if c = 'x' then none
    else (readText ends toEnd rest).map fun r => (shortEscape c ++ r.1, r.2)
  | c :: rest =>
    if ends c then some ([], c :: rest)
    else if c = '\\' then none
    else (readText ends toEnd rest).map fun r => (c :: r.1, r.2)

/-- The characters without blanks at the two ends. -/
def trim (cs : List Char) : List Char :=
  ((cs.dropWhile Text.isBlank).reverse.dropWhile Text.isBlank).reverse

def isLineEnd (c : Char) : Bool :=
  c == '\n' || c == '\r'

/-- The rest of a line. -/
def readLine : List Char → Option (List Char × List Char) :=
  readText isLineEnd true

/-- A text after its mark: up to the end of the line, but what is between quotes at its start may go
further. Blanks at the two ends are no part of it. -/
def readValue (cs : List Char) : Option (String × List Char) :=
  let cs := cs.dropWhile fun c => Text.isBlank c && !isLineEnd c
  let quoted : Option (List Char × List Char) :=
    match cs with
    | quote :: rest =>
      if quote = '"' || quote = '\'' then
        (readText (· == quote) false rest).map fun r => (r.1, r.2.drop 1)
      else some ([], cs)
    | [] => some ([], [])
  match quoted with
  | none => none
  | some (start, rest) =>
    (readLine rest).map fun r => (String.ofList (trim (start ++ r.1)), r.2)

/-- A header after its opening bracket. -/
def readHeader (cs : List Char) : Option (Statement × List Char) :=
  (readText (· == ']') false cs).map fun r =>
    (Statement.header (String.ofList (trim r.1)), r.2.drop 1)

/-- A key, which may go over several lines but not be empty, and its text. -/
def readEntry (cs : List Char) : Option (Statement × List Char) :=
  match readText (fun c => c == '=' || c == ':') false cs with
  | none => none
  | some (key, rest) =>
    if (trim key).isEmpty then none
    else
      (readValue (rest.drop 1)).map fun r => (Statement.entry (String.ofList (trim key)) r.1, r.2)

/-- All statements. The first argument bounds the steps, the second tells that a line starts
here. -/
def readStatements : Nat → Bool → List Char → Option (List Statement)
  | 0, _, _ => none
  | _, _, [] => some []
  | steps + 1, lineStart, c :: rest =>
    if Text.isBlank c then readStatements steps (c == '\n') rest
    else if c = ';' || c = '#' then
      if lineStart then readStatements steps true ((rest.dropWhile (· != '\n')).drop 1) else none
    else
      let statement := if c = '[' then readHeader rest else readEntry (c :: rest)
      match statement with
      | none => none
      | some (statement, rest) => (readStatements steps false rest).map (statement :: ·)

/-- The statements of a document. Every step takes a character. -/
def ofText? (text : String) : Option (List Statement) :=
  readStatements (text.length + 1) true text.toList

end Taxonomy.Ini
