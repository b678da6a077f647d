import Taxonomy.Yaml.Spot
import Taxonomy.Yaml.Token

/-!
# Tags, anchors and directives

A tag is a handle and a suffix, or a whole name between angle brackets. Directives, one a line
before a document, give handles their meaning; those with other names are passed over.
-/

namespace Taxonomy.Yaml

/-! ## Anchors -/

/-- The characters of anchors: all but gaps, flow indicators and the byte order mark. -/
def isAnchorChar (c : Char) : Bool :=
  !isGap c && !isFlow c && c != '\ufeff'

/-- The name of an anchor or an alias after its indicator. -/
def readAnchor (s : Source) : Option (String × Source) :=
  match s.takeChars isAnchorChar with
  | [] => none
  | name => some (String.ofList name, s.dropChars isAnchorChar)

/-! ## Tags -/

/-- The characters of whole names of tags. -/
def isUriChar (c : Char) : Bool :=
  c.isAlphanum || c == '-' || "#;/?:@&=+$,_.!~*'()[]%".toList.contains c

/-- The characters of a tag after its handle. -/
def isTagChar (c : Char) : Bool :=
  isUriChar c && !isFlow c && c != '!'

/-- A byte written as a percent sign and two digits. -/
def readByte : Source → Option (Nat × Source)
  | a :: b :: c :: rest =>
    if a.char = '%' then (Text.natOfDigits? 16 [b.char, c.char]).map fun n => (n, rest) else none
  | _ => none

/-- How many bytes come after the first byte of a character. -/
def trailingCount? (byte : Nat) : Option Nat :=
  if byte < 0x80 then some 0
  else if byte < 0xC0 then none
  else if byte < 0xE0 then some 1
  else if byte < 0xF0 then some 2
  else if byte < 0xF8 then some 3
  else none

/-- A number that is made longer by a number of bytes. -/
def readTrailing : Nat → Nat → Source → Option (Nat × Source)
  | 0, code, s => some (code, s)
  | count + 1, code, s => do
    let (byte, rest) ← readByte s
    if 0x80 ≤ byte && byte < 0xC0 then readTrailing count (256 * code + byte) rest else none

/-- The character whose code point is made of the bytes of one character. -/
def readEscape (s : Source) : Option (Char × Source) := do
  let (byte, rest) ← readByte s
  let (code, rest) ← readTrailing (← trailingCount? byte) byte rest
  return (← Text.scalar? code, rest)

/-- Characters of a class, with escapes taken for what they stand for. The first argument bounds the
steps. -/
def readUriFrom (p : Char → Bool) : Nat → Source → Option (List Char × Source)
  | 0, _ => none
  | steps + 1, s =>
    if s.char = '%' then do
      let (c, rest) ← readEscape s
      let (cs, rest) ← readUriFrom p steps rest
      return (c :: cs, rest)
    else if p s.char then do
      let (cs, rest) ← readUriFrom p steps (s.skip 1)
      return (s.char :: cs, rest)
    else some ([], s)

def readUri (p : Char → Bool) (s : Source) : Option (List Char × Source) :=
  readUriFrom p (s.length + 1) s

/-- A handle: an exclamation mark, a word, and another mark if there is one. -/
def readHandle (s : Source) : Option (List Char × Source) :=
  if s.char = '!' then
    let word := (s.skip 1).takeChars isWord
    let rest := (s.skip 1).dropChars isWord
    if rest.char = '!' then some ('!' :: word ++ ['!'], rest.skip 1) else some ('!' :: word, rest)
  else none

/-- A handle with a mark at both ends. -/
def isClosedHandle (handle : List Char) : Bool :=
  2 ≤ handle.length && handle.getLast? == some '!'

/-- The handle and the suffix of a tag. What looks like a handle without a mark at its end is the
start of the suffix. -/
def readTagParts (s : Source) : Option (List Char × List Char × Source) :=
  if s.charAfter 1 = '<' then do
    let (name, rest) ← readUri isUriChar (s.skip 2)
    if rest.char = '>' then return ([], name, rest.skip 1) else none
  else do
    let (handle, rest) ← readHandle s
    let (suffix, rest) ← readUri isTagChar rest
    if isClosedHandle handle then
      if suffix.isEmpty then none else return (handle, suffix, rest)
    else
      let suffix := handle.drop 1 ++ suffix
      return (if suffix.isEmpty then ([], ['!'], rest) else (['!'], suffix, rest))

/-- A tag; in a flow collection an indicator may follow it. -/
def readTag (inFlow : Bool) (s : Source) : Option (Token × Source) := do
  let (handle, suffix, rest) ← readTagParts s
  if isGap rest.char || (inFlow && isFlow rest.char) then
    return (.tag (String.ofList handle) (String.ofList suffix), rest)
  else none

/-! ## Directives -/

/-- A number of up to nine digits. -/
def readVersionPart (s : Source) : Option Source :=
  let digits := s.takeChars Char.isDigit
  if digits.isEmpty || 9 < digits.length then none else some (s.dropChars Char.isDigit)

def readVersion (s : Source) : Option (Token × Source) := do
  let rest ← readVersionPart (s.dropChars isBlank)
  if rest.char = '.' then return (.version, ← readVersionPart (rest.skip 1)) else none

/-- What a handle stands for: a local name, or the start of names. -/
def readTagStart (s : Source) : Option (List Char × Source) :=
  if s.char = '!' then (readUri isUriChar (s.skip 1)).map fun r => ('!' :: r.1, r.2)
  else if isTagChar s.char then readUri isUriChar s
  else none

def readTagHandle (s : Source) : Option (Token × Source) := do
  let (handle, rest) ← readHandle (s.dropChars isBlank)
  if handle.length = 1 || isClosedHandle handle then
    let (start, rest) ← readTagStart (rest.dropChars isBlank)
    if isGap rest.char then
      return (.tagHandle (String.ofList handle) (String.ofList start), rest)
    else none
  else none

/-- A directive after its indicator, through the end of its line. -/
def readDirective (s : Source) : Option (Token × Source) := do
  let name := s.takeChars isWord
  let rest := s.dropChars isWord
  if name.isEmpty || !isGap rest.char then none
  else
    let (token, rest) ←
      if name = "YAML".toList then readVersion rest
      else if name = "TAG".toList then readTagHandle rest
      else some (.tagHandle "" "", rest.dropChars fun c => !isLineEnd c)
    let rest ← rest.skipToLineEnd?
    if rest.char = '\n' then return (token, rest.skip 1)
    else if rest.char = '\x00' then return (token, rest)
    else none

end Taxonomy.Yaml
