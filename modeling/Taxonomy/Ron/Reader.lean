import Taxonomy.Decimal.Reader
import Taxonomy.Ron.Basic
import Taxonomy.Ron.Text

/-!
# Reading the object notation

A document is a value with blanks around it, after marks that enable extensions. Commas may follow
the last of several parts. Between parentheses there is a record if a name and a colon come first,
and a tuple otherwise.
-/

namespace Taxonomy.Ron

/-! ## Numbers -/

/-- What may stand in an integer of any base, and what in a number with a point or an exponent. -/
def isIntegerChar (c : Char) : Bool :=
  Text.isDigitOf 16 c || c == '_'

def isRealChar (c : Char) : Bool :=
  c.isDigit || c == 'e' || c == 'E' || c == '.' || c == '+' || c == '-' || c == '_'

/-- The base that an integer is written in, and the rest after the mark that tells it. -/
def readBase : List Char → Nat × List Char
  | '0' :: 'x' :: rest => (16, rest)
  | '0' :: 'b' :: rest => (2, rest)
  | '0' :: 'o' :: rest => (8, rest)
  | cs => (10, cs)

/-- How many integers there are with a sign or without one, on the side of zero that the sign
tells. -/
def integerLimit (sign : List Char) : Nat :=
  if sign.isEmpty then Decimal.wordCount
  else if sign = ['-'] then Decimal.wordCount / 2 + 1
  else Decimal.wordCount / 2

/-- An integer after its sign, underscores left out. One that is too large has no value. -/
def readInteger (sign : List Char) (cs : List Char) : Option (Ron × List Char) :=
  let (base, cs) := readBase cs
  let digits := cs.takeWhile isIntegerChar
  if digits.head? = some '_' then none
  else
    match Text.natOfDigits? base (digits.filter (· != '_')) with
    | none => none
    | some n =>
      if n < integerLimit sign then
        let value : Ron :=
          if Decimal.fitsInt64 (Decimal.applySign (sign == ['-']) n) then
            .integer (Decimal.applySign (sign == ['-']) n)
          else .real (.ofRatio false n 1)
        some (value, cs.dropWhile isIntegerChar)
      else none

/-- Infinity or what is no number, after its sign. -/
def readSpecial (sign : List Char) (cs : List Char) : Option (Ron × List Char) :=
  match word? "inf" cs, word? "NaN" cs with
  | some rest, _ => some (.real (.infinite (sign == ['-'])), rest)
  | none, some rest => some (.real .nan, rest)
  | none, none => none

/-- A number with a point or an exponent, with its sign. Underscores are no part of it. -/
def readReal (cs : List Char) : Option (Ron × List Char) :=
  (Decimal.ofChars? (cs.takeWhile isRealChar)).map fun x => (.real x, cs.dropWhile isRealChar)

/-- A number. What cannot be read as an integer is read in the other way. -/
def readNumber (cs : List Char) : Option (Ron × List Char) :=
  let sign := if cs.head? = some '+' || cs.head? = some '-' then cs.take 1 else []
  let rest := cs.drop sign.length
  match readSpecial sign rest with
  | some r => some r
  | none =>
    if (rest.takeWhile isIntegerChar).length < (rest.takeWhile isRealChar).length then readReal cs
    else
      match readInteger sign rest with
      | some r => some r
      | none => readReal cs

/-! ## Values -/

/-- There are fields between parentheses: a name comes first, and a colon after it. -/
def startsWithField (cs : List Char) : Bool :=
  match readName cs with
  | none => false
  | some (_, rest) => ((skipSpace rest).bind List.head?) == some ':'

/-- The rest after a comma and the blanks around it, or after the blanks alone, and whether there
was a comma. -/
def readComma (cs : List Char) : Option (Bool × List Char) := do
  match ← skipSpace cs with
  | ',' :: rest => return (true, ← skipSpace rest)
  | rest => return (false, rest)

/-- What does not depend on a value inside: a word, a string, a character, a unit or a number. -/
def readAtom (cs : List Char) : Option (Ron × List Char) :=
  match word? "true" cs, word? "false" cs, word? "None" cs with
  | some rest, _, _ => some (.bool true, rest)
  | _, some rest, _ => some (.bool false, rest)
  | _, _, some rest => some (.optional none, rest)
  | none, none, none =>
    match cs with
    | '(' :: ')' :: rest => some (.unit, rest)
    | '"' :: rest => (readQuoted rest).map fun r => (.text (String.ofList r.1), r.2)
    | '\'' :: rest => (readChar rest).map fun r => (.text (String.singleton r.1), r.2)
    | 'r' :: rest =>
      match readRaw rest with
      | some r => some (.text (String.ofList r.1), r.2)
      | none => none
    | _ => readNumber cs

mutual

/-- A value that starts right here, in which values nest less deep than the second argument. The
first one bounds the steps. -/
def readValue : Nat → Nat → List Char → Option (Ron × List Char)
  | 0, _, _ => none
  | steps + 1, depth, cs =>
    match word? "Some" cs with
    | some rest => readSome steps depth rest
    | none =>
      match readAtom cs with
      | some r => some r
      | none =>
        match cs with
        | '[' :: rest => do
          let (items, rest) ← readItems steps depth ']' (← skipSpace rest)
          return (.list items, rest)
        | '{' :: rest => do
          let (entries, rest) ← readEntries steps depth (← skipSpace rest)
          return (.map entries, rest)
        | _ => do
          let rest ←
            match readName cs with
            | some (_, rest) => skipSpace rest
            | none => if cs.head? = some '(' then some cs else none
          match rest with
          | '(' :: rest =>
            let rest ← skipSpace rest
            if startsWithField rest then
              let (fields, rest) ← readFields steps depth rest
              return (.map fields, rest)
            else
              let (items, rest) ← readItems steps depth ')' rest
              return (.list items, rest)
          | rest => return (.unit, rest)

/-- The value that an option has, after its word. -/
def readSome : Nat → Nat → List Char → Option (Ron × List Char)
  | steps + 1, depth + 1, cs => do
    match ← skipSpace cs with
    | '(' :: rest =>
      let (value, rest) ← readValue steps depth (← skipSpace rest)
      match ← skipSpace rest with
      | ')' :: rest => return (.optional (some value), rest)
      | _ => none
    | _ => none
  | _, _, _ => none

/-- Items up to the character that closes them. -/
def readItems : Nat → Nat → Char → List Char → Option (List Ron × List Char)
  | 0, _, _, _ => none
  | steps + 1, depth, close, cs =>
    if cs.head? = some close then some ([], cs.drop 1)
    else
      match depth with
      | 0 => none
      | depth + 1 => do
        let (item, rest) ← readValue steps depth cs
        let (comma, rest) ← readComma rest
        if comma then
          let (items, rest) ← readItems steps (depth + 1) close rest
          return (item :: items, rest)
        else if rest.head? = some close then return ([item], rest.drop 1)
        else none

/-- Entries of a map up to the brace that closes them. -/
def readEntries : Nat → Nat → List Char → Option (List (Ron × Ron) × List Char)
  | 0, _, _ => none
  | steps + 1, depth, cs =>
    if cs.head? = some '\x7d' then some ([], cs.drop 1)
    else
      match depth with
      | 0 => none
      | depth + 1 => do
        let (key, rest) ← readValue steps depth cs
        let (entry, comma, rest) ← readEntry steps depth key rest
        if comma then
          let (entries, rest) ← readEntries steps (depth + 1) rest
          return (entry :: entries, rest)
        else if rest.head? = some '\x7d' then return ([entry], rest.drop 1)
        else none

/-- Fields of a record up to the parenthesis that closes them. -/
def readFields : Nat → Nat → List Char → Option (List (Ron × Ron) × List Char)
  | 0, _, _ => none
  | steps + 1, depth, cs =>
    if cs.head? = some ')' then some ([], cs.drop 1)
    else
      match depth with
      | 0 => none
      | depth + 1 => do
        let (name, rest) ← readName cs
        let (field, comma, rest) ← readEntry steps depth (.text (String.ofList name)) rest
        if comma then
          let (fields, rest) ← readFields steps (depth + 1) rest
          return (field :: fields, rest)
        else if rest.head? = some ')' then return ([field], rest.drop 1)
        else none

/-- The colon and the value after a key, and whether there was a comma after that. -/
def readEntry : Nat → Nat → Ron → List Char → Option ((Ron × Ron) × Bool × List Char)
  | 0, _, _, _ => none
  | steps + 1, depth, key, cs => do
    match ← skipSpace cs with
    | ':' :: rest =>
      let (value, rest) ← readValue steps depth (← skipSpace rest)
      return ((key, value), ← readComma rest)
    | _ => none

end

/-! ## Documents -/

/-- The names of extensions that a document may enable. -/
def extensions : List String :=
  ["unwrap_newtypes", "implicit_some", "unwrap_variant_newtypes"]

/-- The rest after given marks and the blanks after each. -/
def skipMarks : List String → List Char → Option (List Char)
  | [], cs => some cs
  | mark :: marks, cs => do skipMarks marks (← skipSpace (← after? mark.toList cs))

/-- The rest after the names of extensions, of which there is one or more. -/
def skipExtensions : Nat → List Char → Option (List Char)
  | 0, _ => none
  | bound + 1, cs => do
    let (name, rest) ← readName cs
    if String.ofList name ∈ extensions then
      let (comma, rest) ← readComma rest
      if comma && rest.head?.any isNamePart then skipExtensions bound rest else return rest
    else none

/-- The rest after marks that enable extensions. They change nothing in how values are read. -/
def skipAttributes : Nat → List Char → Option (List Char)
  | 0, _ => none
  | bound + 1, cs =>
    if cs.head? = some '#' then do
      let rest ← skipMarks ["#", "!", "[", "enable", "("] cs
      let rest ← skipExtensions rest.length rest
      skipAttributes bound (← skipMarks [")", "]"] rest)
    else some cs

/-- How deep values may nest. -/
def maxDepth : Nat := 128

/-- The value of a document. Each character is the reason for three steps at most. -/
def ofText? (text : String) : Option Ron := do
  let cs ← skipAttributes (text.length + 1) (← skipSpace text.toList)
  let (value, rest) ← readValue (3 * text.length + 3) maxDepth cs
  let rest ← skipSpace rest
  if rest.isEmpty then some value else none

end Taxonomy.Ron
