import Taxonomy.Toml.Number
import Taxonomy.Toml.Table

/-!
# Reading TOML documents

Each line of a document is a header, a key with its value, or nothing but a comment. Arrays may go
over several lines and end with a comma, tables in braces may do neither. Reading fails as a whole
if any part of the document breaks the rules.
-/

namespace Taxonomy.Toml

/-- Arrays, tables in braces and the parts of a dotted key may nest less deep than this. -/
def nestingLimit : Nat := 80

/-- A comment up to the end of its line, if one is next. -/
def skipComment : List Char → List Char
  | '#' :: rest => rest.dropWhile isPlain
  | cs => cs

/-- The rest after the end of a line, which may be the end of the document. -/
def lineEnd? : List Char → Option (List Char)
  | [] => some []
  | cs => newline? cs

/-- Blanks, a comment and the end of the line: all that may follow on a line. -/
def restOfLine? (cs : List Char) : Option (List Char) :=
  lineEnd? (skipComment (skipBlanks cs))

/-- Skips blanks, line breaks and comments with their line breaks. -/
def skipLines : Bool → List Char → List Char
  | _, '\r' :: '\n' :: rest => skipLines false rest
  | inComment, c :: rest =>
    if c = '\n' then skipLines false rest
    else if inComment then if isPlain c then skipLines true rest else c :: rest
    else if isBlank c then skipLines false rest
    else if c = '#' then skipLines true rest
    else c :: rest
  | _, [] => []

/-- The characters of a key without quotes. -/
def isBareKeyChar (c : Char) : Bool :=
  c.isAlphanum || c == '-' || c == '_'

/-- One part of a key. -/
def readSimpleKey : List Char → Option (String × List Char)
  | '"' :: rest => (readBasic rest).map fun r => (String.ofList r.1, r.2)
  | '\'' :: rest => (readLiteral rest).map fun r => (String.ofList r.1, r.2)
  | cs =>
    match cs.takeWhile isBareKeyChar with
    | [] => none
    | name => some (String.ofList name, cs.dropWhile isBareKeyChar)

/-- A key: parts with dots between them and blanks around them. The first argument bounds the number
of parts. -/
def readKey : Nat → List Char → Option (List String × List Char)
  | 0, _ => none
  | parts + 1, cs =>
    match readSimpleKey (skipBlanks cs) with
    | none => none
    | some (name, rest) =>
      match skipBlanks rest with
      | '.' :: rest => (readKey parts rest).map fun r => (name :: r.1, r.2)
      | rest => some ([name], rest)

mutual

/-- A value. The first argument bounds the steps, the second the nesting. -/
def readValue : Nat → Nat → List Char → Option (Toml × List Char)
  | 0, _, _ => none
  | steps + 1, nesting, cs =>
    match cs with
    | [] => none
    | c :: rest =>
      if c = '"' || c = '\'' then
        (readString cs).map fun r => (.string (String.ofList r.1), r.2)
      else if c = '[' then
        match nesting with
        | 0 => none
        | nesting + 1 => (readItems steps nesting rest).map fun r => (.array r.1, r.2)
      else if c = '{' then
        match nesting with
        | 0 => none
        | nesting + 1 =>
          let pairs :=
            match skipBlanks rest with
            | '}' :: rest => some ([], rest)
            | rest => readPairs steps nesting rest
          match pairs with
          | none => none
          | some (pairs, rest) => (inlineTable? pairs).map fun v => (v, rest)
      else if c = 't' then
        (if "true".toList.isPrefixOf cs then some (.boolean true, cs.drop 4) else none)
      else if c = 'f' then
        (if "false".toList.isPrefixOf cs then some (.boolean false, cs.drop 5) else none)
      else
        match readDateTime cs with
        | some r => some r
        | none => readNumber cs

/-- The items of an array after its bracket or a comma, and the closing bracket. -/
def readItems : Nat → Nat → List Char → Option (List Toml × List Char)
  | 0, _, _ => none
  | steps + 1, nesting, cs =>
    match skipLines false cs with
    | ']' :: rest => some ([], rest)
    | cs =>
      match readValue steps nesting cs with
      | none => none
      | some (item, rest) =>
        match skipLines false rest with
        | ',' :: rest => (readItems steps nesting rest).map fun r => (item :: r.1, r.2)
        | ']' :: rest => some ([item], rest)
        | _ => none

/-- One pair or more of a table in braces, and the closing brace. -/
def readPairs : Nat → Nat → List Char → Option (List (List String × Toml) × List Char)
  | 0, _, _ => none
  | steps + 1, nesting, cs =>
    match readKey (nestingLimit - 1) cs with
    | some (key, '=' :: rest) =>
      match readValue steps nesting (skipBlanks rest) with
      | none => none
      | some (value, rest) =>
        match skipBlanks rest with
        | ',' :: rest => (readPairs steps nesting rest).map fun r => ((key, value) :: r.1, r.2)
        | '}' :: rest => some ([(key, value)], rest)
        | _ => none
    | _ => none

end

/-- A header after its opening brackets: a key and as many closing brackets. -/
def readHeader (closing : List Char) (cs : List Char) : Option (List String × List Char) :=
  match readKey (nestingLimit - 1) cs with
  | none => none
  | some (key, rest) =>
    if closing.isPrefixOf rest then
      (restOfLine? (rest.drop closing.length)).map fun rest => (key, rest)
    else none

/-- A line with a header or a key with its value, and the lines after it. -/
def readStatement (steps : Nat) : List Char → Option (Statement × List Char)
  | '[' :: '[' :: rest => (readHeader [']', ']'] rest).map fun r => (.element r.1, r.2)
  | '[' :: rest => (readHeader [']'] rest).map fun r => (.header r.1, r.2)
  | cs =>
    match readKey (nestingLimit - 1) cs with
    | some (key, '=' :: rest) =>
      match readValue steps (nestingLimit - 1) (skipBlanks rest) with
      | none => none
      | some (value, rest) => (restOfLine? rest).map fun rest => (.assignment key value, rest)
    | _ => none

/-- The lines of a document. The first argument bounds the steps. -/
def readStatements : Nat → List Char → Option (List Statement)
  | 0, _ => none
  | steps + 1, cs =>
    match skipBlanks cs with
    | [] => some []
    | c :: rest =>
      if c = '#' || c = '\n' || c = '\r' then
        match lineEnd? (skipComment (c :: rest)) with
        | none => none
        | some rest => readStatements steps rest
      else
        match readStatement steps (c :: rest) with
        | none => none
        | some (statement, rest) => (readStatements steps rest).map (statement :: ·)

/-- The table that a document writes; a byte order mark may come first. Every step takes a character
or goes one bracket deeper. -/
def ofText? (text : String) : Option (List (String × Toml)) :=
  let cs :=
    match text.toList with
    | '\uFEFF' :: rest => rest
    | cs => cs
  (readStatements (2 * cs.length + 2) cs).bind ofStatements?

end Taxonomy.Toml
