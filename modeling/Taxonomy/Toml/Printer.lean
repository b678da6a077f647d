import Taxonomy.Toml.Value

/-!
# Writing TOML documents

A string is written in the first of five forms that fits: plain, in single quotes, over several
lines, over several lines in single quotes, and with everything escaped. A form over several lines
starts with a line break if the string has one.
-/

namespace Taxonomy.Toml

/-- A control character that must be escaped wherever it stands. -/
def isControl (c : Char) : Bool :=
  c != '\t' && c != '\n' && (c.toNat < 0x20 || c.toNat == 0x7F)

/-- Whether three of a character come in a row, `run` of them having come already. -/
def hasRunOfThree (quote : Char) : Nat → List Char → Bool
  | _, [] => false
  | run, c :: rest =>
    if c = quote then 2 ≤ run || hasRunOfThree quote (run + 1) rest
    else hasRunOfThree quote 0 rest

/-- A digit of base 16, letters in upper case. -/
def upperHexDigit (n : Nat) : Char :=
  if n < 10 then Char.ofNat (48 + n) else Char.ofNat (55 + n)

/-- A character other than a quote between double quotes. -/
def escapeChar (overLines : Bool) (c : Char) : List Char :=
  if c = '\t' then ['\\', 't']
  else if c = '\n' then if overLines then ['\n'] else ['\\', 'n']
  else if c = '\\' then ['\\', '\\']
  else if c = '\x08' then ['\\', 'b']
  else if c = '\x0c' then ['\\', 'f']
  else if c = '\r' then ['\\', 'r']
  else if isControl c then
    ['\\', 'u', '0', '0', upperHexDigit (c.toNat / 16), upperHexDigit (c.toNat % 16)]
  else [c]

/-- The text between double quotes. Over several lines two quotes may stand in a row and the third
is escaped; on one line all are. -/
def escape (overLines : Bool) : Nat → List Char → List Char
  | _, [] => []
  | run, c :: rest =>
    if c = '"' then
      if run < (if overLines then 2 else 0) then '"' :: escape overLines (run + 1) rest
      else '\\' :: '"' :: escape overLines 0 rest
    else escapeChar overLines c ++ escape overLines 0 rest

def triple (quote : Char) : List Char :=
  [quote, quote, quote]

/-- The line break that a form over several lines starts with. -/
def leadingBreak (cs : List Char) : List Char :=
  if cs.contains '\n' then ['\n'] else []

/-- A string in the first form that fits. -/
def renderString (cs : List Char) : List Char :=
  let controls := cs.any isControl
  let newline := cs.contains '\n'
  if !controls && !newline && !cs.contains '\\' && !cs.contains '"' then
    '"' :: escape false 0 cs ++ ['"']
  else if !controls && !newline && !cs.contains '\'' then '\'' :: cs ++ ['\'']
  else if !controls && !cs.contains '\\' && !hasRunOfThree '"' 0 cs then
    triple '"' ++ leadingBreak cs ++ escape true 0 cs ++ triple '"'
  else if !controls && !hasRunOfThree '\'' 0 cs then
    triple '\'' ++ leadingBreak cs ++ cs ++ triple '\''
  else if newline then triple '"' ++ leadingBreak cs ++ escape true 0 cs ++ triple '"'
  else '"' :: escape false 0 cs ++ ['"']

/-- What a setting can be: a text or a switch. -/
inductive Scalar
  | text (s : String)
  | switch (b : Bool)
  deriving DecidableEq, Repr

def Scalar.render : Scalar → List Char
  | text s => renderString s.toList
  | switch b => if b then "true".toList else "false".toList

/-- A table: its name and its keys with their values. -/
structure Section where
  name : String
  entries : List (String × Scalar)
  deriving Repr

def renderEntry (entry : String × Scalar) : List Char :=
  entry.1.toList ++ " = ".toList ++ entry.2.render ++ ['\n']

def Section.render (s : Section) : List Char :=
  '[' :: s.name.toList ++ [']', '\n'] ++ s.entries.flatMap renderEntry

/-- The text of a document: its tables with an empty line between neighbours. -/
def documentText (sections : List Section) : String :=
  String.ofList (['\n'].intercalate (sections.map Section.render))

end Taxonomy.Toml
