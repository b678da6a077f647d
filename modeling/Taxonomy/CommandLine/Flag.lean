/-!
# Flags

The flags of the command line: how they are written, which of them take a value and what it may be,
and which command knows which flag.
-/

namespace Taxonomy

inductive CommandName
  | generate
  | check
  | search
  deriving DecidableEq, Repr

namespace CommandName

def name : CommandName → String
  | generate => "generate"
  | check => "check"
  | search => "search"

def all : List CommandName := [generate, check, search]

def ofName? (word : String) : Option CommandName :=
  all.find? (·.name == word)

/-- How many words a command takes besides its flags. -/
def maxWords : CommandName → Nat
  | generate => 0
  | check | search => 1

end CommandName

inductive Flag
  | config
  | input
  | outDir
  | treeFile
  | searchFile
  | limit
  | compact
  | withProperties
  | strict
  | allowCycles
  | help
  deriving DecidableEq, Repr

namespace Flag

/-- What a flag's value may be: any text, a path, which has at least one character, or a count. -/
inductive ValueKind
  | text
  | path
  | count
  deriving DecidableEq, Repr

def name : Flag → String
  | config => "config"
  | input => "input"
  | outDir => "out-dir"
  | treeFile => "tree-file"
  | searchFile => "search-file"
  | limit => "limit"
  | compact => "compact"
  | withProperties => "with-properties"
  | strict => "strict"
  | allowCycles => "allow-cycles"
  | help => "help"

/-- The letter that a flag may be written with. -/
def letter? : Flag → Option Char
  | config => some 'c'
  | input => some 'i'
  | outDir => some 'o'
  | limit => some 'l'
  | help => some 'h'
  | _ => none

/-- The kind of a flag's value, if it takes one. -/
def valueKind? : Flag → Option ValueKind
  | config | input | outDir => some .path
  | treeFile | searchFile => some .text
  | limit => some .count
  | compact | withProperties | strict | allowCycles | help => none

/-- The flags that are known before a command, and after one. -/
def known : Option CommandName → List Flag
  | none | some .check => [config, help]
  | some .generate =>
    [config, help, input, outDir, treeFile, searchFile, compact, withProperties,
      strict, allowCycles]
  | some .search => [config, help, input, limit]

def ofName? (command : Option CommandName) (name : String) : Option Flag :=
  (known command).find? (·.name == name)

def ofLetter? (command : Option CommandName) (letter : Char) : Option Flag :=
  (known command).find? (·.letter? == some letter)

end Flag

end Taxonomy
