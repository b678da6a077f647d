import Taxonomy.Yaml.Spot

/-!
# Block scalars

A block scalar is what its lines hold after their indentation. A literal one keeps all line breaks;
a folded one makes a blank of a single break between two lines that do not start with a blank. The
indentation is told by a digit or by the first line that is not empty, and an indicator tells what
becomes of the breaks at the end.
-/

namespace Taxonomy.Yaml.Block

/-- What becomes of line breaks at the end: one is kept, none, or all. -/
inductive Chomping
  | clip
  | strip
  | keep
  deriving DecidableEq, Repr, Inhabited

def chomping? (c : Char) : Option Chomping :=
  if c = '+' then some .keep else if c = '-' then some .strip else none

/-- The digit that tells an indentation, which may not be 0, if there is one; and the rest. -/
def readDigit (s : Source) : Option (Nat × Source) :=
  if s.char = '0' then none
  else if s.char.isDigit then some (s.char.toNat - 48, s.skip 1)
  else some (0, s)

/-- The indicators after the first one, in either order, 0 for no digit. -/
def readIndicators (s : Source) : Option (Chomping × Nat × Source) :=
  match chomping? s.char with
  | some chomping => (readDigit (s.skip 1)).map fun r => (chomping, r.1, r.2)
  | none =>
    (readDigit s).map fun r =>
      match if r.1 = 0 then none else chomping? r.2.char with
      | some chomping => (chomping, r.1, r.2.skip 1)
      | none => (.clip, r.1, r.2)

/-- How many empty lines there are, whose blanks do not reach beyond `width`, and what is left after
the indentation of the next line. -/
def skipEmptyLines (width : Nat) : Source → Nat × Source
  | [] => (0, [])
  | s :: rest =>
    if s.char = ' ' && s.column < width then skipEmptyLines width rest
    else if s.char = '\n' then
      let r := skipEmptyLines width rest
      (r.1 + 1, r.2)
    else (0, s :: rest)

/-- The indentation of the first line that is not empty, or of an empty line before it if that
reaches further. -/
def widest : Source → Nat
  | [] => 0
  | s :: rest =>
    if s.char = ' ' then widest rest
    else if s.char = '\n' then max s.column (widest rest)
    else s.column

/-- What is read of the lines of a scalar: their text, whether a line break comes after it, how many
empty lines come after that, and the rest. -/
structure Lines where
  text : List Char
  hasBreak : Bool
  empties : Nat
  rest : Source

/-- The lines that are indented by `width`. The first argument bounds their number. `hasBreak` and
`empties` tell what comes before, and `isSpaced` that the line before starts with a blank. -/
def readLines (isFolded : Bool) (width : Nat) :
    Nat → (hasBreak isSpaced : Bool) → (empties : Nat) → Source → Lines
  | 0, hasBreak, _, empties, s => ⟨[], hasBreak, empties, s⟩
  | bound + 1, hasBreak, isSpaced, empties, s =>
    if s.column != width || s.char = '\x00' || (width = 0 && s.startsWithMark '.') then
      ⟨[], hasBreak, empties, s⟩
    else
      let between :=
        if isFolded && hasBreak && !isSpaced && !isBlank s.char then
          if empties = 0 then [' '] else List.replicate empties '\n'
        else (if hasBreak then ['\n'] else []) ++ List.replicate empties '\n'
      let line := s.takeChars fun c => !isLineEnd c
      let rest := s.dropChars fun c => !isLineEnd c
      if rest.char = '\x00' then ⟨between ++ line, false, 0, rest⟩
      else
        let next := skipEmptyLines width (rest.skip 1)
        let lines := readLines isFolded width bound true (isBlank s.char) next.1 next.2
        { lines with text := between ++ line ++ lines.text }

/-- The breaks at the end of a scalar that has lines. A last line without a break has one added. -/
def chomp (chomping : Chomping) (width : Nat) (lines : Lines) : List Char :=
  let isOpen := lines.rest.char = '\x00' && max width 1 ≤ lines.rest.column
  match chomping with
  | .strip => []
  | .clip => (if lines.hasBreak then ['\n'] else []) ++ (if isOpen then ['\n'] else [])
  | .keep =>
    (if lines.hasBreak then ['\n'] else []) ++ (if isOpen then ['\n'] else []) ++
      List.replicate lines.empties '\n'

/-- The breaks of a scalar without lines at the end of the document. -/
def chompEmpty (chomping : Chomping) (hasBreak : Bool) (empties : Nat) : List Char :=
  if chomping = .strip || !hasBreak then []
  else if chomping = .clip then ['\n']
  else List.replicate (max empties 1) '\n'

/-- The scalar after its first indicator, in a collection that is indented by `indent`, and the
rest. -/
def read (isFolded : Bool) (indent : Int) (s : Source) : Option (List Char × Source) := do
  let (chomping, digit, rest) ← readIndicators s
  let lineEnd ← rest.skipToLineEnd?
  if !isLineEnd lineEnd.char then none
  else
    let hasBreak := lineEnd.char == '\n'
    let start := lineEnd.skip (if hasBreak then 1 else 0)
    if start.char = '\t' then none
    else
      let width :=
        if digit = 0 then max (widest start) (indent + 1).toNat
        else (max indent 0).toNat + digit
      let (empties, first) := skipEmptyLines width start
      if first.char = '\x00' then return (chompEmpty chomping hasBreak empties, first)
      else if first.column < width && indent < first.column then none
      else
        let lines := readLines isFolded width first.length false false empties first
        return (lines.text ++ chomp chomping width lines, lines.rest)

end Taxonomy.Yaml.Block
