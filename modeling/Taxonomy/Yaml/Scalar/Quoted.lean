import Taxonomy.Yaml.Spot

/-!
# Quoted scalars

A scalar between quotes may go over several lines; a line break is then a blank, and each further
one is kept. Between single quotes a quote is written twice; between double quotes there are
escapes, and a backslash at the end of a line takes the break away.
-/

namespace Taxonomy.Yaml.Quoted

/-- The character that a backslash and one more character stand for. -/
def shortEscape? (c : Char) : Option Char :=
  if c = '0' then some '\x00'
  else if c = 'a' then some '\x07'
  else if c = 'b' then some '\x08'
  else if c = 't' || c = '\t' then some '\t'
  else if c = 'n' then some '\n'
  else if c = 'v' then some '\x0b'
  else if c = 'f' then some '\x0c'
  else if c = 'r' then some '\r'
  else if c = 'e' then some '\x1b'
  else if c = ' ' || c = '"' || c = '/' || c = '\\' then some c
  else if c = 'N' then some '\x85'
  else if c = '_' then some '\xa0'
  else if c = 'L' then some '\u2028'
  else if c = 'P' then some '\u2029'
  else none

/-- How many digits a code point has after a letter. -/
def digitCount? (c : Char) : Option Nat :=
  if c = 'x' then some 2 else if c = 'u' then some 4 else if c = 'U' then some 8 else none

/-- The character that a backslash and what comes after it stand for, and the rest. -/
def escape? : Source → Option (Char × Source)
  | [] => none
  | s :: rest =>
    match digitCount? s.char with
    | some count =>
      if rest.length < count then none
      else (Text.scalarOfHex? ((rest.take count).map Spot.char)).map fun c => (c, rest.drop count)
    | none => (shortEscape? s.char).map fun c => (c, rest)

theorem length_escape?_lt {s rest : Source} {c : Char} (h : escape? s = some (c, rest)) :
    rest.length < s.length := by
  unfold escape? at h
  split at h
  · cases h
  · split at h
    · split at h
      · cases h
      · obtain ⟨_, _, hd⟩ := Option.map_eq_some_iff.mp h
        obtain ⟨_, rfl⟩ := Prod.mk.inj hd
        simp only [List.length_drop, List.length_cons]
        omega
    · obtain ⟨_, _, hd⟩ := Option.map_eq_some_iff.mp h
      obtain ⟨_, rfl⟩ := Prod.mk.inj hd
      simp

/-- A line break that is taken away stands here. -/
def joinsLines (quote : Char) (s : Source) : Bool :=
  quote == '"' && s.char == '\\' && s.charAfter 1 == '\n'

/-- Characters up to a gap, the closing quote or a line break that is taken away. -/
def readRun (quote : Char) : Source → Option (List Char × Source)
  | [] => some ([], [])
  | s :: rest =>
    if isGap s.char || joinsLines quote (s :: rest) then some ([], s :: rest)
    else if s.char = quote then
      if quote = '\'' && Source.char rest = '\'' then
        (readRun quote rest.tail).map fun r => ('\'' :: r.1, r.2)
      else some ([], s :: rest)
    else if quote = '"' && s.char = '\\' then
      match _h : escape? rest with
      | none => none
      | some (c, rest') => (readRun quote rest').map fun r => (c :: r.1, r.2)
    else (readRun quote rest).map fun r => (s.char :: r.1, r.2)
termination_by s => s.length
decreasing_by
  · simp only [List.length_tail, List.length_cons]
    omega
  · have := length_escape?_lt _h
    simp only [List.length_cons]
    omega
  · simp

/-- What line breaks between two runs stand for, the first one a blank. -/
def foldBreaks (breaks : Nat) : List Char :=
  if breaks = 1 then [' '] else List.replicate (breaks - 1) '\n'

/-- What a gap between two runs stands for, and the rest. Blanks are kept unless there is a line
break; a tab may not indent a line below `indent`. `isJoined` tells that a line break has been taken
away. -/
def readGap (indent : Int) (isJoined : Bool) (breaks : Nat) (blanks : List Char) :
    Source → Option (List Char × Source)
  | [] => none
  | s :: rest =>
    if s.char = '\n' then readGap indent isJoined (breaks + 1) blanks rest
    else if isBlank s.char then
      if isJoined || breaks != 0 then
        if s.char = '\t' && s.column < indent then none
        else readGap indent isJoined breaks blanks rest
      else readGap indent isJoined breaks (blanks ++ [s.char]) rest
    else
      let text :=
        if isJoined then List.replicate breaks '\n'
        else if breaks = 0 then blanks
        else foldBreaks breaks
      some (text, s :: rest)

/-- The scalar after its opening quote, and the rest after the closing one. The first argument
bounds the steps. -/
def readFrom (quote : Char) (indent : Int) : Nat → Source → Option (List Char × Source)
  | 0, _ => none
  | steps + 1, s =>
    if s.startsWithDocumentMark || s.char = '\x00' || s.column < indent then none
    else do
      let (run, rest) ← readRun quote s
      let isJoined := joinsLines quote rest
      let rest := rest.skip (if isJoined then 2 else 0)
      if rest.char = quote then return (run, rest.skip 1)
      else
        let (gap, rest) ← readGap indent isJoined 0 [] rest
        let (text, rest) ← readFrom quote indent steps rest
        return (run ++ gap ++ text, rest)

/-- The scalar after its opening quote, and the rest after the closing one. -/
def read (quote : Char) (indent : Int) (s : Source) : Option (List Char × Source) :=
  readFrom quote indent (s.length + 1) s

end Taxonomy.Yaml.Quoted
