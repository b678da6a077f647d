import Taxonomy.Yaml.Scalar.Quoted

/-!
# Plain scalars

A scalar without quotes ends before a comment, before a colon with a gap after it, and in flow
collections before their indicators. It goes on over lines that are indented further than the
collection around it.
-/

namespace Taxonomy.Yaml.Plain

/-- A character ends a run, as the character after it shows. -/
def endsRun (inFlow : Bool) (c next : Char) : Bool :=
  isGap c || (c == ':' && (isGap next || (inFlow && isFlow next))) || (inFlow && isFlow c)

def readRun (inFlow : Bool) : Source → List Char × Source
  | [] => ([], [])
  | s :: rest =>
    if endsRun inFlow s.char (Source.char rest) then ([], s :: rest)
    else
      let r := readRun inFlow rest
      (s.char :: r.1, r.2)

/-- Nothing but blanks and a comment is left of the line. -/
def isEmptyLine (s : Source) : Bool :=
  match s.skipToLineEnd? with
  | some rest => isLineEnd rest.char
  | none => false

/-- What a gap between two runs stands for, and the rest. A tab may not indent a line below
`indent`, unless the line is empty; `isSkipped` tells that the line has turned out to be such. -/
def readGap (indent : Int) (isSkipped : Bool) (breaks : Nat) (blanks : List Char) :
    Source → Option (List Char × Source)
  | [] => none
  | s :: rest =>
    if s.char = '\n' then readGap indent false (breaks + 1) blanks rest
    else if isSkipped && s.char != '\x00' then readGap indent true breaks blanks rest
    else if isBlank s.char then
      if breaks = 0 then readGap indent false 0 (blanks ++ [s.char]) rest
      else if s.char = '\t' && s.column < indent then
        if isEmptyLine (s :: rest) then readGap indent true breaks blanks rest else none
      else readGap indent false breaks blanks rest
    else some (if breaks = 0 then blanks else Quoted.foldBreaks breaks, s :: rest)

/-- The scalar that starts here, and the rest after it and the gap behind it. The first argument
bounds the steps. -/
def readFrom (inFlow : Bool) (indent : Int) : Nat → Source → Option (List Char × Source)
  | 0, _ => none
  | steps + 1, s =>
    if s.startsWithDocumentMark || s.char = '#' then some ([], s)
    else if inFlow && s.char = '-' && isFlow (s.charAfter 1) then none
    else
      let (run, rest) := readRun inFlow s
      if isBlank rest.char || rest.char = '\n' then do
        let (gap, rest) ← readGap indent false 0 [] rest
        if !inFlow && rest.column < indent then return (run, rest)
        else
          let (text, rest) ← readFrom inFlow indent steps rest
          return (if text.isEmpty then run else run ++ gap ++ text, rest)
      else some (run, rest)

/-- The scalar that starts here, and the rest after it and the gap behind it. In a flow collection
it must not start below `indent`. -/
def read (inFlow : Bool) (indent : Int) (s : Source) : Option (List Char × Source) :=
  if inFlow && s.column < indent then none else readFrom inFlow indent (s.length + 1) s

end Taxonomy.Yaml.Plain
