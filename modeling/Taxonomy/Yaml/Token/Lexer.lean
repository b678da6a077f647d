import Taxonomy.Yaml.Scalar.Block
import Taxonomy.Yaml.Scalar.Plain
import Taxonomy.Yaml.Tag

/-!
# From a text to tokens

Indentation opens and closes block collections. That something is the key of a member shows only at
the colon after it, so the tokens that open the member are put in front of what may have been a key
since.
-/

namespace Taxonomy.Yaml

/-- A column that content is indented to: of a block collection, or of what may be inside a
member. -/
structure Indent where
  column : Nat
  isBlock : Bool
  deriving DecidableEq, Repr, Inhabited

/-- What may turn out to be a key: the place of its token, where it starts, and whether it has to be
one. -/
structure KeyStart where
  token : Nat
  spot : Spot
  isRequired : Bool
  deriving Repr, Inhabited

structure Lexer where
  rest : Source
  tokens : Array Token
  /-- The column of the last token. -/
  lastColumn : Nat
  /-- Innermost first. -/
  indents : List Indent
  /-- The latest start of a key in each flow collection that is open and, last, outside of them. -/
  keys : List (Option KeyStart)
  /-- A key may start here. -/
  isKeyAllowed : Bool
  /-- The index at which a colon needs no gap after it. -/
  adjacentAt : Nat
  /-- A flow mapping has been started with a brace or a question mark. -/
  hasFlowMapping : Bool
  /-- A member without braces is open in a flow sequence. -/
  hasLoneMember : Bool

namespace Lexer

/-! ## State -/

def inFlow (x : Lexer) : Bool :=
  1 < x.keys.length

/-- The current indentation, -1 outside of all collections. -/
def indent (x : Lexer) : Int :=
  match x.indents with
  | [] => -1
  | i :: _ => i.column

def push (token : Token) (column : Nat) (x : Lexer) : Lexer :=
  { x with tokens := x.tokens.push token, lastColumn := column }

/-- Puts a token in front of another one, or at the end. -/
def insert (token : Token) (place : Option Nat) (x : Lexer) : Lexer :=
  match place with
  | some i => { x with tokens := x.tokens.insertIdxIfInBounds i token }
  | none => { x with tokens := x.tokens.push token }

/-- Closes the collections that are indented further than a column. -/
def closeFrom (column : Int) : List Indent → Array Token → List Indent × Array Token
  | [], tokens => ([], tokens)
  | i :: rest, tokens =>
    if column < i.column then
      closeFrom column rest (if i.isBlock then tokens.push .blockEnd else tokens)
    else (i :: rest, tokens)

/-- Closes the block collections that end before a column. There is no indentation in flow
collections. -/
def unindent (column : Int) (x : Lexer) : Lexer :=
  if x.inFlow then x
  else
    let r := closeFrom column x.indents x.tokens
    { x with indents := r.1, tokens := r.2 }

/-- Opens a block collection at a column, unless one is open there. -/
def openBlock (column : Nat) (token : Token) (place : Option Nat) (x : Lexer) : Lexer :=
  if x.inFlow then x
  else
    let indents :=
      match x.indents with
      | i :: rest => if !i.isBlock && i.column ≤ column then rest else i :: rest
      | [] => []
    let x := { x with indents }
    if x.indent < (column : Int) then
      insert token place { x with indents := ⟨column, true⟩ :: indents }
    else x

/-- What comes in a block collection is indented further than the collection itself. -/
def indentContent (x : Lexer) : Lexer :=
  match x.indents with
  | i :: _ =>
    if !x.inFlow && i.isBlock then { x with indents := ⟨i.column + 1, false⟩ :: x.indents }
    else x
  | [] => x

/-- Leaves only the indentation of block collections at the front. -/
def dropContentIndents (x : Lexer) : Lexer :=
  { x with indents := x.indents.dropWhile fun i => !i.isBlock }

/-- A key may start with the next token. It must be one where a member of a block mapping is due. -/
def markKey (x : Lexer) : Lexer :=
  if x.isKeyAllowed then
    let isRequired :=
      match x.indents with
      | i :: _ => !x.inFlow && i.isBlock && i.column == x.rest.column
      | [] => false
    { x with keys := some ⟨x.tokens.size, x.rest.here, isRequired⟩ :: x.keys.tail }
  else x

/-- What has started is no key after all. -/
def forgetKey (x : Lexer) : Option Lexer :=
  match x.keys with
  | some key :: rest => if key.isRequired then none else some { x with keys := none :: rest }
  | _ => some x

/-- How many characters a key of a block mapping may have. -/
def maxKeyLength : Nat := 1024

/-- Forgets the start of a key that has become too long or that is on a line before. -/
def forgetOldKey (x : Lexer) : Option Lexer :=
  match x.keys with
  | [some key] =>
    let here := x.rest.here
    if key.spot.line < here.line || key.spot.index + maxKeyLength < here.index then x.forgetKey
    else some x
  | _ => some x

/-- Closes the member without braces that is open, if there is one. -/
def closeLoneMember (x : Lexer) : Lexer :=
  if x.hasLoneMember then
    push .flowMappingEnd x.rest.column { x with hasLoneMember := false, hasFlowMapping := false }
  else x

/-! ## Between tokens -/

/-- What is left after blanks, line breaks and comments, and whether there has been a break. A tab
may not indent a line below `indent`, unless the line is empty. `isComment` tells that a comment has
begun. -/
def skipGap (indent : Int) (isComment hasBreak : Bool) : Source → Option (Bool × Source)
  | [] => some (hasBreak, [])
  | s :: rest =>
    if s.char = '\n' then skipGap indent false true rest
    else if isComment && s.char != '\x00' then skipGap indent true hasBreak rest
    else if s.char = '\t' && s.isIndented && s.column < indent &&
        !Plain.isEmptyLine (s :: rest) then
      none
    else if isBlank s.char then skipGap indent false hasBreak rest
    else if s.char = '#' then skipGap indent true hasBreak rest
    else some (hasBreak, s :: rest)

/-- Goes on to the next token. A key may start after a line break outside of flow collections. -/
def skip (x : Lexer) : Option Lexer :=
  (skipGap x.indent false false x.rest).map fun r =>
    { x with rest := r.2, isKeyAllowed := x.isKeyAllowed || (r.1 && !x.inFlow) }

/-! ## Tokens -/

/-- The mark that starts or ends a document. -/
def readDocumentMark (token : Token) (x : Lexer) : Option Lexer := do
  let column := x.rest.column
  let x ← (x.unindent (-1)).forgetKey
  let rest := x.rest.skip 3
  let x := push token column { x with rest, isKeyAllowed := false }
  if token = .documentEnd then
    let rest ← rest.skipToLineEnd?
    if isLineEnd rest.char then return { x with rest } else none
  else return x

def readDirectiveLine (x : Lexer) : Option Lexer := do
  let x ← (x.unindent (-1)).forgetKey
  let (token, rest) ← readDirective (x.rest.skip 1)
  return push token x.rest.column { x with rest, isKeyAllowed := false }

/-- How many flow collections may be open. -/
def maxFlowDepth : Nat := 255

def openFlow (token : Token) (x : Lexer) : Option Lexer := do
  let column := x.rest.column
  let x := x.markKey.indentContent
  if maxFlowDepth < x.keys.length then none
  else
    let rest ← (x.rest.skip 1).skipToLineEnd?
    return push token column
      { x with
        rest
        keys := none :: x.keys
        isKeyAllowed := true
        hasFlowMapping := x.hasFlowMapping || token == .flowMappingStart }

def closeFlow (token : Token) (x : Lexer) : Option Lexer := do
  let column := x.rest.column
  let x ← x.forgetKey
  let x := { x with keys := if x.inFlow then x.keys.tail else x.keys, isKeyAllowed := false }
  let x := x.closeLoneMember
  let rest ← (x.rest.skip 1).skipToLineEnd?
  let adjacentAt := if x.inFlow then rest.here.index else x.adjacentAt
  return push token column { x with rest, adjacentAt }

def readFlowEntry (x : Lexer) : Option Lexer := do
  let column := x.rest.column
  let x ← x.forgetKey
  let x := closeLoneMember { x with isKeyAllowed := true }
  return push .flowEntry column { x with rest := ← (x.rest.skip 1).skipToLineEnd? }

/-- The last token is an anchor or a tag in the first column. -/
def endsWithMark (x : Lexer) : Bool :=
  x.lastColumn == 0 &&
    match x.tokens.back? with
    | some (.anchor _) | some (.tag _ _) => true
    | _ => false

/-- The indicator of an item of a block sequence. -/
def readEntry (x : Lexer) : Option Lexer := do
  let column := x.rest.column
  if x.inFlow || !x.isKeyAllowed || (column == 0 && x.endsWithMark && -1 < x.indent) then none
  else
    let x := x.openBlock column .sequenceStart none
    let blanks := (x.rest.skip 1).takeChars isBlank
    let rest ← (x.rest.skip 1).skipToLineEnd?
    if blanks.contains '\t' && rest.char = '-' && isGap (rest.charAfter 1) then none
    else
      let x := { x with rest }
      let x := if rest.char = '\n' || isFlow rest.char then x.indentContent else x
      let x ← x.forgetKey
      return push .entry column { x with isKeyAllowed := true }

/-- The rest after spaces, line breaks and comments. `isComment` tells that a comment has begun. -/
def skipAfterKey (isComment : Bool) : Source → Source
  | [] => []
  | s :: rest =>
    if s.char = '\n' || s.char = ' ' then skipAfterKey (isComment && s.char == ' ') rest
    else if s.char = '#' || (isComment && s.char != '\x00') then skipAfterKey true rest
    else s :: rest

/-- The indicator of a key. -/
def readKey (x : Lexer) : Option Lexer := do
  let column := x.rest.column
  if !x.inFlow && !x.isKeyAllowed then none
  else
    let x := x.openBlock column .mappingStart none
    let x ← forgetKey { x with hasFlowMapping := x.hasFlowMapping || x.inFlow }
    let first := x.rest.charAfter 1
    let rest := skipAfterKey false (x.rest.skip 1)
    if !(first = ' ' || first = '\n') || rest.char = '\t' then none
    else return push .key column { x with rest, isKeyAllowed := !x.inFlow }

/-- The rest after the colon before a value. A tab after it may only be followed by what shows that
no block collection starts there. -/
def skipColon? (s : Source) : Option Source :=
  if s.charAfter 1 = '\t' then
    match (s.skip 1).skipToLineEnd? with
    | none => none
    | some rest =>
      if !((s.skip 1).takeChars isBlank).contains ' ' && isWord rest.char then none else some rest
  else some (s.skip 1)

/-- The value of what has turned out to be a key. -/
def readValueOf (key : KeyStart) (x : Lexer) : Option Lexer :=
  let isLone := x.inFlow && !x.hasFlowMapping
  if isLone && key.spot.line < x.rest.here.line then none
  else
    (skipColon? x.rest).map fun rest =>
      let column := x.rest.column
      let x := { x with rest, hasLoneMember := isLone }
      let x := x.insert .key (some key.token)
      let x := if isLone then x.insert .flowMappingStart (some key.token) else x
      let x := (x.openBlock key.spot.column .mappingStart (some key.token)).indentContent
      push .value column { x with keys := none :: x.keys.tail, isKeyAllowed := false }

/-- A value without a key, or of a key that has its own indicator. -/
def readLoneValue (x : Lexer) : Option Lexer :=
  let isLone := x.inFlow && !x.hasFlowMapping
  if !x.inFlow && !x.isKeyAllowed then none
  else
    (skipColon? x.rest).map fun rest =>
      let column := x.rest.column
      let x := { x with rest, hasLoneMember := isLone }
      let x := if isLone then x.insert .flowMappingStart none else x
      let x := (x.openBlock column .mappingStart none).indentContent
      push .value column { x with isKeyAllowed := !x.inFlow }

def readValue (x : Lexer) : Option Lexer :=
  match x.keys with
  | some key :: _ => x.readValueOf key
  | _ => x.readLoneValue

def readAlias (x : Lexer) : Option Lexer := do
  let (name, rest) ← readAnchor (x.rest.skip 1)
  return push (.reference name) x.rest.column { x.markKey with rest, isKeyAllowed := false }

def readAnchorToken (x : Lexer) : Option Lexer := do
  let (name, rest) ← readAnchor (x.rest.skip 1)
  return push (.anchor name) x.rest.column { x.markKey with rest, isKeyAllowed := false }

def readTagToken (x : Lexer) : Option Lexer := do
  let (token, rest) ← readTag x.inFlow x.rest
  return push token x.rest.column { x.markKey with rest, isKeyAllowed := false }

def readBlockScalar (isFolded : Bool) (x : Lexer) : Option Lexer := do
  let column := x.rest.column
  let x := x.markKey.dropContentIndents
  let (text, rest) ← Block.read isFolded x.indent (x.rest.skip 1)
  return push (.scalar false (String.ofList text)) column { x with rest, isKeyAllowed := true }

/-- What comes after a quoted scalar: the end of the line, the end of a key, or an indicator. -/
def mayFollowQuoted (inFlow isOneLine : Bool) (c : Char) : Bool :=
  isLineEnd c ||
    (if inFlow then c == ',' || c == '}' || c == ']' || c == ':' else c == ':' && isOneLine)

def readQuotedScalar (quote : Char) (x : Lexer) : Option Lexer := do
  let start := x.rest.here
  let x := { x.markKey with isKeyAllowed := false }
  let (text, rest) ← Quoted.read quote x.indent (x.rest.skip 1)
  let rest ← rest.skipToLineEnd?
  if mayFollowQuoted x.inFlow (rest.here.line == start.line) rest.char then
    let x ← skip { x with rest }
    return push (.scalar false (String.ofList text)) start.column
      { x with adjacentAt := x.rest.here.index }
  else none

def readPlainScalar (x : Lexer) : Option Lexer := do
  let column := x.rest.column
  let x := { x.markKey.dropContentIndents with isKeyAllowed := false }
  let (text, rest) ← Plain.read x.inFlow (x.indent + 1) x.rest
  return push (.scalar true (String.ofList text)) column
    { x with rest, isKeyAllowed := rest.here.isIndented }

/-- The colon that stands here starts a value. -/
def isValueHere (x : Lexer) : Bool :=
  let next := x.rest.charAfter 1
  isGap next || (x.inFlow && (isFlow next || x.rest.here.index == x.adjacentAt))

/-- The token that starts here. -/
def readToken (x : Lexer) : Option Lexer :=
  let c := x.rest.char
  let isAlone := isGap (x.rest.charAfter 1)
  if x.rest.column = 0 && c = '%' then x.readDirectiveLine
  else if x.rest.startsWithMark '-' then x.readDocumentMark .documentStart
  else if x.rest.startsWithMark '.' then x.readDocumentMark .documentEnd
  else if x.rest.column < x.indent then none
  else if c = '[' then x.openFlow .flowSequenceStart
  else if c = '{' then x.openFlow .flowMappingStart
  else if c = ']' then x.closeFlow .flowSequenceEnd
  else if c = '}' then x.closeFlow .flowMappingEnd
  else if c = ',' then x.readFlowEntry
  else if c = '-' && isAlone then x.readEntry
  else if c = '?' && isAlone then x.readKey
  else if c = ':' && x.isValueHere then x.readValue
  else if c = '*' then x.readAlias
  else if c = '&' then x.readAnchorToken
  else if c = '!' then x.readTagToken
  else if c = '|' && !x.inFlow then x.readBlockScalar false
  else if c = '>' && !x.inFlow then x.readBlockScalar true
  else if c = '\'' || c = '"' then x.readQuotedScalar c
  else if c = '%' || c = '@' || c = '\x60' then none
  else x.readPlainScalar

/-- Nothing may be missing at the end: a key that is due, or the end of a block collection. -/
def finish (x : Lexer) : Option (List Token) :=
  if x.keys.any fun key => key.any KeyStart.isRequired then none
  else some (x.unindent (-1)).tokens.toList

/-- Goes on up to the end. The first argument bounds the number of tokens. -/
def run : Nat → Lexer → Option (List Token)
  | 0, _ => none
  | bound + 1, x => do
    let x ← (← x.skip).forgetOldKey
    let x := x.unindent x.rest.column
    if x.rest.char = '\x00' then x.finish else run bound (← x.readToken)

def start (s : Source) : Lexer :=
  { rest := s
    tokens := #[]
    lastColumn := 0
    indents := []
    keys := [none]
    isKeyAllowed := true
    adjacentAt := 0
    hasFlowMapping := false
    hasLoneMember := false }

end Lexer

/-- The tokens of a text. Every token takes a character. -/
def Token.ofText? (text : String) : Option (List Token) :=
  (Lexer.start (Source.ofText text)).run (text.length + 1)

end Taxonomy.Yaml
