import Taxonomy.Yaml.Token

/-!
# The structure of a YAML document

Nodes are made of tokens; what a name or a tag refers to is left for later. The sides of the members
of a mapping alternate, keys first, and what is not written on one side is a plain scalar that
stands for nothing.
-/

namespace Taxonomy.Yaml

/-- What may come before a node. -/
structure Properties where
  anchor : Option String
  /-- The handle and the suffix of a tag. -/
  tag : Option (String × String)
  deriving DecidableEq, Repr, Inhabited

inductive Node
  | reference (name : String)
  | scalar (properties : Properties) (isPlain : Bool) (text : String)
  | sequence (properties : Properties) (items : List Node)
  | mapping (properties : Properties) (sides : List Node)
  deriving Repr, Inhabited

namespace Node

/-- What is not written. -/
def missing : Node :=
  scalar ⟨none, none⟩ true "~"

/-- An anchor and a tag, in either order. -/
def readProperties : List Token → Properties × List Token
  | .anchor name :: .tag handle suffix :: rest => (⟨some name, some (handle, suffix)⟩, rest)
  | .tag handle suffix :: .anchor name :: rest => (⟨some name, some (handle, suffix)⟩, rest)
  | .anchor name :: rest => (⟨some name, none⟩, rest)
  | .tag handle suffix :: rest => (⟨none, some (handle, suffix)⟩, rest)
  | tokens => (⟨none, none⟩, tokens)

/-- One of the given tokens comes next. -/
def isNext (expected : List Token) (tokens : List Token) : Bool :=
  match tokens with
  | token :: _ => expected.contains token
  | [] => false

mutual

/-- A node. `inBlock` tells that it may be written by indentation, and `mayHang` that it may be a
sequence that is indented no further than its key. The first argument bounds the steps. -/
def read : Nat → (inBlock mayHang : Bool) → List Token → Option (Node × List Token)
  | 0, _, _, _ => none
  | _, _, _, .reference name :: rest => some (reference name, rest)
  | steps + 1, inBlock, mayHang, tokens =>
    let (properties, tokens) := readProperties tokens
    match tokens with
    | .scalar isPlain text :: rest => some (scalar properties isPlain text, rest)
    | .flowSequenceStart :: rest =>
      (readFlowItems steps true rest).map fun r => (sequence properties r.1, r.2)
    | .flowMappingStart :: rest =>
      (readFlowMembers steps true rest).map fun r => (mapping properties r.1, r.2)
    | tokens =>
      if mayHang && isNext [.entry] tokens then
        (readHangingItems steps tokens).map fun r => (sequence properties r.1, r.2)
      else if inBlock && isNext [.sequenceStart] tokens then
        (readItems steps (tokens.drop 1)).map fun r => (sequence properties r.1, r.2)
      else if inBlock && isNext [.mappingStart] tokens then
        (readMembers steps (tokens.drop 1)).map fun r => (mapping properties r.1, r.2)
      else if properties = ⟨none, none⟩ then none
      else some (scalar properties true "", tokens)

/-- A node, unless one of the tokens that may follow it comes at once. -/
def readOptional :
    Nat → (inBlock mayHang : Bool) → List Token → List Token → Option (Node × List Token)
  | 0, _, _, _, _ => none
  | steps + 1, inBlock, mayHang, followers, tokens =>
    if isNext followers tokens then some (missing, tokens) else read steps inBlock mayHang tokens

/-- The items of a block sequence, after its start. -/
def readItems : Nat → List Token → Option (List Node × List Token)
  | steps + 1, .entry :: rest => do
    let (item, rest) ← readOptional steps true false [.entry, .blockEnd] rest
    let (items, rest) ← readItems steps rest
    return (item :: items, rest)
  | _, .blockEnd :: rest => some ([], rest)
  | _, _ => none

/-- The items of a block sequence that has no start and no end of its own. -/
def readHangingItems : Nat → List Token → Option (List Node × List Token)
  | 0, _ => none
  | steps + 1, .entry :: rest => do
    let (item, rest) ← readOptional steps true false [.entry, .key, .value, .blockEnd] rest
    let (items, rest) ← readHangingItems steps rest
    return (item :: items, rest)
  | _, tokens => some ([], tokens)

/-- The members of a block mapping, after its start. -/
def readMembers : Nat → List Token → Option (List Node × List Token)
  | _, .blockEnd :: rest => some ([], rest)
  | steps + 1, .key :: rest => do
    let (key, rest) ← readOptional steps true true [.key, .value, .blockEnd] rest
    readMembersAfterKey steps key rest
  | steps + 1, .value :: rest => readMembersAfterKey steps missing (.value :: rest)
  | _, _ => none

/-- The members of a block mapping from the value of the first one on. -/
def readMembersAfterKey : Nat → Node → List Token → Option (List Node × List Token)
  | 0, _, _ => none
  | steps + 1, key, .value :: rest => do
    let (value, rest) ← readOptional steps true true [.key, .value, .blockEnd] rest
    let (sides, rest) ← readMembers steps rest
    return (key :: value :: sides, rest)
  | steps + 1, key, tokens => (readMembers steps tokens).map fun r => (key :: missing :: r.1, r.2)

/-- The items of a flow sequence, after its start or after an item. -/
def readFlowItems : Nat → (isFirst : Bool) → List Token → Option (List Node × List Token)
  | 0, _, _ => none
  | _, _, .flowSequenceEnd :: rest => some ([], rest)
  | steps + 1, false, .flowEntry :: rest => readFlowItem steps rest
  | steps + 1, true, tokens => readFlowItem steps tokens
  | _, _, _ => none

/-- The items of a flow sequence from one that may start here on. -/
def readFlowItem : Nat → List Token → Option (List Node × List Token)
  | 0, _ => none
  | _, .flowSequenceEnd :: rest => some ([], rest)
  | steps + 1, .key :: rest => do
    let (member, rest) ← readLoneMember steps rest
    let (items, rest) ← readFlowItems steps false rest
    return (mapping ⟨none, none⟩ member :: items, rest)
  | steps + 1, tokens => do
    let (item, rest) ← read steps false false tokens
    let (items, rest) ← readFlowItems steps false rest
    return (item :: items, rest)

/-- The two sides of a member without braces. An indicator that comes instead of the key is passed
over. -/
def readLoneMember : Nat → List Token → Option (List Node × List Token)
  | 0, _ => none
  | steps + 1, tokens => do
    let followers := [.value, .flowEntry, .flowSequenceEnd]
    let (key, rest) ← readOptional steps false false followers tokens
    let rest := if isNext followers tokens then rest.drop 1 else rest
    match rest with
    | .value :: rest =>
      let (value, rest) ← readOptional steps false false [.flowEntry, .flowSequenceEnd] rest
      return ([key, value], rest)
    | rest => return ([key, missing], rest)

/-- The members of a flow mapping, after its start or after a member. -/
def readFlowMembers : Nat → (isFirst : Bool) → List Token → Option (List Node × List Token)
  | 0, _, _ => none
  | _, _, .flowMappingEnd :: rest => some ([], rest)
  | steps + 1, false, .flowEntry :: rest => readFlowMember steps rest
  | steps + 1, true, tokens => readFlowMember steps tokens
  | _, _, _ => none

/-- The members of a flow mapping from one that may start here on. -/
def readFlowMember : Nat → List Token → Option (List Node × List Token)
  | 0, _ => none
  | _, .flowMappingEnd :: rest => some ([], rest)
  | steps + 1, .key :: rest => do
    let (key, rest) ← readOptional steps false false [.value, .flowEntry, .flowMappingEnd] rest
    readFlowMembersAfterKey steps key rest
  | steps + 1, .value :: rest => readFlowMembersAfterKey steps missing (.value :: rest)
  | steps + 1, tokens => do
    let (key, rest) ← read steps false false tokens
    let (sides, rest) ← readFlowMembers steps false rest
    return (key :: missing :: sides, rest)

/-- The members of a flow mapping from the value of the first one on. -/
def readFlowMembersAfterKey : Nat → Node → List Token → Option (List Node × List Token)
  | 0, _, _ => none
  | steps + 1, key, .value :: rest => do
    let (value, rest) ← readOptional steps false false [.flowEntry, .flowMappingEnd] rest
    let (sides, rest) ← readFlowMembers steps false rest
    return (key :: value :: sides, rest)
  | steps + 1, key, tokens =>
    (readFlowMembers steps false tokens).map fun r => (key :: missing :: r.1, r.2)

end

end Node

/-! ## Documents -/

/-- A document: what handles of tags stand for, and its content. -/
structure Document where
  handles : List (String × String)
  content : Node
  deriving Repr, Inhabited

namespace Document

/-- What the directives at the front tell about handles; only the last one counts. There may be one
version. -/
def readDirectives (handles : List (String × String)) (hasVersion : Bool) :
    List Token → Option (List (String × String) × List Token)
  | .version :: rest => if hasVersion then none else readDirectives [] true rest
  | .tagHandle handle start :: rest => readDirectives [(handle, start)] hasVersion rest
  | tokens => some (handles, tokens)

/-- A document goes on up to the end of the tokens, apart from marks that end it. -/
def isOver (tokens : List Token) : Bool :=
  tokens.all (· == .documentEnd)

/-- The document that tokens make; none inside if there is nothing at all. Directives need a mark
after them, and there must not be a second document. -/
def ofTokens? (tokens : List Token) : Option (Option Document) :=
  match tokens.dropWhile (· == .documentEnd) with
  | [] => some none
  | tokens => do
    let (handles, rest) ← readDirectives [] false tokens
    let start ←
      match rest with
      | .documentStart :: start => some start
      | rest => if rest.length = tokens.length then some rest else none
    let (content, rest) ← Node.read (4 * tokens.length + 4) true false start
    if isOver rest then return some ⟨handles, content⟩ else none

end Document

end Taxonomy.Yaml
