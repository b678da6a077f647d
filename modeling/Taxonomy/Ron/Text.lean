import Taxonomy.Text.Hex

/-!
# Blanks, names, strings and characters of the object notation

Comments count as blanks and may be nested. A string has escapes, or it is raw and ends with as many
number signs as it starts with. All names are ASCII.
-/

namespace Taxonomy.Ron

/-! ## Blanks -/

def isSpace (c : Char) : Bool :=
  c == ' ' || c == '\n' || c == '\t' || c == '\r'

mutual

/-- The rest after blanks and comments; none if a comment has no end. -/
def skipSpace : List Char → Option (List Char)
  | [] => some []
  | '/' :: '/' :: rest => skipLine rest
  | '/' :: '*' :: rest => skipComment 1 rest
  | c :: rest => if isSpace c then skipSpace rest else some (c :: rest)

/-- The rest after a comment that ends with its line. -/
def skipLine : List Char → Option (List Char)
  | [] => some []
  | c :: rest => if c = '\n' then skipSpace rest else skipLine rest

/-- The rest after a number of comments that end with a mark, one inside the other. -/
def skipComment : Nat → List Char → Option (List Char)
  | _, [] => none
  | level, '/' :: '*' :: rest => skipComment (level + 1) rest
  | level, '*' :: '/' :: rest =>
    if level ≤ 1 then skipSpace rest else skipComment (level - 1) rest
  | level, _ :: rest => skipComment level rest

end

/-! ## Names -/

def isNameStart (c : Char) : Bool :=
  c.isAlpha || c == '_'

def isNamePart (c : Char) : Bool :=
  c.isAlphanum || c == '_'

/-- The characters of a name that is written after `r#`. -/
def isRawNamePart (c : Char) : Bool :=
  isNamePart c || c == '.' || c == '+' || c == '-'

/-- A name. The start of a raw string is none. -/
def readName : List Char → Option (List Char × List Char)
  | 'r' :: '"' :: _ => none
  | 'r' :: '#' :: rest =>
    match rest.takeWhile isRawNamePart with
    | [] => none
    | name => some (name, rest.dropWhile isRawNamePart)
  | c :: rest =>
    if isNameStart c then some (c :: rest.takeWhile isNamePart, rest.dropWhile isNamePart) else none
  | [] => none

/-- The rest after given characters. -/
def after? : List Char → List Char → Option (List Char)
  | [], cs => some cs
  | c :: mark, d :: cs => if c = d then after? mark cs else none
  | _ :: _, [] => none

/-- The rest after a given word, which is not the start of a longer name. -/
def word? (word : String) (cs : List Char) : Option (List Char) :=
  (after? word.toList cs).filter fun rest => !rest.head?.any isNamePart

/-! ## Strings and characters -/

/-- The character that a backslash and one more character stand for. -/
def shortEscape? (c : Char) : Option Char :=
  if c = '\'' then some '\''
  else if c = '"' then some '"'
  else if c = '\\' then some '\\'
  else if c = 'n' then some '\n'
  else if c = 'r' then some '\r'
  else if c = 't' then some '\t'
  else if c = '0' then some '\x00'
  else none

/-- What a backslash and the given characters stand for, and the rest. A code point has one to six
digits between braces. -/
def escape? : List Char → Option (Char × List Char)
  | 'x' :: a :: b :: rest => (Text.scalarOfHex? [a, b]).map fun c => (c, rest)
  | 'u' :: '{' :: rest =>
    let digits := rest.takeWhile (· != '}')
    if 6 < digits.length || rest.length = digits.length then none
    else (Text.scalarOfHex? digits).map fun c => (c, rest.drop (digits.length + 1))
  | c :: rest => (shortEscape? c).map fun d => (d, rest)
  | [] => none

theorem length_escape?_lt {cs rest : List Char} {c : Char} (h : escape? cs = some (c, rest)) :
    rest.length < cs.length := by
  unfold escape? at h
  split at h
  · obtain ⟨d, _, hd⟩ := Option.map_eq_some_iff.mp h
    obtain ⟨_, rfl⟩ := Prod.mk.inj hd
    simp only [List.length_cons]
    omega
  · simp only at h
    split at h
    · cases h
    · obtain ⟨d, _, hd⟩ := Option.map_eq_some_iff.mp h
      obtain ⟨_, rfl⟩ := Prod.mk.inj hd
      simp only [List.length_drop, List.length_cons]
      omega
  · obtain ⟨d, _, hd⟩ := Option.map_eq_some_iff.mp h
    obtain ⟨_, rfl⟩ := Prod.mk.inj hd
    simp
  · cases h

/-- The string after its opening quote, and the rest after the closing one. -/
def readQuoted : List Char → Option (List Char × List Char)
  | [] => none
  | c :: rest =>
    if c = '"' then some ([], rest)
    else if c = '\\' then
      match _h : escape? rest with
      | none => none
      | some (d, rest') => (readQuoted rest').map fun r => (d :: r.1, r.2)
    else (readQuoted rest).map fun r => (c :: r.1, r.2)
termination_by cs => cs.length
decreasing_by
  · have := length_escape?_lt _h
    simp only [List.length_cons]
    omega
  · simp

/-- The raw string after its opening quote, and the rest after the closing one and its number
signs. -/
def readRawUpTo (signs : Nat) : List Char → Option (List Char × List Char)
  | [] => none
  | c :: rest =>
    if c = '"' && (rest.take signs == List.replicate signs '#') then some ([], rest.drop signs)
    else (readRawUpTo signs rest).map fun r => (c :: r.1, r.2)

/-- A raw string after the letter that it starts with. -/
def readRaw (cs : List Char) : Option (List Char × List Char) :=
  let signs := (cs.takeWhile (· == '#')).length
  match cs.drop signs with
  | '"' :: rest => readRawUpTo signs rest
  | _ => none

/-- A character after its opening quote, and the rest after the closing one. -/
def readChar (cs : List Char) : Option (Char × List Char) :=
  let inner :=
    match cs with
    | '\\' :: rest => escape? rest
    | c :: rest => if c = '\'' then none else some (c, rest)
    | [] => none
  match inner with
  | some (c, '\'' :: rest) => some (c, rest)
  | _ => none

end Taxonomy.Ron
