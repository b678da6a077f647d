import Taxonomy.Text.Hex

/-!
# Strings of a TOML document

Strings are written between double quotes, with escapes, or between single quotes, without; tripled
quotes let them go over several lines. A line break right after tripled quotes is no part of the
string, and up to two quotes may stand before the closing ones.
-/

namespace Taxonomy.Toml

/-- Blanks inside a line. -/
def isBlank (c : Char) : Bool :=
  c == ' ' || c == '\t'

def skipBlanks (cs : List Char) : List Char :=
  cs.dropWhile isBlank

/-- The rest after a line break. -/
def newline? : List Char → Option (List Char)
  | '\n' :: rest => some rest
  | '\r' :: '\n' :: rest => some rest
  | _ => none

/-- The rest after blanks and line breaks. -/
def skipBlankLines : List Char → List Char
  | '\r' :: '\n' :: rest => skipBlankLines rest
  | c :: rest => if isBlank c || c = '\n' then skipBlankLines rest else c :: rest
  | [] => []

/-- Characters that stand for themselves in strings and comments: all but control characters, with
the tab among them. -/
def isPlain (c : Char) : Bool :=
  c == '\t' || (0x20 ≤ c.toNat && c.toNat != 0x7F)

/-- The character that a backslash and one more character stand for. -/
def shortEscape? (c : Char) : Option Char :=
  if c = 'b' then some '\x08'
  else if c = 't' then some '\t'
  else if c = 'n' then some '\n'
  else if c = 'f' then some '\x0c'
  else if c = 'r' then some '\r'
  else if c = '"' then some '"'
  else if c = '\\' then some '\\'
  else none

/-- A code point of exactly `count` digits, and the rest. -/
def codePoint? (count : Nat) (cs : List Char) : Option (Char × List Char) :=
  if cs.length < count then none
  else (Text.scalarOfHex? (cs.take count)).map fun c => (c, cs.drop count)

/-- What a backslash and the given characters stand for, and the rest. -/
def escape? : List Char → Option (Char × List Char)
  | 'u' :: rest => codePoint? 4 rest
  | 'U' :: rest => codePoint? 8 rest
  | c :: rest => (shortEscape? c).map fun d => (d, rest)
  | [] => none

theorem length_codePoint?_le {count : Nat} {cs rest : List Char} {c : Char}
    (h : codePoint? count cs = some (c, rest)) : rest.length ≤ cs.length := by
  unfold codePoint? at h
  split at h
  · cases h
  · obtain ⟨d, _, hd⟩ := Option.map_eq_some_iff.mp h
    cases hd
    simp

theorem length_escape?_lt {cs rest : List Char} {c : Char} (h : escape? cs = some (c, rest)) :
    rest.length < cs.length := by
  unfold escape? at h
  split at h
  · exact Nat.lt_succ_of_le (length_codePoint?_le h)
  · exact Nat.lt_succ_of_le (length_codePoint?_le h)
  · obtain ⟨d, _, hd⟩ := Option.map_eq_some_iff.mp h
    cases hd
    simp
  · cases h

theorem length_skipBlankLines_le (cs : List Char) : (skipBlankLines cs).length ≤ cs.length := by
  fun_induction skipBlankLines cs with
  | case1 rest ih => exact Nat.le_trans ih (by simp only [List.length_cons]; omega)
  | case2 c rest _ _ ih => exact Nat.le_trans ih (by simp)
  | case3 => exact Nat.le_refl _
  | case4 => exact Nat.le_refl _

/-- The string after a double quote, and the rest after the closing one. -/
def readBasic : List Char → Option (List Char × List Char)
  | [] => none
  | c :: rest =>
    if c = '"' then some ([], rest)
    else if c = '\\' then
      match _h : escape? rest with
      | none => none
      | some (d, rest') => (readBasic rest').map fun r => (d :: r.1, r.2)
    else if isPlain c then (readBasic rest).map fun r => (c :: r.1, r.2)
    else none
termination_by cs => cs.length
decreasing_by
  · have := length_escape?_lt _h
    simp only [List.length_cons]
    omega
  · simp

/-- The string after a single quote, and the rest after the closing one. -/
def readLiteral : List Char → Option (List Char × List Char)
  | [] => none
  | c :: rest =>
    if c = '\'' then some ([], rest)
    else if isPlain c then (readLiteral rest).map fun r => (c :: r.1, r.2)
    else none

/-- Up to two quotes that belong to a string although the closing quotes have begun. -/
def extraQuotes (quote : Char) : List Char → List Char × List Char
  | a :: b :: rest =>
    if a = quote then if b = quote then ([a, b], rest) else ([a], b :: rest)
    else ([], a :: b :: rest)
  | [a] => if a = quote then ([a], []) else ([], [a])
  | [] => ([], [])

/-- The text after the closing quotes, if they are next. -/
def closing? (quote : Char) : List Char → Option (List Char)
  | a :: b :: c :: rest => if a = quote && b = quote && c = quote then some rest else none
  | _ => none

/-- What is left after a backslash at the end of a line: the break and all blanks and breaks after
it are no part of the string. -/
def joinedLine? (cs : List Char) : Option (List Char) :=
  (newline? (skipBlanks cs)).map skipBlankLines

theorem length_newline?_lt {cs rest : List Char} (h : newline? cs = some rest) :
    rest.length < cs.length := by
  unfold newline? at h
  split at h
  · cases h
    simp
  · cases h
    simp only [List.length_cons]
    omega
  · cases h

theorem length_joinedLine?_lt {cs rest : List Char} (h : joinedLine? cs = some rest) :
    rest.length < cs.length := by
  obtain ⟨r, hr, rfl⟩ := Option.map_eq_some_iff.mp h
  have h₁ := length_newline?_lt hr
  have h₂ := length_skipBlankLines_le r
  have h₃ := (List.dropWhile_sublist (p := isBlank) (l := cs)).length_le
  unfold skipBlanks at h₁
  omega

/-- The string after three double quotes, and the rest after the closing ones. -/
def readBasicLines : List Char → Option (List Char × List Char)
  | [] => none
  | c :: rest =>
    match closing? '"' (c :: rest) with
    | some rest => some (extraQuotes '"' rest)
    | none =>
      if c = '\\' then
        match _h : joinedLine? rest with
        | some rest' => readBasicLines rest'
        | none =>
          match _h' : escape? rest with
          | none => none
          | some (d, rest') => (readBasicLines rest').map fun r => (d :: r.1, r.2)
      else
        match _h : newline? (c :: rest) with
        | some rest' => (readBasicLines rest').map fun r => ('\n' :: r.1, r.2)
        | none =>
          if isPlain c then (readBasicLines rest).map fun r => (c :: r.1, r.2) else none
termination_by cs => cs.length
decreasing_by
  · have := length_joinedLine?_lt _h
    simp only [List.length_cons]
    omega
  · have := length_escape?_lt _h'
    simp only [List.length_cons]
    omega
  · exact length_newline?_lt _h
  · simp

/-- The string after three single quotes, and the rest after the closing ones. -/
def readLiteralLines : List Char → Option (List Char × List Char)
  | [] => none
  | c :: rest =>
    match closing? '\'' (c :: rest) with
    | some rest => some (extraQuotes '\'' rest)
    | none =>
      match _h : newline? (c :: rest) with
      | some rest' => (readLiteralLines rest').map fun r => ('\n' :: r.1, r.2)
      | none =>
        if isPlain c then (readLiteralLines rest).map fun r => (c :: r.1, r.2) else none
termination_by cs => cs.length
decreasing_by
  · exact length_newline?_lt _h
  · simp

/-- The rest after a line break, if there is one. -/
def dropNewline (cs : List Char) : List Char :=
  (newline? cs).getD cs

/-- A string in any of the four forms. -/
def readString : List Char → Option (List Char × List Char)
  | '"' :: '"' :: '"' :: rest => readBasicLines (dropNewline rest)
  | '\'' :: '\'' :: '\'' :: rest => readLiteralLines (dropNewline rest)
  | '"' :: rest => readBasic rest
  | '\'' :: rest => readLiteral rest
  | _ => none

end Taxonomy.Toml
