import Taxonomy.Json.Escape
import Taxonomy.Text.Letter

/-!
# Blanks, strings and names in JSON5

Comments count as blanks. Strings are between quotes of either kind and may hold escapes; a
backslash at the end of a line takes the line break away. Names are words of any language and may
hold the escapes of code points too.
-/

namespace Taxonomy.Json5

def isLineEnd (c : Char) : Bool :=
  c == '\n' || c == '\r' || c == '\u2028' || c == '\u2029'

/-- Blanks: line ends, tabs, the byte order mark and all separators of Unicode. -/
def isSpace (c : Char) : Bool :=
  let n := c.toNat
  isLineEnd c || n == 0x09 || n == 0x0B || n == 0x0C || n == 0x20 || n == 0xA0 || n == 0xFEFF ||
    n == 0x1680 || (0x2000 ≤ n && n ≤ 0x200A) || n == 0x202F || n == 0x205F || n == 0x3000

mutual

/-- The rest after blanks and comments; none if the last comment has no end. -/
def skipSpace : List Char → Option (List Char)
  | [] => some []
  | '/' :: '/' :: rest => skipLine rest
  | '/' :: '*' :: rest => skipComment rest
  | c :: rest => if isSpace c then skipSpace rest else some (c :: rest)

/-- The rest after a comment that ends with its line. -/
def skipLine : List Char → Option (List Char)
  | [] => some []
  | c :: rest => if isLineEnd c then skipSpace rest else skipLine rest

/-- The rest after a comment that ends with a mark. -/
def skipComment : List Char → Option (List Char)
  | [] => none
  | '*' :: '/' :: rest => skipSpace rest
  | _ :: rest => skipComment rest

end

/-! ## Escapes -/

/-- The character that digits after a backslash and `u` stand for, and the rest: four digits, or
four digits and a second escape if they make a pair of surrogates. -/
def codePoint? : List Char → Option (Char × List Char)
  | a :: b :: c :: d :: rest =>
    match Json.hexQuad? a b c d with
    | none => none
    | some n =>
      if Json.isLowSurrogate n then none
      else if Json.isHighSurrogate n then
        match rest with
        | '\\' :: 'u' :: e :: f :: g :: h :: rest =>
          match Json.hexQuad? e f g h with
          | none => none
          | some low =>
            if Json.isLowSurrogate low then some (Json.ofSurrogates n low, rest) else none
        | _ => none
      else some (Char.ofNat n, rest)
  | _ => none

theorem length_codePoint?_lt {cs rest : List Char} {c : Char}
    (h : codePoint? cs = some (c, rest)) : rest.length < cs.length := by
  unfold codePoint? at h
  split at h
  · split at h
    · cases h
    · split at h
      · cases h
      · split at h
        · split at h
          · split at h
            · cases h
            · split at h
              · obtain ⟨_, rfl⟩ := Prod.mk.inj (Option.some.inj h)
                simp only [List.length_cons]
                omega
              · cases h
          · cases h
        · obtain ⟨_, rfl⟩ := Prod.mk.inj (Option.some.inj h)
          simp only [List.length_cons]
          omega
  · cases h

/-- The character that a backslash and one more character stand for. Most characters stand for
themselves, but digits other than 0 and the letters of longer escapes may not be used. -/
def shortEscape? (c : Char) : Option Char :=
  if c = 'b' then some '\x08'
  else if c = 'f' then some '\x0c'
  else if c = 'n' then some '\n'
  else if c = 'r' then some '\r'
  else if c = 't' then some '\t'
  else if c = 'v' then some '\x0b'
  else if c = '0' then some '\x00'
  else if c.isDigit || c = 'x' || c = 'u' then none
  else some c

/-- What a backslash and the given characters stand for, and the rest. -/
def escape? : List Char → Option (List Char × List Char)
  | 'u' :: rest => (codePoint? rest).map fun r => ([r.1], r.2)
  | 'x' :: a :: b :: rest => (Text.scalarOfHex? [a, b]).map fun c => ([c], rest)
  | '\r' :: '\n' :: rest => some ([], rest)
  | c :: rest =>
    if isLineEnd c then some ([], rest) else (shortEscape? c).map fun d => ([d], rest)
  | [] => none

theorem length_escape?_lt {cs text rest : List Char} (h : escape? cs = some (text, rest)) :
    rest.length < cs.length := by
  unfold escape? at h
  split at h
  · obtain ⟨r, hr, he⟩ := Option.map_eq_some_iff.mp h
    cases he
    exact Nat.lt_succ_of_lt (length_codePoint?_lt hr)
  · obtain ⟨d, _, hd⟩ := Option.map_eq_some_iff.mp h
    cases hd
    simp only [List.length_cons]
    omega
  · cases h
    simp only [List.length_cons]
    omega
  · split at h
    · cases h
      simp
    · obtain ⟨d, _, hd⟩ := Option.map_eq_some_iff.mp h
      cases hd
      simp
  · cases h

/-! ## Strings and names -/

/-- The string after its opening quote, and the rest after the closing one. -/
def readString (quote : Char) : List Char → Option (List Char × List Char)
  | [] => none
  | c :: rest =>
    if c = quote then some ([], rest)
    else if c = '\\' then
      match _h : escape? rest with
      | none => none
      | some (text, rest') => (readString quote rest').map fun r => (text ++ r.1, r.2)
    else if isLineEnd c then none
    else (readString quote rest).map fun r => (c :: r.1, r.2)
termination_by cs => cs.length
decreasing_by
  · have := length_escape?_lt _h
    simp only [List.length_cons]
    omega
  · simp

/-- Diacritics that are characters of their own. -/
def loneDiacritics : List Char :=
  ['^', '\x60', '\xa8', '\xaf', '\xb4', '\xb7', '\xb8']

/-- The characters of names; not all of them may come first. -/
def isNameChar (first : Bool) (c : Char) : Bool :=
  Text.isLetter c || c == '$' || c == '_' ||
    (!first && (Text.isContinuer c || c ∈ loneDiacritics || c == '\u200c' || c == '\u200d'))

/-- The characters of a name up to one that cannot belong to it, and the rest. -/
def readNameFrom (first : Bool) : List Char → Option (List Char × List Char)
  | [] => some ([], [])
  | c :: rest =>
    if c = '\\' then
      match rest with
      | 'u' :: digits =>
        match _h : codePoint? digits with
        | none => none
        | some (d, rest') => (readNameFrom false rest').map fun r => (d :: r.1, r.2)
      | _ => none
    else if isNameChar first c then (readNameFrom false rest).map fun r => (c :: r.1, r.2)
    else some ([], c :: rest)
termination_by cs => cs.length
decreasing_by
  · have := length_codePoint?_lt _h
    simp only [List.length_cons]
    omega
  · simp

/-- A name, which has one character or more. -/
def readName (cs : List Char) : Option (List Char × List Char) :=
  (readNameFrom true cs).filter fun r => !r.1.isEmpty

end Taxonomy.Json5
