/-!
# Blank characters

The characters that separate tokens, and the layout of a text squeezed to single spaces. The class
is the Unicode property White_Space; it holds no punctuation, so no lexeme can contain a member.
-/

namespace Taxonomy.Text

/-- The 25 characters with the Unicode property White_Space. -/
def isBlank (c : Char) : Bool :=
  let n := c.toNat
  (0x09 ≤ n && n ≤ 0x0D) || n == 0x20 || n == 0x85 || n == 0xA0 || n == 0x1680 ||
    (0x2000 ≤ n && n ≤ 0x200A) || n == 0x2028 || n == 0x2029 || n == 0x202F || n == 0x205F ||
    n == 0x3000

/-- Writes each run of blanks as one space and drops a run at the end. -/
def squeeze : List Char → List Char
  | [] => []
  | [c] => if isBlank c then [] else [c]
  | c :: d :: r =>
    if isBlank c then
      if isBlank d then squeeze (d :: r) else ' ' :: squeeze (d :: r)
    else c :: squeeze (d :: r)

/-- The words of a text with one space between neighbours. -/
def collapse (cs : List Char) : List Char :=
  squeeze (cs.dropWhile isBlank)

/-- The first `limit` characters of a text, with three dots where more would follow. -/
def clip (limit : Nat) (cs : List Char) : List Char :=
  if limit < cs.length then cs.take limit ++ ['.', '.', '.'] else cs

end Taxonomy.Text
