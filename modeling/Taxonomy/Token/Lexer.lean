import Taxonomy.Text.Blank
import Taxonomy.Token.Basic

/-!
# Reading tokens

Blanks separate tokens and are dropped, the marks `{ } ; * .` are tokens of their own, and every
other run of characters is a word. A dot with a word character on both sides belongs to the word,
so `schema.org/Thing` is one token while the last dot of `Animal.` ends a declaration.
-/

namespace Taxonomy

namespace Token

/-- The characters that are tokens of their own. -/
def isMark (c : Char) : Bool :=
  c == '{' || c == '}' || c == ';' || c == '*' || c == '.'

def isWordChar (c : Char) : Bool :=
  !Text.isBlank c && !isMark c

/-- What continues a word after a word character, and the rest: word characters, and dots between
two of them. -/
def wordTail : List Char → List Char × List Char
  | [] => ([], [])
  | [c] => if isWordChar c then ([c], []) else ([], [c])
  | c :: d :: r =>
    if isWordChar c || (c == '.' && isWordChar d) then
      (c :: (wordTail (d :: r)).1, (wordTail (d :: r)).2)
    else ([], c :: d :: r)

/-- A word's tail and the rest make up the text. -/
theorem wordTail_append (cs : List Char) : (wordTail cs).1 ++ (wordTail cs).2 = cs := by
  fun_induction wordTail cs with
  | case1 => rfl
  | case2 => rfl
  | case3 => rfl
  | case4 c d r h ih => simp [ih]
  | case5 => rfl

theorem length_wordTail_le (cs : List Char) : (wordTail cs).2.length ≤ cs.length := by
  have h := congrArg List.length (wordTail_append cs)
  simp only [List.length_append] at h
  omega

/-- The tokens of a text that begins at byte `pos`. -/
def tokensFrom (pos : Nat) : List Char → List Token
  | [] => []
  | c :: r =>
    if Text.isBlank c then tokensFrom (pos + c.utf8Size) r
    else if isMark c then ofChars pos [c] :: tokensFrom (pos + c.utf8Size) r
    else
      ofChars pos (c :: (wordTail r).1) ::
        tokensFrom (pos + Text.byteLength (c :: (wordTail r).1)) (wordTail r).2
termination_by cs => cs.length
decreasing_by
  · simp
  · simp
  · have := length_wordTail_le r
    simp only [List.length_cons]
    omega

end Token

/-- The tokens of a text, in order. -/
def tokenize (text : String) : List Token :=
  Token.tokensFrom 0 text.toList

end Taxonomy
