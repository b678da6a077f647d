/-!
# Byte ranges

Offsets count the bytes of a text's UTF-8 form, whatever the characters are. A text is handled as
its list of characters; `slice` cuts out the characters that lie in a range.
-/

namespace Taxonomy

/-- A range of bytes in a text, from `start` up to and without `stop`. -/
structure Span where
  start : Nat := 0
  stop : Nat := 0
  deriving DecidableEq, Repr, Inhabited

namespace Span

/-- The smallest span around both. -/
def cover (a b : Span) : Span :=
  ⟨min a.start b.start, max a.stop b.stop⟩

def length (s : Span) : Nat :=
  s.stop - s.start

def isEmpty (s : Span) : Bool :=
  s.start == s.stop

/-- Written with two dots, as in `3..8`. -/
def render (s : Span) : String :=
  s!"{s.start}..{s.stop}"

@[simp] theorem cover_self (a : Span) : a.cover a = a := by
  simp [cover]

end Span

namespace Text

/-- The number of bytes that the characters take. -/
def byteLength : List Char → Nat
  | [] => 0
  | c :: r => c.utf8Size + byteLength r

@[simp] theorem byteLength_append (a b : List Char) :
    byteLength (a ++ b) = byteLength a + byteLength b := by
  induction a with
  | nil => simp [byteLength]
  | cons c r ih => simp [byteLength, ih, Nat.add_assoc]

/-- The text without its first `n` bytes. -/
def dropBytes : Nat → List Char → List Char
  | _, [] => []
  | n, c :: r => if n = 0 then c :: r else dropBytes (n - c.utf8Size) r

/-- The characters that end within the first `n` bytes. -/
def takeBytes : Nat → List Char → List Char
  | _, [] => []
  | n, c :: r => if c.utf8Size ≤ n then c :: takeBytes (n - c.utf8Size) r else []

/-- The characters of a text inside a span. -/
def slice (cs : List Char) (s : Span) : List Char :=
  takeBytes s.length (dropBytes s.start cs)

theorem dropBytes_byteLength (a b : List Char) : dropBytes (byteLength a) (a ++ b) = b := by
  induction a with
  | nil => cases b <;> simp [byteLength, dropBytes]
  | cons c r ih =>
    have : c.utf8Size ≠ 0 := Nat.ne_of_gt c.utf8Size_pos
    simp [byteLength, dropBytes, this, ih]

theorem takeBytes_byteLength (a b : List Char) : takeBytes (byteLength a) (a ++ b) = a := by
  induction a with
  | nil =>
    cases b with
    | nil => simp [byteLength, takeBytes]
    | cons c r => simp [byteLength, takeBytes, Nat.ne_of_gt c.utf8Size_pos]
  | cons c r ih => simp [byteLength, takeBytes, ih]

/-- A span that starts after `a` and is as long as `b` cuts `b` out of `a ++ b ++ c`. -/
theorem slice_append (a b c : List Char) :
    slice (a ++ (b ++ c)) ⟨byteLength a, byteLength a + byteLength b⟩ = b := by
  simp [slice, Span.length, dropBytes_byteLength, takeBytes_byteLength]

end Text

end Taxonomy
