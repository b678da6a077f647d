import Taxonomy.Text.Span

/-!
# Lines and columns

A `LineTable` holds the offsets at which the lines of a text start and finds the line of an offset
by halving. Lines end at line feeds only and columns count characters, both from 1.
-/

namespace Taxonomy

/-- A place in a text as people name it. -/
structure Position where
  line : Nat := 1
  column : Nat := 1
  deriving DecidableEq, Repr, Inhabited

/-- The offsets at which lines start, in increasing order, the first one 0. -/
structure LineTable where
  starts : Array Nat
  deriving Repr, Inhabited

namespace LineTable

/-- The offsets right after each line feed of a text that begins at `pos`. -/
def startsAfter (pos : Nat) : List Char → List Nat
  | [] => []
  | c :: r =>
    let next := pos + c.utf8Size
    if c = '\n' then next :: startsAfter next r else startsAfter next r

def ofText (cs : List Char) : LineTable :=
  ⟨(0 :: startsAfter 0 cs).toArray⟩

/-- The number of entries up to `offset` among those from `lo` to `hi`, given that all before `lo`
are and none from `hi` on is. -/
def countUpTo (starts : Array Nat) (offset lo hi : Nat) : Nat :=
  if lo < hi then
    let mid := (lo + hi) / 2
    if starts.getD mid 0 ≤ offset then countUpTo starts offset (mid + 1) hi
    else countUpTo starts offset lo mid
  else lo
termination_by hi - lo

/-- The line of an offset: as many lines as start at it or before it. -/
def line (table : LineTable) (offset : Nat) : Nat :=
  countUpTo table.starts offset 0 table.starts.size

/-- The line of an offset in `cs`, and one more than the characters between the line's start and
it. -/
def position (table : LineTable) (cs : List Char) (offset : Nat) : Position :=
  let line := table.line offset
  let start := table.starts.getD (line - 1) 0
  ⟨line, (Text.slice cs ⟨start, offset⟩).length + 1⟩

end LineTable

end Taxonomy
