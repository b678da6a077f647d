/-!
# How well a name fits a query

A query fits a name if its characters occur there in order. The score is that of the best alignment:
every matched character gains, more so at the start of a word and next to another match, and every
character passed over costs. The best alignments are built up row by row in a matrix with two rows,
one row for each character of the query in turn. The matrix is kept from one name to the next and
its cells are not cleared, so what an earlier name left there can show in a later score.
-/

namespace Taxonomy.Alignment

/-- Points and fines of an alignment. -/
def exactGain : Int := 16
def foldedGain : Int := 14
def gapStart : Int := -4
def gapExtend : Int := -1
def hardWordStart : Int := 8
def softWordStart : Int := 7
def camelWordStart : Int := 6
def consecutive : Int := 4

/-- Stands for "no alignment". -/
def awful : Int := -32768

/-- What a character is to the division of a name into words. -/
inductive CharClass
  | empty
  | hard
  | soft
  | digit
  | upper
  | lower
  deriving DecidableEq, Repr

/-- Characters outside ASCII, and control characters other than NUL, count as lower case. -/
def CharClass.of (c : Char) : CharClass :=
  if c = '\x00' then .empty
  else if " /\\|()[]\x7b\x7d".contains c then .hard
  else if "!\"#$%&'*+,-.:;<=>?@^_`~".contains c then .soft
  else if c.isDigit then .digit
  else if c.isUpper then .upper
  else .lower

/-- The gain of a match at a character for starting a word there. -/
def wordStart (previous current : Char) : Int :=
  match CharClass.of previous, CharClass.of current with
  | .empty, _ | .hard, _ => hardWordStart
  | .soft, _ => softWordStart
  | .lower, .upper | .digit, .upper => camelWordStart
  | _, _ => 0

/-- The best scores of aligning the query so far with the name so far: with the last character of
the name matched, and with it passed over. -/
structure Cell where
  matched : Int := awful
  passed : Int := awful
  bonus : Int := 0
  deriving DecidableEq, Repr, Inhabited

/-- A cell that nothing has been written to. -/
def Cell.fresh : Cell := {}

/-- Two rows of cells, one after the other. -/
abbrev Matrix := Array Cell

/-- What is looked for, and whether letters have to agree in case. -/
structure Query where
  chars : List Char
  caseSensitive : Bool
  deriving DecidableEq, Repr

namespace Query

/-- A capital ASCII letter in a query makes it case sensitive. -/
def ofText (text : String) : Query :=
  ⟨text.toList, text.toList.any Char.isUpper⟩

/-- Whether a character of the query matches one of a name; only ASCII letters have cases. -/
def agrees (q : Query) (wanted found : Char) : Bool :=
  if q.caseSensitive then wanted == found else wanted.toLower == found.toLower

/-- The gain of a match: less if the letters differ in case. -/
def gain (q : Query) (wanted found : Char) : Int :=
  if !q.caseSensitive && wanted != found then foldedGain else exactGain

/-- The leftmost places, from `pos` on, at which the characters occur in order. -/
def places? (q : Query) : List Char → Nat → List Char → Option (List Nat)
  | [], _, _ => some []
  | _ :: _, _, [] => none
  | wanted :: ws, pos, c :: cs =>
    if q.agrees wanted c then (q.places? ws (pos + 1) cs).map (pos :: ·)
    else q.places? (wanted :: ws) (pos + 1) cs

end Query

/-- A name to be aligned: its characters, what a match at the column after each of them gains for
starting a word (the first place counts twice), and the number of columns. -/
structure Choice where
  chars : Array Char
  bonus : Array Int

namespace Choice

/-- The gains for starting words, each character seen after the one before it. -/
def wordStarts (previous : Char) : List Char → List Int
  | [] => []
  | c :: cs => wordStart previous c :: wordStarts c cs

def ofChars (cs : List Char) : Choice where
  chars := cs.toArray
  bonus :=
    match wordStarts '\x00' cs with
    | [] => #[0]
    | first :: rest => (0 :: 2 * first :: rest).toArray

def columns (c : Choice) : Nat :=
  c.chars.size + 1

end Choice

/-- Exactly two rows: cells are dropped from the end, or fresh ones appended. -/
def resize (columns : Nat) (m : Matrix) : Matrix :=
  m.extract 0 (2 * columns) ++ Array.replicate (2 * columns - m.size) Cell.fresh

/-- The cell of a column in the row of the query's `row`-th character, rows taking turns. -/
def cellIndex (columns row column : Nat) : Nat :=
  row % 2 * columns + column

/-- The cells for an empty query: nothing matched, one character passed over. -/
def clearFirstRow (columns : Nat) (m : Matrix) : Matrix :=
  (List.range columns).foldl
    (fun m column => m.setIfInBounds (cellIndex columns 0 column) { passed := -1 }) m

/-- Fills the cell of a column in the row after `row`, for one character of the query. -/
def fillCell (q : Query) (choice : Choice) (row : Nat) (wanted : Char) (m : Matrix)
    (column : Nat) : Matrix :=
  let found := choice.chars.getD (column - 1) '\x00'
  let here := cellIndex choice.columns (row + 1) column
  let before := cellIndex choice.columns (row + 1) (column - 1)
  let current := m.getD here .fresh
  let last := m.getD before .fresh
  let diagonal := m.getD (cellIndex choice.columns row (column - 1)) .fresh
  let passed := max (last.matched + gapStart) (last.passed + gapExtend)
  if q.agrees wanted found then
    let start := choice.bonus.getD column 0
    let bonus := max (max last.bonus start) consecutive
    let matched := max (diagonal.matched + bonus) (diagonal.passed + start) + q.gain wanted found
    (m.setIfInBounds before { last with bonus }).setIfInBounds here { current with matched, passed }
  else m.setIfInBounds here { matched := awful, passed, bonus := 0 }

/-- Fills the row of one character of the query from the column after its leftmost place on. -/
def fillRow (q : Query) (choice : Choice) (row : Nat) (wanted : Char) (place : Nat)
    (m : Matrix) : Matrix :=
  (List.range' (place + 1) (choice.columns - (place + 1))).foldl
    (fillCell q choice row wanted) m

/-- Fills the rows of the query's characters, each with its leftmost place, from `row` on. -/
def fillRows (q : Query) (choice : Choice) : Nat → List (Char × Nat) → Matrix → Matrix
  | _, [], m => m
  | row, (wanted, place) :: rest, m =>
    fillRows q choice (row + 1) rest (fillRow q choice row wanted place m)

/-- The best score in the last row, from the leftmost place of the query's last character on. -/
def bestScore (choice : Choice) (row place : Nat) (m : Matrix) : Int :=
  let score (column : Nat) : Int := (m.getD (cellIndex choice.columns row column) .fresh).matched
  (List.range' place (choice.columns - place)).foldl (fun best c => max best (score c))
    (score place)

/-- The score of a name, if the query fits it, and the matrix that is left behind. -/
def score (q : Query) (m : Matrix) (name : String) : Option Int × Matrix :=
  if q.chars.isEmpty then (some 0, m)
  else
    match q.places? q.chars 0 name.toList with
    | none => (none, m)
    | some places =>
      let choice := Choice.ofChars name.toList
      let first := places.headD 0
      let blank := (resize choice.columns m).setIfInBounds (cellIndex choice.columns 1 first) .fresh
      let ready := clearFirstRow choice.columns blank
      let filled := fillRows q choice 0 (q.chars.zip places) ready
      (some (bestScore choice q.chars.length (places.getLastD 0) filled), filled)

end Taxonomy.Alignment
