/-!
# Paths

A path is the text that names a file: names with slashes between them, and a slash in front if it
starts at the root. Empty names and single dots stand for no step, except for a dot at the very
front.
-/

namespace Taxonomy

structure Path where
  text : String
  deriving DecidableEq, Repr, Inhabited

namespace Path

/-- The pieces between slashes: one more than there are slashes. -/
def pieces : List Char → List (List Char)
  | [] => [[]]
  | c :: rest =>
    if c = '/' then [] :: pieces rest
    else
      match pieces rest with
      | [] => [[c]]
      | piece :: more => (c :: piece) :: more

def chars (p : Path) : List Char :=
  p.text.toList

def isEmpty (p : Path) : Bool :=
  p.chars.isEmpty

/-- Starts at the root. -/
def isAbsolute (p : Path) : Bool :=
  p.chars.head? == some '/'

/-- Ends with a slash, so that it can only name a directory. -/
def endsInSlash (p : Path) : Bool :=
  p.chars.getLast? == some '/'

/-- The names on the way, single and double dots among them. -/
def names (p : Path) : List String :=
  ((pieces p.chars).filter (!·.isEmpty)).map String.ofList

/-- The path of `second` as seen from the directory `first`. -/
def join (first : Path) (second : String) : Path :=
  if (Path.mk second).isAbsolute || first.isEmpty then ⟨second⟩
  else if first.endsInSlash then ⟨first.text ++ second⟩
  else ⟨first.text ++ "/" ++ second⟩

/-! ## From the end to the front -/

/-- A piece that stands for no step. -/
def isIdle (piece : List Char) : Bool :=
  piece.isEmpty || piece == ['.']

/-- The pieces from the last to the first without idle ones at the end; the very first piece stays,
be it the root or a dot. -/
def trim : List (List Char) → List (List Char)
  | [] => []
  | [first] => [first]
  | piece :: rest => if isIdle piece then trim rest else piece :: rest

/-- The path of pieces given from the last to the first. -/
def ofReversed (pieces : List (List Char)) : Path :=
  if pieces = [[]] then ⟨"/"⟩ else ⟨String.ofList (['/'].intercalate pieces.reverse)⟩

/-- The directories that a path given from the last to the first goes through, the nearest first.
The empty path is the last one of a relative path; the root has none. -/
def directoriesOf : List (List Char) → List Path
  | [] => []
  | [first] => if first.isEmpty then [] else [⟨""⟩]
  | piece :: rest =>
    if isIdle piece then directoriesOf rest else ofReversed (trim rest) :: directoriesOf rest

def directories (p : Path) : List Path :=
  directoriesOf (pieces p.chars).reverse

/-- The directory that a path names something in. -/
def parent? (p : Path) : Option Path :=
  p.directories.head?

/-- The last piece, if it is a name, and the pieces before it from the last to the first. -/
def fileName? (p : Path) : Option (List Char × List (List Char)) :=
  match trim (pieces p.chars).reverse with
  | name :: rest => if isIdle name || name == ['.', '.'] then none else some (name, rest)
  | [] => none

/-- What follows the last dot of the file name, which must not be the name's first character. -/
def extension? (p : Path) : Option String :=
  match p.fileName? with
  | none => none
  | some (name, _) =>
    let after := name.reverse.takeWhile (· != '.')
    if after.length + 1 < name.length then some (String.ofList after.reverse) else none

/-- The path with a dot and an extension put after its file name. -/
def withExtension? (p : Path) (extension : String) : Option Path :=
  p.fileName?.map fun (name, rest) =>
    ofReversed ((name ++ '.' :: extension.toList) :: rest)

end Path

end Taxonomy
