import Taxonomy.Files.Error
import Taxonomy.Files.Path

/-!
# File systems

A file system holds files and directories at locations, and a directory in which relative paths
start. Reading, writing and making directories follow a path name by name: each name but the last
must be that of a directory. An operation that fails leaves everything as it was.
-/

namespace Taxonomy

/-- Where a node is: its own name, the name of its directory, and so on up to the root. -/
abbrev Location := List String

inductive Node
  | file (content : ByteArray)
  | directory
  deriving Inhabited

structure FileSystem where
  nodes : List (Location × Node) := []
  start : Location := []

namespace FileSystem

/-- The node at a location; the root is always a directory. -/
def node? (fs : FileSystem) : Location → Option Node
  | [] => some .directory
  | location => fs.nodes.lookup location

/-- Puts a node in the place of what is at a location. -/
def put (fs : FileSystem) (location : Location) (node : Node) : FileSystem :=
  { fs with nodes := (location, node) :: fs.nodes.filter (·.1 != location) }

theorem lookup_filter_ne {nodes : List (Location × Node)} {l k : Location} (h : k ≠ l) :
    (nodes.filter (·.1 != l)).lookup k = nodes.lookup k := by
  induction nodes with
  | nil => rfl
  | cons n ns ih =>
    obtain ⟨there, node⟩ := n
    by_cases hl : there = l
    · have hk : (k == there) = false := by simp [hl, h]
      have hne : (there != l) = false := by simp [hl]
      simp only [List.filter_cons, hne, Bool.false_eq_true, if_false, List.lookup_cons, hk, ih]
    · have hne : (there != l) = true := by simp [hl]
      simp only [List.filter_cons, hne, if_true, List.lookup_cons, ih]

theorem node?_put (fs : FileSystem) {l : Location} (node : Node) (k : Location) (h : l ≠ []) :
    (fs.put l node).node? k = if k = l then some node else fs.node? k := by
  cases k with
  | nil => simp [node?, h.symm]
  | cons name above =>
    by_cases hk : name :: above = l
    · simp [node?, put, hk]
    · have hne : (name :: above == l) = false := by simp [hk]
      simp [node?, put, List.lookup_cons, hk, hne, lookup_filter_ne hk]

/-! ## Following a path -/

/-- The bytes that a name, and a whole path, may have. -/
def nameLimit : Nat := 255
def pathLimit : Nat := 4095

/-- What is wrong with a path wherever it leads. -/
def fault? (p : Path) : Option FileError :=
  if p.chars.contains '\x00' then some .nulByte
  else if pathLimit < p.text.utf8ByteSize then some .nameTooLong
  else if p.isEmpty then some .notFound
  else none

/-- What has a name in a directory. -/
def child? (fs : FileSystem) (name : String) (here : Location) : Except FileError (Option Node) :=
  if nameLimit < name.utf8ByteSize then .error .nameTooLong else .ok (fs.node? (name :: here))

/-- One step from a directory to another. -/
def enter (fs : FileSystem) (here : Location) (name : String) : Except FileError Location :=
  if name = "." then .ok here
  else if name = ".." then .ok here.tail
  else
    match fs.child? name here with
    | .error e => .error e
    | .ok none => .error .notFound
    | .ok (some (.file _)) => .error .notDirectory
    | .ok (some .directory) => .ok (name :: here)

/-- The directory that a path leads to step by step. -/
def walk (fs : FileSystem) : Location → List String → Except FileError Location
  | here, [] => .ok here
  | here, name :: rest =>
    match fs.enter here name with
    | .error e => .error e
    | .ok there => fs.walk there rest

/-- What a path ends in: a directory that it has walked through, or a name in one, which may stand
for a file, a directory or nothing. -/
inductive Target
  | passed
  | named (name : String) (here : Location)
  deriving DecidableEq, Repr

def locate (fs : FileSystem) (p : Path) : Except FileError Target :=
  match fault? p with
  | some e => .error e
  | none =>
    match p.names.getLast? with
    | none => .ok .passed
    | some last =>
      match fs.walk (if p.isAbsolute then [] else fs.start) p.names.dropLast with
      | .error e => .error e
      | .ok here => .ok (if last = "." || last = ".." then .passed else .named last here)

/-! ## Operations -/

/-- The content of a file. -/
def read (fs : FileSystem) (p : Path) : Except FileError ByteArray :=
  match fs.locate p with
  | .error e => .error e
  | .ok .passed => .error .isDirectory
  | .ok (.named name here) =>
    match fs.child? name here with
    | .error e => .error e
    | .ok none => .error .notFound
    | .ok (some .directory) => .error .isDirectory
    | .ok (some (.file content)) => if p.endsInSlash then .error .notDirectory else .ok content

/-- Gives a file its content; a file that does not exist is made. -/
def write (fs : FileSystem) (p : Path) (content : ByteArray) : Except FileError FileSystem :=
  match fs.locate p with
  | .error e => .error e
  | .ok .passed => .error .isDirectory
  | .ok (.named name here) =>
    if p.endsInSlash then .error .isDirectory
    else
      match fs.child? name here with
      | .error e => .error e
      | .ok (some .directory) => .error .isDirectory
      | .ok _ => .ok (fs.put (name :: here) (.file content))

/-- Makes one directory where nothing is. -/
def makeDirectory (fs : FileSystem) (p : Path) : Except FileError FileSystem :=
  match fs.locate p with
  | .error e => .error e
  | .ok .passed => .error .exists
  | .ok (.named name here) =>
    match fs.child? name here with
    | .error e => .error e
    | .ok (some _) => .error .exists
    | .ok none => .ok (fs.put (name :: here) .directory)

/-- A path names a regular file. -/
def isFile (fs : FileSystem) (p : Path) : Bool :=
  match fs.read p with
  | .ok _ => true
  | .error _ => false

/-- A path names a directory. -/
def isDirectory (fs : FileSystem) (p : Path) : Bool :=
  match fs.read p with
  | .error .isDirectory => true
  | _ => false

end FileSystem

end Taxonomy
