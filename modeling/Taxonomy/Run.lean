import Taxonomy.Files.Disk
import Taxonomy.Settings.Basic
import Taxonomy.Text.Quoted

/-!
# Running

A run reads a schema, generates the artifacts and writes both files, the navigation tree first. It
stops at the first thing that fails; nothing is written before all has been generated.
-/

namespace Taxonomy

inductive RunError
  | read (path : Path) (cause : FileError)
  | generate (cause : GenerateError)
  | write (path : Path) (cause : FileError)
  deriving DecidableEq, Repr

def RunError.message : RunError → String
  | read path cause => s!"Cannot read schema file {Text.quote path.text}: {cause.message}"
  | generate cause => cause.message
  | write path cause => s!"Cannot write output file {Text.quote path.text}: {cause.message}"

/-- What a run has written, and where. -/
structure Written where
  artifacts : Artifacts
  tree : Path
  search : Path

/-- How a run has ended, and what building the forest had to say, even if writing failed later. -/
structure RunReport where
  warnings : List Warning := []
  result : Except RunError Written

variable {m : Type → Type} [Monad m]

/-- The text of a schema file. -/
def readSchema (d : Disk m) (p : Path) : m (Except RunError String) := do
  match ← d.readText p with
  | .ok text => return .ok text
  | .error e => return .error (.read p e)

def writeOutput (d : Disk m) (p : Path) (text : String) : m (Except RunError Unit) := do
  match ← d.writeWithDirectories p text with
  | .ok () => return .ok ()
  | .error e => return .error (.write p e)

/-- Writes the tree and then the index. -/
def Artifacts.write (a : Artifacts) (d : Disk m) (tree search : Path) (layout : Layout) :
    m (Except RunError Unit) := do
  match ← writeOutput d tree (a.treeText layout) with
  | .error e => return .error e
  | .ok () => writeOutput d search (a.searchText layout)

/-- A whole run. -/
def run (d : Disk m) (s : Settings) : m RunReport := do
  match ← readSchema d s.inputPath with
  | .error e => return { result := .error e }
  | .ok text =>
    match generate text s.options with
    | .error e => return { result := .error (.generate e) }
    | .ok artifacts =>
      let warnings := artifacts.warnings
      match ← artifacts.write d s.treePath s.searchPath s.layout with
      | .error e => return { warnings, result := .error e }
      | .ok () =>
        return { warnings, result := .ok { artifacts, tree := s.treePath, search := s.searchPath } }

end Taxonomy
