import Taxonomy.Files.Path
import Taxonomy.Generate

/-!
# Settings

What a run reads, where it writes and how. Each setting has a section and a key of its own, by which
files and the environment name it.
-/

namespace Taxonomy

structure Settings where
  inputPath : Path := ⟨"schema.txt"⟩
  outputDir : Path := ⟨"."⟩
  treeFile : String := "tree.json"
  searchFile : String := "search.json"
  layout : Layout := .pretty
  includeProperties : Bool := false
  strict : Bool := false
  cycles : CycleHandling := .fail
  deriving DecidableEq, Repr, Inhabited

namespace Settings

def treePath (s : Settings) : Path :=
  s.outputDir.join s.treeFile

def searchPath (s : Settings) : Path :=
  s.outputDir.join s.searchFile

def options (s : Settings) : GenerateOptions where
  includeProperties := s.includeProperties
  strict := s.strict
  cycles := s.cycles

end Settings

/-- The names of the settings. -/
inductive Setting
  | inputPath
  | outputDir
  | treeFile
  | searchFile
  | layout
  | includeProperties
  | strict
  | cycles
  deriving DecidableEq, Repr

namespace Setting

/-- The table that a setting belongs to. -/
def sectionName : Setting → String
  | inputPath => "input"
  | outputDir | treeFile | searchFile | layout | includeProperties => "output"
  | strict => "parse"
  | cycles => "tree"

/-- The key of a setting in its table. -/
def key : Setting → String
  | inputPath => "path"
  | outputDir => "dir"
  | treeFile => "tree_file"
  | searchFile => "search_file"
  | layout => "format"
  | includeProperties => "include_properties"
  | strict => "strict"
  | cycles => "cycles"

/-- All settings, in the order in which they are written. -/
def all : List Setting :=
  [inputPath, outputDir, treeFile, searchFile, layout, includeProperties, strict, cycles]

/-- All sections, in the order in which they are written. -/
def sections : List String := ["input", "output", "parse", "tree"]

/-- The settings of a section. -/
def ofSection (name : String) : List Setting :=
  all.filter (·.sectionName == name)

end Setting

def Layout.name : Layout → String
  | pretty => "pretty"
  | compact => "compact"

def CycleHandling.name : CycleHandling → String
  | fail => "fail"
  | .omit => "omit"

def Layout.ofName? (name : String) : Option Layout :=
  [pretty, compact].find? (·.name == name)

def CycleHandling.ofName? (name : String) : Option CycleHandling :=
  [fail, .omit].find? (·.name == name)

end Taxonomy
