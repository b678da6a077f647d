import Taxonomy.Files.Disk
import Taxonomy.Settings.Decode
import Taxonomy.Settings.Environment
import Taxonomy.Settings.Format

/-!
# Loading settings

The sources are some files with fixed names, a file that is asked for, and the environment; later
ones lie over earlier ones. The file that is asked for must be there. A text that is read must be
right as a whole, whatever lies over it.
-/

namespace Taxonomy.Settings

variable {m : Type → Type} [Monad m]

/-- The first path that names a file, with the format that is given beside it. -/
def firstFile (d : Disk m) : List (Path × FileFormat) → m (Option (Path × FileFormat))
  | [] => return none
  | candidate :: rest => do
    if ← d.isFile candidate.1 then return some candidate else firstFile d rest

/-- A file of the given name, or else of the name with the extension of a format put after it. The
name is taken from the root, so that no path longer than the system allows is found. -/
def findFile (d : Disk m) (p : Path) : m (Except SettingsError (Path × FileFormat)) := do
  let full := (← d.start).join p.text
  if ← d.isFile full then
    match FileFormat.ofPath? full with
    | some format => return .ok (full, format)
    | none => return .error (.unknownFormat p)
  else
    let candidates := FileFormat.all.flatMap fun format =>
      format.extensions.filterMap fun extension =>
        (full.withExtension? extension).map fun path => (path, format)
    match ← firstFile d candidates with
    | some found => return .ok found
    | none => return .error (.missing p)

/-- The text of a file of the given name, and its format. -/
def readFile (d : Disk m) (p : Path) : m (Except SettingsError (String × FileFormat)) := do
  match ← findFile d p with
  | .error e => return .error e
  | .ok (path, format) =>
    match ← d.readText path with
    | .error e => return .error (.unreadable p e)
    | .ok text => return .ok (text, format)

/-- What a text in a format gives, if it keeps to the format. -/
def layerOf (p : Path) (text : String) (format : FileFormat) : Except SettingsError Layer :=
  match format.layer? text with
  | some layer => .ok layer
  | none => .error (.malformed p)

/-- What a file gives that must be there. -/
def requiredLayer (d : Disk m) (p : Path) : m (Except SettingsError Layer) := do
  match ← readFile d p with
  | .error e => return .error e
  | .ok (text, format) => return layerOf p text format

/-- What a file gives if it can be read, and nothing otherwise. -/
def optionalLayer (d : Disk m) (p : Path) : m (Except SettingsError Layer) := do
  match ← readFile d p with
  | .error _ => return .ok []
  | .ok (text, format) => return layerOf p text format

/-- The layer of a file that may be missing; unlike `optionalLayer`, nothing else is tried if there
is nothing at all at the path. -/
def userLayer (d : Disk m) (p : Path) : m (Except SettingsError Layer) := do
  if (← d.isFile p) || (← d.isDirectory p) then optionalLayer d p else return .ok []

/-- The files in the working directory that are looked for. -/
def localFiles : List Path :=
  [⟨"schema-tree.toml"⟩, ⟨".schema-tree.toml"⟩, ⟨"config/schema-tree.toml"⟩]

/-- The user's own file. -/
def userFile? (env : Environment) : Option Path :=
  env.configHome?.map fun dir => (dir.join "schema-tree").join "schema-tree.toml"

/-- The layers of all files, the lowest first. -/
def fileLayers (d : Disk m) (env : Environment) (custom : Option Path) :
    List (m (Except SettingsError Layer)) :=
  localFiles.map (optionalLayer d) ++ (userFile? env).toList.map (userLayer d) ++
    custom.toList.map (requiredLayer d)

/-- Runs readers in order up to the first error. -/
def collect : List (m (Except SettingsError Layer)) → m (Except SettingsError (List Layer))
  | [] => return .ok []
  | reader :: rest => do
    match ← reader with
    | .error e => return .error e
    | .ok layer =>
      match ← collect rest with
      | .error e => return .error e
      | .ok layers => return .ok (layer :: layers)

/-- The settings that all sources give together. -/
def load (d : Disk m) (env : Environment) (custom : Option Path) :
    m (Except SettingsError Settings) := do
  match ← collect (fileLayers d env custom) with
  | .error e => return .error e
  | .ok layers => return ofLayer (Layer.merge (layers ++ [env.layer]))

end Taxonomy.Settings
