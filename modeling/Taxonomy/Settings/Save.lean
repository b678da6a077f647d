import Taxonomy.Files.Disk
import Taxonomy.Settings.Basic
import Taxonomy.Toml.Printer

/-!
# Saving settings

Settings are written as a TOML document with a table for each section.
-/

namespace Taxonomy.Settings

/-- A setting's value as it is written. -/
def scalar (s : Settings) : Setting → Toml.Scalar
  | .inputPath => .text s.inputPath.text
  | .outputDir => .text s.outputDir.text
  | .treeFile => .text s.treeFile
  | .searchFile => .text s.searchFile
  | .layout => .text s.layout.name
  | .includeProperties => .switch s.includeProperties
  | .strict => .switch s.strict
  | .cycles => .text s.cycles.name

def toSections (s : Settings) : List Toml.Section :=
  Setting.sections.map fun name =>
    { name, entries := (Setting.ofSection name).map fun setting => (setting.key, s.scalar setting) }

def toToml (s : Settings) : String :=
  Toml.documentText s.toSections

/-- Writes the settings into a file. -/
def save {m : Type → Type} [Monad m] (s : Settings) (d : Disk m) (p : Path) :
    m (Except FileError Unit) :=
  d.writeText p s.toToml

end Taxonomy.Settings
