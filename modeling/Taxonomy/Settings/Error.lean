import Taxonomy.Files.Error
import Taxonomy.Files.Path
import Taxonomy.Settings.Basic

/-!
# Errors on settings

Why settings could not be put together.
-/

namespace Taxonomy

inductive SettingsError
  | missing (path : Path)
  | unknownFormat (path : Path)
  | unreadable (path : Path) (cause : FileError)
  | malformed (path : Path)
  | noSection (section_ : String)
  | wrongType (setting : Setting)
  deriving DecidableEq, Repr

def SettingsError.message : SettingsError → String
  | missing path => s!"configuration file {path.text} not found"
  | unknownFormat path => s!"configuration file {path.text} is of no known format"
  | unreadable path cause => s!"{path.text}: {cause.message}"
  | malformed path => s!"{path.text} cannot be parsed"
  | noSection section_ => s!"{section_} must be a table or an array"
  | wrongType setting => s!"invalid value for {setting.sectionName}.{setting.key}"

end Taxonomy
