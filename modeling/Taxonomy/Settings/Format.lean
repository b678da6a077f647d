import Taxonomy.Json.Reader
import Taxonomy.Json5.Reader
import Taxonomy.Ron.Reader
import Taxonomy.Settings.Source
import Taxonomy.Toml.Reader

/-!
# Formats of settings files

The extension of a file's name tells the format that it is in. Whatever the format, there must be a
table at the top.
-/

namespace Taxonomy

inductive FileFormat
  | toml
  | json
  | yaml
  | ini
  | ron
  | json5
  deriving DecidableEq, Repr

namespace FileFormat

def extensions : FileFormat → List String
  | toml => ["toml"]
  | json => ["json"]
  | yaml => ["yaml", "yml"]
  | ini => ["ini"]
  | ron => ["ron"]
  | json5 => ["json5"]

/-- All formats, in the order in which their extensions are tried. -/
def all : List FileFormat := [toml, json, yaml, ini, ron, json5]

/-- The format that a file's name tells. -/
def ofPath? (p : Path) : Option FileFormat :=
  all.find? fun format => format.extensions.any (p.extension? == some ·)

/-- The value that a text in a format writes. -/
def value? (format : FileFormat) (text : String) : Option SettingValue :=
  match format with
  | toml => (Toml.ofText? text).bind fun members => SettingValue.ofToml? (.table members)
  | json => (Json.ofText? text).bind (SettingValue.ofJson? Json.maxDepth)
  | yaml => (Yaml.Value.ofText? text).bind SettingValue.ofYaml?
  | ini => (Ini.ofText? text).map SettingValue.ofIni
  | ron => (Ron.ofText? text).bind SettingValue.ofRon?
  | json5 => (Json5.ofText? text).map SettingValue.ofJson5

/-- What a text in a format gives. -/
def layer? (format : FileFormat) (text : String) : Option Layer :=
  (format.value? text).bind SettingValue.asTable?

end FileFormat

end Taxonomy
