import Taxonomy.Ini.Reader
import Taxonomy.Json.Number
import Taxonomy.Json.Record
import Taxonomy.Json5.Basic
import Taxonomy.Ron.Basic
import Taxonomy.Settings.Merge
import Taxonomy.Toml.Instant
import Taxonomy.Yaml.Value

/-!
# Where values come from

Each format that settings are written in has values of its own; here they become the values that are
put together. A document that holds something for which there is no value gives nothing at all.
-/

namespace Taxonomy.SettingValue

/-! ## TOML -/

/-- The key of a table that stands for a date or a time. -/
def dateKey : String := "$__toml_private_datetime"

/-- The date or time that a value holds as a string. -/
def dateOfToml? : Toml → Option SettingValue
  | .string s => (Toml.instant? s.toList).map fun cs => text (String.ofList cs)
  | _ => none

mutual

/-- The value of a TOML value. A table whose first key is `dateKey` is the date that it holds
there. -/
def ofToml? : Toml → Option SettingValue
  | .string s => some (text s)
  | .integer i => some (integer i)
  | .float x => some (real x)
  | .boolean b => some (bool b)
  | .datetime s => some (text s)
  | .array items => (allOfToml? items).map array
  | .table [] => some (table [])
  | .table ((key, v) :: rest) =>
    if key = dateKey then dateOfToml? v
    else
      match ofToml? v, layerOfToml? rest with
      | some v, some layer => some (table ((key, v) :: layer))
      | _, _ => none

def allOfToml? : List Toml → Option (List SettingValue)
  | [] => some []
  | v :: rest =>
    match ofToml? v, allOfToml? rest with
    | some v, some values => some (v :: values)
    | _, _ => none

def layerOfToml? : List (String × Toml) → Option Layer
  | [] => some []
  | (key, v) :: rest =>
    match ofToml? v, layerOfToml? rest with
    | some v, some layer => some ((key, v) :: layer)
    | _, _ => none

end

/-! ## JSON -/

/-- Adds a member in front of others, unless its key comes again. -/
def addMember (key : String) (v : SettingValue) (layer : Layer) : Layer :=
  if layer.any (·.1 == key) then layer else (key, v) :: layer

mutual

/-- The value of a JSON value in which arrays and objects nest less deep than the first argument. -/
def ofJson? : Nat → Json → Option SettingValue
  | _, .null => some nothing
  | _, .bool b => some (bool b)
  | _, .number lexeme =>
    (Json.number? lexeme).map fun
      | .integer i => integer i
      | .real x => real x
  | _, .string lexeme => (Json.text? (.string lexeme)).map text
  | 0, .array _ => none
  | depth + 1, .array items => (allOfJson? depth items).map array
  | 0, .object _ => none
  | depth + 1, .object members => (layerOfJson? depth members).map table

def allOfJson? (depth : Nat) : List Json → Option (List SettingValue)
  | [] => some []
  | j :: rest =>
    match ofJson? depth j, allOfJson? depth rest with
    | some v, some values => some (v :: values)
    | _, _ => none

/-- A key that comes again takes the place of the one before. -/
def layerOfJson? (depth : Nat) : List (List Char × Json) → Option Layer
  | [] => some []
  | (key, j) :: rest =>
    match Json.text? (.string key), ofJson? depth j, layerOfJson? depth rest with
    | some key, some v, some layer => some (addMember key v layer)
    | _, _, _ => none

end

/-! ## JSON5 -/

mutual

/-- The value of a JSON5 value. -/
def ofJson5 : Json5 → SettingValue
  | .null => nothing
  | .bool b => bool b
  | .integer i => integer i
  | .real x => real x
  | .string s => text s
  | .array items => array (allOfJson5 items)
  | .object members => table (layerOfJson5 members)

def allOfJson5 : List Json5 → List SettingValue
  | [] => []
  | j :: rest => ofJson5 j :: allOfJson5 rest

/-- A key that comes again takes the place of the one before. -/
def layerOfJson5 : List (String × Json5) → Layer
  | [] => []
  | (key, j) :: rest => addMember key (ofJson5 j) (layerOfJson5 rest)

end

/-! ## YAML -/

/-- The key of a member as a text. -/
def keyOfYaml : Yaml.Key → String
  | .text s => s
  | .integer i => toString i

mutual

/-- The value of a YAML value. Infinity and what is no number have no value in the way they are
written there. -/
def ofYaml? : Yaml.Value → Option SettingValue
  | .invalid => some nothing
  | .null => some nothing
  | .bool b => some (bool b)
  | .integer i => some (integer i)
  | .real lexeme => (Decimal.ofChars? lexeme.toList).map real
  | .text s => some (text s)
  | .sequence items => (allOfYaml? items).map array
  | .mapping members => (layerOfYaml? members).map table

def allOfYaml? : List Yaml.Value → Option (List SettingValue)
  | [] => some []
  | v :: rest =>
    match ofYaml? v, allOfYaml? rest with
    | some v, some values => some (v :: values)
    | _, _ => none

def layerOfYaml? : List (Yaml.Key × Yaml.Value) → Option Layer
  | [] => some []
  | (key, v) :: rest =>
    match ofYaml? v, layerOfYaml? rest with
    | some v, some layer => some (addMember (keyOfYaml key) v layer)
    | _, _ => none

end

/-! ## RON -/

mutual

/-- The value of a RON value. The keys of maps must be texts. -/
def ofRon? : Ron → Option SettingValue
  | .unit => some nothing
  | .bool b => some (bool b)
  | .integer i => some (integer i)
  | .real x => some (real x)
  | .text s => some (text s)
  | .optional none => some nothing
  | .optional (some v) => ofRon? v
  | .list items => (allOfRon? items).map array
  | .map entries => (layerOfRon? entries).map table

def allOfRon? : List Ron → Option (List SettingValue)
  | [] => some []
  | v :: rest =>
    match ofRon? v, allOfRon? rest with
    | some v, some values => some (v :: values)
    | _, _ => none

/-- A key that comes again takes the place of the one before. -/
def layerOfRon? : List (Ron × Ron) → Option Layer
  | [] => some []
  | (.text key, v) :: rest =>
    match ofRon? v, layerOfRon? rest with
    | some v, some layer => some (addMember key v layer)
    | _, _ => none
  | _ => none

end

/-! ## INI -/

/-- What the statements of an INI document give after each other: the section that entries belong
to, if there has been a header, and the layer. A header that comes again starts its section anew. -/
def addStatement (state : Option String × Layer) : Ini.Statement → Option String × Layer
  | .header name => (some name, state.2.put name (table []))
  | .entry key s =>
    match state.1 with
    | none => (none, state.2.put key (text s))
    | some name =>
      let members := Layer.membersOf (state.2.lookup name)
      (some name, state.2.put name (table (Layer.put key (text s) members)))

/-- The value of an INI document, in which everything is a text. -/
def ofIni (statements : List Ini.Statement) : SettingValue :=
  table (statements.foldl addStatement (none, [])).2

end Taxonomy.SettingValue
