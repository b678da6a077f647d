import Taxonomy.Settings.Error
import Taxonomy.Settings.Merge

/-!
# Settings from a layer

Each setting is decoded on its own from the value at its key, or has its default if there is none.
-/

namespace Taxonomy.Settings

/-- What a section gives for a setting: a table has it at its key, an array in its place. -/
def memberOf? (setting : Setting) : SettingValue → Except SettingsError (Option SettingValue)
  | .table members => .ok (members.lookup setting.key)
  | .array items => .ok items[(Setting.ofSection setting.sectionName).idxOf setting]?
  | _ => .error (.noSection setting.sectionName)

/-- What a layer gives for a setting. -/
def valueOf? (layer : Layer) (setting : Setting) : Except SettingsError (Option SettingValue) :=
  match layer.lookup setting.sectionName with
  | none => .ok none
  | some v => memberOf? setting v

/-- A setting decoded with `decode`. -/
def get {α : Type} (layer : Layer) (setting : Setting) (default : α)
    (decode : SettingValue → Option α) : Except SettingsError α :=
  match valueOf? layer setting with
  | .error e => .error e
  | .ok none => .ok default
  | .ok (some v) =>
    match decode v with
    | some a => .ok a
    | none => .error (.wrongType setting)

/-- The settings that a layer gives; every section that it has must be a table or an array. -/
def ofLayer (layer : Layer) : Except SettingsError Settings := do
  let base : Settings := {}
  let inputPath ← get layer .inputPath base.inputPath SettingValue.asPath?
  let outputDir ← get layer .outputDir base.outputDir SettingValue.asPath?
  let treeFile ← get layer .treeFile base.treeFile SettingValue.asText?
  let searchFile ← get layer .searchFile base.searchFile SettingValue.asText?
  let layout ← get layer .layout base.layout (SettingValue.asChoice? Layout.ofName?)
  let includeProperties ← get layer .includeProperties base.includeProperties SettingValue.asBool?
  let strict ← get layer .strict base.strict SettingValue.asBool?
  let cycles ← get layer .cycles base.cycles (SettingValue.asChoice? CycleHandling.ofName?)
  return { inputPath, outputDir, treeFile, searchFile, layout, includeProperties, strict, cycles }

end Taxonomy.Settings
