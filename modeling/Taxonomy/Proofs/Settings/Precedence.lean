import Taxonomy.Proofs.CommandLine.Arguments
import Taxonomy.Proofs.Settings.Cover
import Taxonomy.Proofs.Settings.Load

/-!
# Which source counts

Each setting is what the last source says that gives it, whatever the others give and whatever is
given for other settings (`load_settles`). It is decoded after that, so a value that does not count
may be of any kind. The flags of the command to generate then take the place of the settings that
they name.
-/

namespace Taxonomy

/-- The type of a setting. -/
def Setting.Value : Setting → Type
  | inputPath | outputDir => Path
  | treeFile | searchFile => String
  | layout => Layout
  | includeProperties | strict => Bool
  | cycles => CycleHandling

instance : (x : Setting) → DecidableEq x.Value
  | .inputPath | .outputDir => inferInstanceAs (DecidableEq Path)
  | .treeFile | .searchFile => inferInstanceAs (DecidableEq String)
  | .layout => inferInstanceAs (DecidableEq Layout)
  | .includeProperties | .strict => inferInstanceAs (DecidableEq Bool)
  | .cycles => inferInstanceAs (DecidableEq CycleHandling)

def Settings.value (s : Settings) : (x : Setting) → x.Value
  | .inputPath => s.inputPath
  | .outputDir => s.outputDir
  | .treeFile => s.treeFile
  | .searchFile => s.searchFile
  | .layout => s.layout
  | .includeProperties => s.includeProperties
  | .strict => s.strict
  | .cycles => s.cycles

/-- The settings with the given values. -/
def Settings.ofValues (value : (x : Setting) → x.Value) : Settings where
  inputPath := value .inputPath
  outputDir := value .outputDir
  treeFile := value .treeFile
  searchFile := value .searchFile
  layout := value .layout
  includeProperties := value .includeProperties
  strict := value .strict
  cycles := value .cycles

namespace Setting

/-- What a setting is if nothing gives it. -/
def default : (x : Setting) → x.Value
  | inputPath => Path.mk "schema.txt"
  | outputDir => Path.mk "."
  | treeFile => "tree.json"
  | searchFile => "search.json"
  | layout => Layout.pretty
  | includeProperties | strict => false
  | cycles => CycleHandling.fail

/-- A value as one of the setting's type. -/
def coerce : (x : Setting) → SettingValue → Option x.Value
  | inputPath | outputDir => SettingValue.asPath?
  | treeFile | searchFile => SettingValue.asText?
  | layout => SettingValue.asChoice? Layout.ofName?
  | includeProperties | strict => SettingValue.asBool?
  | cycles => SettingValue.asChoice? CycleHandling.ofName?

/-- What a setting is if a value is given for it, or none. -/
def settle (x : Setting) : Option SettingValue → Option x.Value
  | none => some x.default
  | some v => x.coerce v

/-- The flag that names a setting. -/
def flag : Setting → Flag
  | inputPath => .input
  | outputDir => .outDir
  | treeFile => .treeFile
  | searchFile => .searchFile
  | layout => .compact
  | includeProperties => .withProperties
  | strict => .strict
  | cycles => .allowCycles

/-- What the flag gives for the setting. A switch gives one value only. -/
def ofFlag : (x : Setting) → String → x.Value
  | inputPath, text | outputDir, text => Path.mk text
  | treeFile, text | searchFile, text => text
  | layout, _ => Layout.compact
  | includeProperties, _ | strict, _ => true
  | cycles, _ => CycleHandling.omit

/-- The path of a setting as variables give it. -/
def path (x : Setting) : String :=
  x.sectionName ++ "." ++ x.key

end Setting

namespace Settings

open FileSystem (disk)

/-- What all sources give, in order: the files in the working directory, the user's own file if
there is something at its path, the file that is asked for, and the environment. -/
def sources (fs : FileSystem) (env : Environment) (custom : Option Path) : List Layer :=
  defaultLayers fs env ++ custom.toList.map (fileLayer fs) ++ [env.layer]

/-- The value that counts for a setting. -/
def winner? (fs : FileSystem) (env : Environment) (custom : Option Path) (x : Setting) :
    Option SettingValue :=
  Layer.lastGiven (Layer.given? x) (sources fs env custom)

/-- Every file that is used is a document, in which sections are tables and settings scalars, and
every variable with the prefix names a setting. -/
structure Usable (fs : FileSystem) (env : Environment) (custom : Option Path) : Prop where
  defaults : ∀ p ∈ defaultFiles env fs, Accepts fs p
  asked : ∀ p ∈ custom, ((requiredLayer disk p).run fs).1.isOk
  orderly : ∀ p ∈ defaultFiles env fs ++ custom.toList, (fileLayer fs p).orderly
  named : ∀ entry ∈ env, ∀ key ∈ Environment.keyOf? entry.1, ∃ x : Setting, key = x.path

/-! ## Decoding -/

theorem value_ofValues (value : (x : Setting) → x.Value) (x : Setting) :
    (ofValues value).value x = value x := by
  cases x <;> rfl

theorem ofLayer_eq_ok_iff {layer : Layer} {s : Settings} :
    ofLayer layer = .ok s ↔
      ∀ x : Setting, get layer x x.default x.coerce = .ok (s.value x) := by
  constructor
  · intro decoded
    rw [ofLayer] at decoded
    simp only [bind_eq_ok] at decoded
    obtain ⟨_, h₁, _, h₂, _, h₃, _, h₄, _, h₅, _, h₆, _, h₇, _, h₈, same⟩ :=
      decoded
    cases same
    intro x
    cases x
    · exact h₁
    · exact h₂
    · exact h₃
    · exact h₄
    · exact h₅
    · exact h₆
    · exact h₇
    · exact h₈
  · intro each
    rw [ofLayer]
    simp only [bind_eq_ok]
    exact ⟨_, each .inputPath, _, each .outputDir, _, each .treeFile, _, each .searchFile, _,
      each .layout, _, each .includeProperties, _, each .strict, _, each .cycles, rfl⟩

theorem valueOf?_of_tabular {layer : Layer} (tabular : layer.Tabular) (x : Setting) :
    valueOf? layer x = .ok (layer.value? x) := by
  rw [valueOf?, Layer.value?]
  cases found : layer.lookup x.sectionName with
  | none => rfl
  | some v =>
    obtain ⟨members, rfl⟩ := tabular x v found
    rfl

/-- A setting is decoded if it settles, whatever is given for others. -/
theorem get_eq_ok_iff {layer : Layer} (tabular : layer.Tabular) {x : Setting} {a : x.Value} :
    get layer x x.default x.coerce = .ok a ↔ x.settle (layer.value? x) = some a := by
  rw [get, valueOf?_of_tabular tabular]
  cases layer.value? x with
  | none => simp [Setting.settle]
  | some v => cases decoded : x.coerce v <;> simp [Setting.settle, decoded]

theorem ofLayer_eq_ok_iff_settle {layer : Layer} (tabular : layer.Tabular) {s : Settings} :
    ofLayer layer = .ok s ↔ ∀ x : Setting, x.settle (layer.value? x) = some (s.value x) := by
  rw [ofLayer_eq_ok_iff]
  exact forall_congr' fun x => get_eq_ok_iff tabular

/-- Decoding fails if there is a setting that does not settle. -/
theorem ofLayer_eq_error_iff {layer : Layer} (tabular : layer.Tabular) :
    (∃ e, ofLayer layer = .error e) ↔ ∃ x : Setting, x.settle (layer.value? x) = none := by
  constructor
  · rintro ⟨e, failed⟩
    by_contra settled
    have each (x : Setting) : ∃ a, x.settle (layer.value? x) = some a :=
      Option.ne_none_iff_exists'.mp fun none => settled ⟨x, none⟩
    choose value settles using each
    have decoded : ofLayer layer = .ok (ofValues value) := by
      rw [ofLayer_eq_ok_iff_settle tabular]
      exact fun x => (settles x).trans (congrArg some (value_ofValues value x).symm)
    rw [failed] at decoded
    cases decoded
  · rintro ⟨x, unsettled⟩
    cases decoded : ofLayer layer with
    | error e => exact ⟨e, rfl⟩
    | ok s =>
      rw [(ofLayer_eq_ok_iff_settle tabular).mp decoded x] at unsettled
      cases unsettled

theorem settle_eq_none_iff {x : Setting} {given : Option SettingValue} :
    x.settle given = none ↔ ∃ v, given = some v ∧ x.coerce v = none := by
  cases given <;> simp [Setting.settle]

/-! ## Sources -/

theorem isScalar_ofText (text : String) : (SettingValue.ofText text).isScalar := by
  unfold SettingValue.ofText
  split
  · rfl
  · split
    · rfl
    · split <;> rfl

theorem pathOfKey_path (x : Setting) :
    Layer.pathOfKey x.path = (x.sectionName, [.name x.key]) := by
  cases x <;> decide +kernel

/-- The variables with the prefix give scalars, and each at the path of a setting. -/
theorem orderly_environment {env : Environment}
    (named : ∀ entry ∈ env, ∀ key ∈ Environment.keyOf? entry.1,
      ∃ x : Setting, key = x.path) :
    env.layer.orderly := by
  refine List.all_eq_true.mpr fun member inside => List.all_eq_true.mpr fun x _ => ?_
  obtain ⟨entry, own, given⟩ := List.mem_filterMap.mp inside
  obtain ⟨key, isKey, rfl⟩ := Option.map_eq_some_iff.mp given
  obtain ⟨y, rfl⟩ := named entry own key isKey
  rw [Layer.orderlyMember, pathOfKey_path]
  simp [isScalar_ofText]

theorem orderly_sources {fs : FileSystem} {env : Environment} {custom : Option Path}
    (usable : Usable fs env custom) : ∀ layer ∈ sources fs env custom, layer.orderly := by
  have files := usable.orderly
  rw [defaultFiles, List.forall_mem_append, List.forall_mem_append] at files
  obtain ⟨⟨ofLocal, ofUser⟩, asked⟩ := files
  rw [sources, defaultLayers, List.forall_mem_append, List.forall_mem_append,
    List.forall_mem_append, List.forall_mem_map, List.forall_mem_map, List.forall_mem_map,
    List.forall_mem_singleton]
  refine ⟨⟨⟨ofLocal, fun p own => ?_⟩, asked⟩, orderly_environment usable.named⟩
  rw [userFileLayer]
  split
  · next present => exact ofUser p (List.mem_filter.mpr ⟨own, present⟩)
  · rfl

theorem exists_gives {fs : FileSystem} {p : Path} (ok : ((requiredLayer disk p).run fs).1.isOk) :
    ∃ layer, Gives fs (requiredLayer disk p) layer := by
  cases given : ((requiredLayer disk p).run fs).1 with
  | error e => rw [given] at ok; cases ok
  | ok layer => exact ⟨layer, (readsOnly_requiredLayer p).run_eq given⟩

/-! ## Flags -/

/-- The flags of the command to generate override the settings that they name and no others. -/
theorem value_overrides (r : Arguments.Reading) (s : Settings) (x : Setting) :
    (r.overrides.apply s).value x = ((r.given.lookup x.flag).map x.ofFlag).getD (s.value x) := by
  cases given : r.given.lookup x.flag <;> cases x <;> rw [Setting.flag] at given <;>
    simp [value, Overrides.apply, Arguments.Reading.overrides, Arguments.Reading.path?,
      Arguments.Reading.has, given] <;>
    rfl

/-- Each setting is what the last source says that gives it, or its default, and loading fails only
if there is one of which that is no value. All files are left as they are. Flags then override the
settings that they name. -/
theorem load_settles {fs : FileSystem} {env : Environment} {custom : Option Path}
    (usable : Usable fs env custom) :
    let ran := (load disk env custom).run fs
    let result := ran.1
    ran.2 = fs ∧
    (∀ s, result = .ok s ↔
      ∀ x : Setting, x.settle (winner? fs env custom x) = some (s.value x)) ∧
    ((∃ e, result = .error e) ↔
      ∃ x v, winner? fs env custom x = some v ∧ x.coerce v = none) ∧
    ∀ arguments o, Invocation.ofArguments arguments = .ok ⟨custom, .generate o⟩ →
      ∃ r, Arguments.readAll arguments = .ok r ∧ ∀ (s : Settings) (x : Setting),
        (o.apply s).value x = ((r.given.lookup x.flag).map x.ofFlag).getD (s.value x) := by
  intro ran result
  obtain ⟨tabular, winners⟩ := Layer.value?_merge (orderly_sources usable)
  have loaded : result = ofLayer (Layer.merge (sources fs env custom)) :=
    congrArg Prod.fst (run_load usable.defaults fun p asked => exists_gives (usable.asked p asked))
  refine ⟨readsOnly_load env custom fs, fun s => ?_, ?_, fun arguments o asked => ?_⟩
  · rw [loaded, ofLayer_eq_ok_iff_settle tabular]
    exact forall_congr' fun x => by rw [winners]; rfl
  · rw [loaded, ofLayer_eq_error_iff tabular]
    exact exists_congr fun x => by rw [winners, settle_eq_none_iff]; rfl
  · obtain ⟨r, read, rfl⟩ := Arguments.exists_reading asked
    exact ⟨r, read, value_overrides r⟩

/-- A working directory with all files that are looked for there and one more, and a file of the
user's own. The lowest gives a value that is none for its setting. -/
def shadowed : FileSystem where
  nodes := [(["work"], .directory), (["config", "work"], .directory),
    (["xdg"], .directory), (["schema-tree", "xdg"], .directory),
    (["schema-tree.toml", "work"],
      .file "[output]\ndir = \"low\"\nsearch_file = \"low\"\nformat = 3\n".toUTF8),
    ([".schema-tree.toml", "work"], .file "[parse]\nstrict = \"?\"\n".toUTF8),
    (["schema-tree.toml", "config", "work"], .file "[output]\ntree_file = \"low\"\n".toUTF8),
    (["schema-tree.toml", "schema-tree", "xdg"],
      .file "[output]\ndir = \"own\"\ntree_file = \"own\"\nformat = \"pretty\"\n".toUTF8),
    (["c.toml", "work"], .file "[Output]\nTREE_FILE = \"high\"\nFORMAT = \"compact\"\n".toUTF8)]
  start := ["work"]

/-- The user's own file decides the output directory, over a file in the working directory. -/
theorem load_settles_shadowed :
    let env : Environment :=
      [("HOME", "/work"), ("XDG_CONFIG_HOME", "/xdg"), ("SCHEMA_TREE__PARSE__STRICT", "Yes")]
    let custom : Option Path := some ⟨"c.toml"⟩
    userPath? env = some ⟨"/xdg/schema-tree/schema-tree.toml"⟩ ∧
      Usable shadowed env custom ∧
      ((load disk env custom).run shadowed).1 =
        .ok { outputDir := ⟨"own"⟩, treeFile := "high", searchFile := "low", layout := .compact,
              strict := true } := by
  intro env custom
  have notSetting : ∀ name ∈ ["HOME", "XDG_CONFIG_HOME"], Environment.keyOf? name = none := by
    decide +kernel
  have own : Environment.keyOf? "SCHEMA_TREE__PARSE__STRICT" = some Setting.strict.path := by
    decide +kernel
  have usable : Usable shadowed env custom := by
    refine ⟨by decide +kernel, by decide +kernel, by decide +kernel, ?_⟩
    rw [List.forall_mem_cons, List.forall_mem_cons, List.forall_mem_singleton, own,
      notSetting _ (by simp), notSetting _ (by simp)]
    refine ⟨by simp, by simp, ?_⟩
    rintro _ ⟨⟩
    exact ⟨.strict, rfl⟩
  refine ⟨by decide, usable, ((load_settles usable).2.1 _).mpr fun x => ?_⟩
  have each : ∀ x ∈ Setting.all, x.settle (winner? shadowed env custom x) = some
      (({ outputDir := ⟨"own"⟩, treeFile := "high", searchFile := "low", layout := .compact,
          strict := true } : Settings).value x) := by
    decide +kernel
  exact each x x.mem_all

end Settings

end Taxonomy
