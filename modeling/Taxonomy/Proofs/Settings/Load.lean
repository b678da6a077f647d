import Mathlib.Data.List.Forall2
import Taxonomy.Proofs.Files.Disk
import Taxonomy.Proofs.Files.System
import Taxonomy.Settings.Load

/-!
# Loading step by step

Loading only reads (`readsOnly_load`), so each file gives its layer whatever has been read before.
The files that are looked for in any case (`defaultFiles` has their paths) give one if they are
accepted as documents (`Accepts`), and all layers are collected if there is one for each
(`run_collect`). A file is accepted also if it is missing because no name starts with its own
(`accepts_of_absent`).
-/

namespace Taxonomy.Settings

open FileSystem (disk ReadsOnly readsOnly_pure readsOnly_read readsOnly_isFile readsOnly_isDirectory
  readsOnly_readText run_bind run_isFile run_isDirectory)

variable {fs : FileSystem}

/-! ## Only reading -/

theorem readsOnly_firstFile (candidates : List (Path × FileFormat)) :
    ReadsOnly (firstFile disk candidates) := by
  induction candidates with
  | nil => exact readsOnly_pure _
  | cons candidate candidates ih =>
    refine (readsOnly_isFile _).bind fun found => ?_
    cases found
    · exact ih
    · exact readsOnly_pure _

theorem readsOnly_findFile (p : Path) : ReadsOnly (findFile disk p) := by
  refine ReadsOnly.bind (fun _ => rfl) fun start => (readsOnly_isFile _).bind fun found => ?_
  cases found with
  | true =>
    rw [if_pos rfl]
    split <;> exact readsOnly_pure _
  | false => exact (readsOnly_firstFile _).bind fun r => by cases r <;> exact readsOnly_pure _

theorem readsOnly_readFile (p : Path) : ReadsOnly (readFile disk p) :=
  (readsOnly_findFile p).bind fun r => by
    cases r with
    | error e => exact readsOnly_pure _
    | ok found => exact (readsOnly_readText _).bind fun r => by cases r <;> exact readsOnly_pure _

theorem readsOnly_optionalLayer (p : Path) : ReadsOnly (optionalLayer disk p) :=
  (readsOnly_readFile p).bind fun r => by cases r <;> exact readsOnly_pure _

theorem readsOnly_userLayer (p : Path) : ReadsOnly (userLayer disk p) :=
  (readsOnly_isFile p).bind fun _ => (readsOnly_isDirectory p).bind fun _ => by
    split
    · exact readsOnly_optionalLayer p
    · exact readsOnly_pure _

theorem readsOnly_requiredLayer (p : Path) : ReadsOnly (requiredLayer disk p) :=
  (readsOnly_readFile p).bind fun r => by cases r <;> exact readsOnly_pure _

theorem readsOnly_collect {readers : List (StateM FileSystem (Except SettingsError Layer))}
    (each : ∀ reader ∈ readers, ReadsOnly reader) : ReadsOnly (collect readers) := by
  induction readers with
  | nil => exact readsOnly_pure _
  | cons reader readers ih =>
    rw [List.forall_mem_cons] at each
    refine each.1.bind fun first => ?_
    cases first with
    | error e => exact readsOnly_pure _
    | ok layer => exact (ih each.2).bind fun later => by cases later <;> exact readsOnly_pure _

/-- Loading leaves all files as they are, whether it gives settings or an error. -/
theorem readsOnly_load (env : Environment) (custom : Option Path) :
    ReadsOnly (load disk env custom) := by
  have each : ∀ reader ∈ fileLayers disk env custom, ReadsOnly reader := by
    rw [fileLayers, List.forall_mem_append, List.forall_mem_append, List.forall_mem_map,
      List.forall_mem_map, List.forall_mem_map]
    exact ⟨⟨fun p _ => readsOnly_optionalLayer p, fun p _ => readsOnly_userLayer p⟩,
      fun p _ => readsOnly_requiredLayer p⟩
  exact (readsOnly_collect each).bind fun r => by cases r <;> exact readsOnly_pure _

/-! ## The other files -/

/-- What is found in the place of a file is a document of its format, if it is a text at all. -/
def Accepts (fs : FileSystem) (p : Path) : Prop :=
  ∀ text format, ((readFile disk p).run fs).1 = .ok (text, format) → (format.layer? text).isSome

theorem accepts_iff {p : Path} : Accepts fs p ↔
    (match ((readFile disk p).run fs).1 with
      | .error _ => true
      | .ok (text, format) => (format.layer? text).isSome) = true := by
  rw [Accepts]
  cases ((readFile disk p).run fs).1 with
  | error e => simp
  | ok found =>
    obtain ⟨text, format⟩ := found
    refine ⟨fun accepted => accepted text format rfl, fun document _ _ same => ?_⟩
    cases same
    exact document

instance (fs : FileSystem) (p : Path) : Decidable (Accepts fs p) :=
  decidable_of_iff _ accepts_iff.symm

/-- The path of the user's own file: below the directory that `XDG_CONFIG_HOME` names, if that
starts at the root, or else below `.config` in the directory that `HOME` names. -/
def userPath? (env : Environment) : Option Path :=
  match (env.lookup "XDG_CONFIG_HOME").filter fun dir => (Path.mk dir).isAbsolute with
  | some dir => some ((Path.mk dir).join "schema-tree/schema-tree.toml")
  | none =>
    ((env.lookup "HOME").filter fun dir => dir ≠ "").map fun dir =>
      (Path.mk dir).join ".config/schema-tree/schema-tree.toml"

theorem userFile?_eq (env : Environment) : userFile? env = userPath? env := by
  have below (dir : Path) : (dir.join "schema-tree").join "schema-tree.toml" =
      dir.join "schema-tree/schema-tree.toml" :=
    @Path.join_join ⟨"schema-tree"⟩ ⟨"schema-tree.toml"⟩ rfl rfl rfl dir
  have hidden (dir : Path) : (dir.join ".config").join "schema-tree/schema-tree.toml" =
      dir.join ".config/schema-tree/schema-tree.toml" :=
    @Path.join_join ⟨".config"⟩ ⟨"schema-tree/schema-tree.toml"⟩ rfl rfl rfl dir
  have home : (Environment.configHome?.home? env).map
        (fun dir => (dir.join "schema-tree").join "schema-tree.toml") =
      ((env.lookup "HOME").filter fun dir => dir ≠ "").map fun dir =>
        (Path.mk dir).join ".config/schema-tree/schema-tree.toml" := by
    rw [Environment.configHome?.home?]
    cases env.lookup "HOME" with
    | none => rfl
    | some dir => by_cases unnamed : dir = "" <;> simp [Option.filter, unnamed, below, hidden]
  rw [userFile?, Environment.configHome?, userPath?]
  cases env.lookup "XDG_CONFIG_HOME" with
  | none => exact home
  | some dir =>
    by_cases whole : (Path.mk dir).isAbsolute
    · simp [Option.filter, whole, below]
    · simpa [Option.filter, whole] using home

/-- The files that are looked for whatever is asked for: those in the working directory, and the
user's own if there is something at its path. -/
def defaultFiles (env : Environment) (fs : FileSystem) : List Path :=
  [⟨"schema-tree.toml"⟩, ⟨".schema-tree.toml"⟩, ⟨"config/schema-tree.toml"⟩] ++
    (userPath? env).toList.filter fun p => fs.isFile p || fs.isDirectory p

/-- What a text in a format gives, if one has been found. -/
def layerOfFound : Except SettingsError (String × FileFormat) → Layer
  | .error _ => []
  | .ok (text, format) => (format.layer? text).getD []

/-- What is given by what is found in the place of a file. -/
def fileLayer (fs : FileSystem) (p : Path) : Layer :=
  layerOfFound ((readFile disk p).run fs).1

/-- What the user's own file gives. -/
def userFileLayer (fs : FileSystem) (p : Path) : Layer :=
  if fs.isFile p || fs.isDirectory p then fileLayer fs p else []

/-- What the files give that are looked for in any case, the lowest first. -/
def defaultLayers (fs : FileSystem) (env : Environment) : List Layer :=
  List.map (fileLayer fs)
      [⟨"schema-tree.toml"⟩, ⟨".schema-tree.toml"⟩, ⟨"config/schema-tree.toml"⟩] ++
    (userPath? env).toList.map (userFileLayer fs)

theorem run_optionalLayer {p : Path} (accepts : Accepts fs p) :
    (optionalLayer disk p).run fs = (.ok (fileLayer fs p), fs) := by
  rw [optionalLayer, fileLayer]
  cases found : ((readFile disk p).run fs).1 with
  | error e => exact run_bind _ ((readsOnly_readFile p).run_eq found)
  | ok file =>
    obtain ⟨text, format⟩ := file
    obtain ⟨layer, document⟩ := Option.isSome_iff_exists.mp (accepts text format found)
    refine (run_bind _ ((readsOnly_readFile p).run_eq found)).trans ?_
    change (layerOf p text format, fs) = _
    rw [layerOf, layerOfFound, document]
    rfl

theorem run_userLayer {p : Path}
    (accepts : (fs.isFile p || fs.isDirectory p) = true → Accepts fs p) :
    (userLayer disk p).run fs = (.ok (userFileLayer fs p), fs) := by
  rw [userLayer, run_bind _ (run_isFile p), run_bind _ (run_isDirectory p), userFileLayer]
  split
  · next present => exact run_optionalLayer (accepts present)
  · rfl

/-- A file that must be there and gives a layer gives what is found in its place. -/
theorem eq_fileLayer {p : Path} {layer : Layer}
    (read : ((requiredLayer disk p).run fs).1 = .ok layer) : layer = fileLayer fs p := by
  rw [requiredLayer] at read
  rw [fileLayer]
  cases found : ((readFile disk p).run fs).1 with
  | error e =>
    rw [run_bind _ ((readsOnly_readFile p).run_eq found)] at read
    cases read
  | ok file =>
    obtain ⟨text, format⟩ := file
    rw [run_bind _ ((readsOnly_readFile p).run_eq found)] at read
    change layerOf p text format = .ok layer at read
    rw [layerOf] at read
    cases document : format.layer? text with
    | none => rw [document] at read; cases read
    | some given =>
      rw [document] at read
      cases read
      rw [layerOfFound, document]
      rfl

/-- The reader gives the layer and leaves the files as they are. -/
def Gives (fs : FileSystem) (reader : StateM FileSystem (Except SettingsError Layer))
    (layer : Layer) : Prop :=
  reader.run fs = (.ok layer, fs)

/-- Readers that all give a layer give the layers in order. -/
theorem run_collect {readers : List (StateM FileSystem (Except SettingsError Layer))}
    {layers : List Layer} (each : List.Forall₂ (Gives fs) readers layers) :
    (collect readers).run fs = (.ok layers, fs) := by
  induction each with
  | nil => rfl
  | cons first _ ih =>
    rw [collect, run_bind _ first]
    dsimp only
    rw [run_bind _ ih]
    rfl

/-- An error in the last file is the error of all. -/
theorem collect_error {readers : List (StateM FileSystem (Except SettingsError Layer))}
    {layers : List Layer} (each : List.Forall₂ (Gives fs) readers layers)
    {last : StateM FileSystem (Except SettingsError Layer)} {e : SettingsError}
    (read : last.run fs = (.error e, fs)) :
    (collect (readers ++ [last])).run fs = (.error e, fs) := by
  induction each with
  | nil =>
    rw [List.nil_append, collect, run_bind _ read]
    rfl
  | cons first _ ih =>
    rw [List.cons_append, collect, run_bind _ first]
    dsimp only
    rw [run_bind _ ih]
    rfl

/-- The files that are looked for in any case all give a layer if those that are found are
accepted. -/
theorem gives_defaultLayers {env : Environment}
    (accepts : ∀ p ∈ defaultFiles env fs, Accepts fs p) : List.Forall₂ (Gives fs)
      (localFiles.map (optionalLayer disk) ++ (userFile? env).toList.map (userLayer disk))
      (defaultLayers fs env) := by
  rw [userFile?_eq]
  refine List.rel_append ?_ ?_
  · rw [localFiles, List.forall₂_map_left_iff, List.forall₂_map_right_iff, List.forall₂_same]
    exact fun p inside => run_optionalLayer (accepts p (List.mem_append_left _ inside))
  · rw [List.forall₂_map_left_iff, List.forall₂_map_right_iff, List.forall₂_same]
    exact fun p inside => run_userLayer fun present =>
      accepts p (List.mem_append_right _ (List.mem_filter.mpr ⟨inside, present⟩))

/-- The file that is asked for lies over all others but the environment. -/
theorem run_load {env : Environment} (accepts : ∀ q ∈ defaultFiles env fs, Accepts fs q)
    {custom : Option Path}
    (read : ∀ p ∈ custom, ∃ layer, Gives fs (requiredLayer disk p) layer) :
    (load disk env custom).run fs = (ofLayer (Layer.merge
      (defaultLayers fs env ++ custom.toList.map (fileLayer fs) ++ [env.layer])), fs) := by
  have last : List.Forall₂ (Gives fs) (custom.toList.map (requiredLayer disk))
      (custom.toList.map (fileLayer fs)) := by
    rw [List.forall₂_map_left_iff, List.forall₂_map_right_iff, List.forall₂_same]
    intro p asked
    obtain ⟨layer, gives⟩ := read p (Option.mem_toList.mp asked)
    have given : ((requiredLayer disk p).run fs).1 = .ok layer := congrArg Prod.fst gives
    exact eq_fileLayer given ▸ gives
  have files : (collect (fileLayers disk env custom)).run fs =
      (.ok (defaultLayers fs env ++ custom.toList.map (fileLayer fs)), fs) :=
    run_collect (List.rel_append (gives_defaultLayers accepts) last)
  rw [load, run_bind _ files]
  rfl

theorem exists_load {env : Environment}
    (accepts : ∀ q ∈ defaultFiles env fs, Accepts fs q) {p : Path} {layer : Layer}
    (read : (requiredLayer disk p).run fs = (.ok layer, fs)) :
    ∃ layers, (load disk env (some p)).run fs =
      (ofLayer (Layer.merge (layers ++ [layer] ++ [env.layer])), fs) := by
  have same : layer = fileLayer fs p := eq_fileLayer (congrArg Prod.fst read)
  have asked : ∀ q ∈ some p, ∃ layer, Gives fs (requiredLayer disk q) layer := by
    rintro _ ⟨⟩
    exact ⟨layer, read⟩
  exact ⟨defaultLayers fs env, same ▸ run_load accepts asked⟩

/-- If there is nothing wrong but the file that is asked for, that is the error. -/
theorem load_error {env : Environment}
    (accepts : ∀ q ∈ defaultFiles env fs, Accepts fs q) {p : Path} {e : SettingsError}
    (read : (requiredLayer disk p).run fs = (.error e, fs)) :
    (load disk env (some p)).run fs = (.error e, fs) := by
  have files : (collect (fileLayers disk env (some p))).run fs = (.error e, fs) :=
    collect_error (gives_defaultLayers accepts) read
  rw [load, run_bind _ files]
  rfl

/-! ## Files that are missing -/

theorem run_firstFile_none {candidates : List (Path × FileFormat)}
    (absent : ∀ candidate ∈ candidates, fs.isFile candidate.1 = false) :
    (firstFile disk candidates).run fs = (none, fs) := by
  induction candidates with
  | nil => rfl
  | cons candidate candidates ih =>
    rw [List.forall_mem_cons] at absent
    rw [firstFile, run_bind _ (run_isFile candidate.1), absent.1]
    exact ih absent.2

theorem flat_extensions (format : FileFormat) :
    ∀ extension ∈ format.extensions, '/' ∉ extension.toList := by
  cases format <;> decide

/-- Nothing is found in the place of a file if there is none at the path from the root and none with
an extension put after it. -/
theorem run_findFile_missing {p : Path} {name : List Char}
    (last : (Path.pieces p.chars).getLast? = some name) (named : Path.isIdle name = false)
    (notParent : name ≠ ['.', '.']) (alone : fs.isFile (fs.startPath.join p.text) = false)
    (extended : ∀ extension : String, '/' ∉ extension.toList →
      fs.isFile ⟨(fs.startPath.join p.text).text ++ "." ++ extension⟩ = false) :
    (findFile disk p).run fs = (.error (.missing p), fs) := by
  have start : disk.start.run fs = (fs.startPath, fs) := rfl
  have others : ∀ candidate ∈ FileFormat.all.flatMap fun format =>
      format.extensions.filterMap fun extension =>
        ((fs.startPath.join p.text).withExtension? extension).map fun path => (path, format),
      fs.isFile candidate.1 = false := by
    intro candidate member
    obtain ⟨format, -, member⟩ := List.mem_flatMap.mp member
    obtain ⟨extension, own, same⟩ := List.mem_filterMap.mp member
    rw [Path.withExtension?_eq ((Path.getLast?_pieces_join _ _).trans last) named notParent] at same
    cases same
    exact extended extension (flat_extensions format _ own)
  rw [findFile, run_bind _ start]
  dsimp only
  rw [run_bind _ (run_isFile _), alone, if_neg Bool.false_ne_true,
    run_bind _ (run_firstFile_none others)]
  rfl

/-- A file is accepted if there is none whose name starts as its own does. -/
theorem accepts_of_absent {p : Path} (name : List Char)
    (last : (Path.pieces p.chars).getLast? = some name) (named : Path.isIdle name = false)
    (notParent : name ≠ ['.', '.'])
    (absent : ∀ entry ∈ fs.nodes, ∀ own ∈ entry.1.head?, ¬name <+: own.toList) :
    Accepts fs p := by
  have joined := (Path.getLast?_pieces_join fs.startPath p.text).trans last
  have filled : name ≠ [] := by rintro rfl; cases named
  have lacks {q : Path} {suffix : List Char}
      (ends : (Path.pieces q.chars).getLast? = some (name ++ suffix)) : fs.isFile q = false := by
    refine Bool.eq_false_iff.mpr fun found => ?_
    obtain ⟨own, here, node, leads, member⟩ := FileSystem.exists_mem_of_isFile found
    rw [Path.getLast?_names ends (by simp [filled])] at leads
    cases leads
    exact absent _ member _ rfl (by simp)
  have alone : fs.isFile (fs.startPath.join p.text) = false :=
    lacks (joined.trans (congrArg some (List.append_nil name).symm))
  have extended (extension : String) (flat : '/' ∉ extension.toList) :
      fs.isFile ⟨(fs.startPath.join p.text).text ++ "." ++ extension⟩ = false := by
    refine @lacks _ ('.' :: extension.toList) ?_
    rw [Path.chars_append, String.toList_append, List.append_assoc]
    exact (Path.getLast?_pieces_append (by simpa using flat) _).trans (congrArg _ joined)
  have missing := run_findFile_missing last named notParent alone extended
  intro text format found
  rw [readFile, run_bind _ missing] at found
  cases found

end Taxonomy.Settings
