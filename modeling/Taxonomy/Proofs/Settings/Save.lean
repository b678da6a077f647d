import Taxonomy.Proofs.Files.System
import Taxonomy.Proofs.Settings.Layer
import Taxonomy.Proofs.Settings.Load

/-!
# Saved settings are loaded as they were

A file that has been saved is found again through the path from the root and gives the layer of the
settings, which lies over those of all other files (`load_save`). What the loader needs of the other
files is that it accepts them as documents, and of the path that it is not too long when it is taken
from the root. Without either it may refuse what could be saved (`load_save_fails`).
-/

namespace Taxonomy.Settings

open FileSystem (disk run_bind run_read run_isFile)

/-- A file that holds a TOML document is accepted, unless the document has a key that is kept for
dates. -/
theorem accepts_of_toml {fs : FileSystem} {p : Path} (document : ∀ text format,
    ((readFile disk p).run fs).1 = .ok (text, format) → format = .toml ∧
      ∃ members, Toml.ofText? text = some members ∧
        Toml.membersLack SettingValue.dateKey members = true) : Accepts fs p := by
  intro text format found
  obtain ⟨rfl, members, read, undated⟩ := document text format found
  exact SettingValue.isSome_layer?_toml read undated

/-! ## The saved file -/

theorem fromUTF8?_toUTF8 (text : String) : String.fromUTF8? text.toUTF8 = some text := by
  rw [String.fromUTF8?]
  exact dif_pos text.isValidUTF8

theorem run_save (s : Settings) (p : Path) (fs : FileSystem) :
    (s.save disk p).run fs = FileSystem.attempt (·.write p s.toToml.toUTF8) fs := rfl

theorem write_of_save {fs fs' : FileSystem} {s : Settings} {p : Path}
    (saved : (s.save disk p).run fs = (.ok (), fs')) :
    fs.write p s.toToml.toUTF8 = .ok fs' := by
  rw [run_save, FileSystem.attempt] at saved
  cases written : fs.write p s.toToml.toUTF8 with
  | error e => rw [written] at saved; cases saved
  | ok after =>
    rw [written] at saved
    cases saved
    rfl

/-- A file that has been saved is found in its format through the path from the root. -/
theorem run_findFile {fs fs' : FileSystem} (rooted : fs.Rooted) {content : ByteArray} {p : Path}
    (toml : p.extension? = some "toml")
    (short : (fs.startPath.join p.text).text.utf8ByteSize ≤ FileSystem.pathLimit)
    (written : fs.write p content = .ok fs') :
    (findFile disk p).run fs' = (.ok (fs.startPath.join p.text, .toml), fs') := by
  have content := FileSystem.read_join_of_write rooted short written
  have start : disk.start.run fs' = (fs.startPath, fs') := by
    obtain ⟨_, _, -, -, -, -, rfl⟩ := FileSystem.exists_named_of_write written
    rfl
  have isFile : fs'.isFile (fs.startPath.join p.text) = true := by
    rw [FileSystem.isFile, content]
  have format : FileFormat.ofPath? (fs.startPath.join p.text) = some .toml := by
    rw [FileFormat.ofPath?, Path.extension?_join toml]
    decide
  rw [findFile, run_bind _ start]
  dsimp only
  rw [run_bind _ (run_isFile _), isFile, if_pos rfl, format]
  rfl

theorem run_requiredLayer {fs fs' : FileSystem} (rooted : fs.Rooted) (s : Settings) {p : Path}
    (toml : p.extension? = some "toml")
    (short : (fs.startPath.join p.text).text.utf8ByteSize ≤ FileSystem.pathLimit)
    (saved : (s.save disk p).run fs = (.ok (), fs')) :
    (requiredLayer disk p).run fs' = (.ok (Toml.layerOf s.toSections), fs') := by
  have written := write_of_save saved
  have found := run_findFile rooted toml short written
  have content := FileSystem.read_join_of_write rooted short written
  have text : (disk.readText (fs.startPath.join p.text)).run fs' = (.ok s.toToml, fs') := by
    rw [Disk.readText, run_bind _ (run_read _), content]
    dsimp only
    rw [fromUTF8?_toUTF8]
    rfl
  have file : (readFile disk p).run fs' = (.ok (s.toToml, .toml), fs') := by
    rw [readFile, run_bind _ found]
    dsimp only
    rw [run_bind _ text]
    rfl
  rw [requiredLayer, run_bind _ file]
  change (layerOf p s.toToml .toml, fs') = _
  rw [layerOf, layer?_toToml]

/-- Settings that have been saved are loaded as they were. -/
theorem load_save {fs fs' : FileSystem} (rooted : fs.Rooted) (s : Settings) {p : Path}
    (toml : p.extension? = some "toml")
    (short : (fs.startPath.join p.text).text.utf8ByteSize ≤ FileSystem.pathLimit)
    (saved : (s.save disk p).run fs = (.ok (), fs')) {env : Environment}
    (unset : ∀ entry ∈ env, Environment.keyOf? entry.1 = none)
    (accepts : ∀ q ∈ defaultFiles env fs', Accepts fs' q) :
    (load disk env (some p)).run fs' = (.ok s, fs') := by
  obtain ⟨layers, loaded⟩ := exists_load accepts (run_requiredLayer rooted s toml short saved)
  have noVariables : env.layer = [] := by
    refine List.filterMap_eq_nil_iff.mpr fun entry member => ?_
    obtain ⟨name, text⟩ := entry
    exact Option.map_eq_none_iff.mpr (unset _ member)
  rw [loaded, noVariables, Layer.merge, List.foldl_append, List.foldl_append]
  exact congrArg (·, fs') (ofLayer_onto s _)

/-- A working directory with nothing in it. -/
def workDir : FileSystem where
  nodes := [(["work", "tmp"], .directory), (["tmp"], .directory)]
  start := ["work", "tmp"]

/-- The working directory with one file. -/
def withFile (name content : String) : FileSystem :=
  workDir.put (name :: workDir.start) (.file content.toUTF8)

/-- Settings whose texts are written in four different forms. -/
def quoted : Settings where
  inputPath := ⟨"it's \"C:\\schema\""⟩
  outputDir := ⟨"C:\\out"⟩
  treeFile := "a\nb"
  searchFile := "\r\x07"
  layout := .compact
  strict := true

/-- A document that gives two settings, one of them wrongly. -/
def misfit : String :=
  "[output]\ndir = \"x\"\nformat = 5\n"

/-- A working directory with that document in one of the files that are looked for. -/
def occupied : FileSystem :=
  withFile ".schema-tree.toml" misfit

theorem rooted_occupied : occupied.Rooted where
  noNul := by decide
  leads := rfl

theorem load_save_quoted :
    let saved := occupied.put ("c.toml" :: occupied.start) (.file quoted.toToml.toUTF8)
    (quoted.save disk ⟨"./c.toml"⟩).run occupied = (.ok (), saved) ∧
      (load disk [("HOME", "/tmp")] (some ⟨"./c.toml"⟩)).run saved = (.ok quoted, saved) := by
  intro saved
  have unset : ∀ entry ∈ [("HOME", "/tmp")], Environment.keyOf? entry.1 = none := by
    have lower : "HOME".toLower = "home" := String.toList_inj.mp String.toList_map
    rw [List.forall_mem_singleton, Environment.keyOf?, lower]
    rfl
  have accepts : ∀ q ∈ localFiles, Accepts saved q := by
    rw [localFiles, List.forall_mem_cons, List.forall_mem_cons, List.forall_mem_singleton]
    refine ⟨?_, ?_, ?_⟩
    · exact accepts_of_absent "schema-tree.toml".toList rfl rfl (by decide) (by decide)
    · refine accepts_of_toml fun text format found => ?_
      have read : ((readFile disk ⟨".schema-tree.toml"⟩).run saved).1.toOption =
          some (misfit, .toml) := by decide +kernel
      have undated : ((Toml.ofText? misfit).filter
          (Toml.membersLack SettingValue.dateKey)).isSome := by decide +kernel
      obtain ⟨members, document⟩ := Option.isSome_iff_exists.mp undated
      rw [found] at read
      cases read
      exact ⟨rfl, members, Option.filter_eq_some_iff.mp document⟩
    · exact accepts_of_absent "schema-tree.toml".toList rfl rfl (by decide) (by decide)
  exact ⟨rfl, load_save rooted_occupied quoted rfl (by decide) rfl unset accepts⟩

/-! ## Saved settings that are refused -/

/-- A path that is longer than it need be. -/
def roundabout : Nat → Path
  | 0 => ⟨"c.toml"⟩
  | n + 1 => (Path.mk ".").join (roundabout n).text

theorem isAbsolute_roundabout (n : Nat) : (roundabout n).isAbsolute = false := by
  induction n with
  | zero => rfl
  | succ n ih =>
    rw [roundabout, Path.join_of_relative ih rfl rfl, Path.isAbsolute,
      Path.chars_append, String.toList_append]
    rfl

theorem roundabout_succ (n : Nat) : roundabout (n + 1) = ⟨"." ++ "/" ++ (roundabout n).text⟩ :=
  Path.join_of_relative (isAbsolute_roundabout n) rfl rfl

theorem isEmpty_roundabout (n : Nat) : (roundabout n).isEmpty = false := by
  induction n with
  | zero => rfl
  | succ n ih => exact Path.isEmpty_join ih _

theorem endsInSlash_roundabout (n : Nat) : (roundabout n).endsInSlash = false := by
  induction n with
  | zero => rfl
  | succ n ih => exact (Path.endsInSlash_join (isEmpty_roundabout n) _).trans ih

theorem extension?_roundabout (n : Nat) : (roundabout n).extension? = some "toml" := by
  induction n with
  | zero => rfl
  | succ n ih => exact Path.extension?_join ih _

theorem getLast?_pieces_roundabout (n : Nat) :
    (Path.pieces (roundabout n).chars).getLast? = some "c.toml".toList := by
  induction n with
  | zero => rfl
  | succ n ih => exact (Path.getLast?_pieces_join _ _).trans ih

theorem utf8ByteSize_roundabout (n : Nat) : (roundabout n).text.utf8ByteSize = 2 * n + 6 := by
  induction n with
  | zero => rfl
  | succ n ih =>
    have step : ("." ++ "/" : String).utf8ByteSize = 2 := rfl
    rw [roundabout_succ, String.utf8ByteSize_append, ih, step]
    omega

theorem noNul_roundabout (n : Nat) : '\x00' ∉ (roundabout n).chars := by
  induction n with
  | zero => decide
  | succ n ih =>
    rw [roundabout_succ, Path.chars_append, List.mem_append, not_or]
    exact ⟨by decide, ih⟩

theorem names_roundabout (n : Nat) : (roundabout n).names = List.replicate n "." ++ ["c.toml"] := by
  induction n with
  | zero => rfl
  | succ n ih =>
    have front : (Path.mk ".").names = ["."] := rfl
    rw [roundabout, Path.names_join (isAbsolute_roundabout n) rfl, front, ih]
    rfl

theorem walk_dots (fs : FileSystem) (here : Location) (n : Nat) :
    fs.walk here (List.replicate n ".") = .ok here := by
  induction n with
  | zero => rfl
  | succ n ih =>
    rw [List.replicate_succ, FileSystem.walk, FileSystem.enter, if_pos rfl]
    exact ih

theorem locate_roundabout {n : Nat} (short : 2 * n + 6 ≤ FileSystem.pathLimit) (fs : FileSystem) :
    fs.locate (roundabout n) = .ok (.named "c.toml" fs.start) := by
  refine FileSystem.locate_eq_named.mpr ⟨FileSystem.fault?_eq_none.mpr
    ⟨noNul_roundabout n, (utf8ByteSize_roundabout n).trans_le short, isEmpty_roundabout n⟩,
      ?_⟩
  rw [names_roundabout, isAbsolute_roundabout, List.getLast?_concat, List.dropLast_concat]
  exact ⟨rfl, walk_dots fs _ n, by decide, by decide⟩

theorem save_roundabout {n : Nat} (short : 2 * n + 6 ≤ FileSystem.pathLimit) (s : Settings)
    {fs : FileSystem} (free : fs.node? ("c.toml" :: fs.start) ≠ some .directory) :
    (s.save disk (roundabout n)).run fs =
      (.ok (), fs.put ("c.toml" :: fs.start) (.file s.toToml.toUTF8)) := by
  rw [run_save, FileSystem.attempt, FileSystem.write_of_locate (locate_roundabout short fs)
    (endsInSlash_roundabout n) (by decide) free]

theorem requiredLayer_roundabout {n : Nat} {fs : FileSystem}
    (long : FileSystem.pathLimit < (fs.startPath.join (roundabout n).text).text.utf8ByteSize) :
    (requiredLayer disk (roundabout n)).run fs = (.error (.missing (roundabout n)), fs) := by
  have absent := FileSystem.isFile_of_long fs long
  -- An extension makes the path even longer.
  have extended (extension : String) :
      fs.isFile ⟨(fs.startPath.join (roundabout n).text).text ++ "." ++ extension⟩ = false := by
    refine FileSystem.isFile_of_long fs ?_
    rw [String.utf8ByteSize_append, String.utf8ByteSize_append]
    omega
  have missing := run_findFile_missing (getLast?_pieces_roundabout n) rfl (by decide) absent
    fun extension _ => extended extension
  have noText : (readFile disk (roundabout n)).run fs = (.error (.missing (roundabout n)), fs) := by
    rw [readFile, run_bind _ missing]
    rfl
  rw [requiredLayer, run_bind _ noText]
  rfl

/-- A file is a text that keeps to the rules of TOML. -/
def holdsToml (fs : FileSystem) (p : Path) : Bool :=
  match ((disk.readText p).run fs).1 with
  | .ok text => (Toml.ofText? text).isSome
  | .error _ => false

/-- A file system with the default settings in a file of the working directory. -/
def withDefaults (fs : FileSystem) : FileSystem :=
  fs.put ("c.toml" :: fs.start) (.file ({} : Settings).toToml.toUTF8)

theorem accepts_alone :
    ∀ q ∈ defaultFiles [] (withDefaults workDir), Accepts (withDefaults workDir) q := by
  change ∀ q ∈ localFiles, _
  rw [localFiles, List.forall_mem_cons, List.forall_mem_cons, List.forall_mem_singleton]
  refine ⟨?_, ?_, ?_⟩
  · exact accepts_of_absent "schema-tree.toml".toList rfl rfl (by decide) (by decide)
  · exact accepts_of_absent ".schema-tree.toml".toList rfl rfl (by decide) (by decide)
  · exact accepts_of_absent "schema-tree.toml".toList rfl rfl (by decide) (by decide)

/-- Settings that could be saved are refused if the path gets too long from the root, if another
file misuses a key that is kept for dates, or if a file with one more extension takes the place of
one that is missing and is no document. -/
theorem load_save_fails :
    (∃ fs, (({} : Settings).save disk (roundabout 2041)).run workDir = (.ok (), fs) ∧
      (roundabout 2041).extension? = some "toml" ∧
      (∀ p ∈ localFiles, fs.isFile p → holdsToml fs p) ∧
      ((load disk [] (some (roundabout 2041))).run fs).1 = .error (.missing (roundabout 2041))) ∧
    (∃ fs, (({} : Settings).save disk ⟨"c.toml"⟩).run
        (withFile "schema-tree.toml" "\"$__toml_private_datetime\" = \"x\"\n") = (.ok (), fs) ∧
      (∀ p ∈ localFiles, fs.isFile p → holdsToml fs p) ∧
      ((load disk [] (some ⟨"c.toml"⟩)).run fs).1 =
        .error (.malformed ⟨"schema-tree.toml"⟩)) ∧
    ∃ fs, (({} : Settings).save disk ⟨"c.toml"⟩).run (withFile "schema-tree.toml.json" "x") =
        (.ok (), fs) ∧
      (∀ p ∈ localFiles, fs.isFile p → holdsToml fs p) ∧
      ((load disk [] (some ⟨"c.toml"⟩)).run fs).1 =
        .error (.malformed ⟨"schema-tree.toml"⟩) := by
  refine ⟨⟨withDefaults workDir, ?_, extension?_roundabout _, by decide, ?_⟩,
    ⟨withDefaults (withFile "schema-tree.toml" "\"$__toml_private_datetime\" = \"x\"\n"), rfl,
      ?_, ?_⟩,
    ⟨withDefaults (withFile "schema-tree.toml.json" "x"), rfl, by decide, rfl⟩⟩
  · have free : workDir.node? ("c.toml" :: workDir.start) = none := rfl
    exact save_roundabout (by decide) _ (by simp [free])
  · have long : FileSystem.pathLimit <
        ((withDefaults workDir).startPath.join (roundabout 2041).text).text.utf8ByteSize := by
      rw [Path.join_of_relative (isAbsolute_roundabout _) rfl rfl, String.utf8ByteSize_append,
        utf8ByteSize_roundabout]
      decide
    rw [load_error accepts_alone (requiredLayer_roundabout long)]
  · decide +kernel
  · decide +kernel

end Taxonomy.Settings
