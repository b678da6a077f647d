import Taxonomy.Proofs.Files.Directories
import Taxonomy.Run

/-!
# What a run leaves behind

A run ends in one of five ways, and `Ran` says for each what it has done to the files by then
(`ran_run`). If it fails before it writes, nothing has changed, and if it fails while it writes, at
most the tree has been written (`files_of_failed_run`). A run that succeeds has written both files,
but the index takes the place of the tree if both paths lead to one file (`files_of_finished_run`).
-/

namespace Taxonomy

open FileSystem

/-- A path leads to a regular file with the text. -/
def FileSystem.Holds (fs : FileSystem) (p : Path) (text : String) : Prop :=
  fs.read p = .ok text.toUTF8

theorem FileSystem.Holds.unique {fs : FileSystem} {p : Path} {text other : String}
    (holds : fs.Holds p text) (holds' : fs.Holds p other) : text = other :=
  String.toByteArray_inj.mp (Except.ok.inj (holds.symm.trans holds'))

instance (fs : FileSystem) (p : Path) (text : String) : Decidable (fs.Holds p text) :=
  match outcome : fs.read p with
  | .ok content =>
    decidable_of_iff (content.data = text.toUTF8.data)
      (by rw [Holds, outcome, Except.ok.injEq, ByteArray.ext_iff])
  | .error _ => .isFalse (by simp [Holds, outcome])

/-- The tree of the schema has been written, and no other regular file has changed. -/
structure TreeWritten (s : Settings) (fs : FileSystem) (artifacts : Artifacts) (fs' : FileSystem) :
    Prop where
  generated : ∃ text, fs.Holds s.inputPath text ∧ generate text s.options = .ok artifacts
  holds : fs'.Holds s.treePath (artifacts.treeText s.layout)
  others : ∃ tree, fs'.place? s.treePath = some tree ∧
    ∀ l, l ≠ tree → fs'.content? l = fs.content? l

/-- How a run from the files `fs` can end, with the files that it leaves. -/
inductive Ran (s : Settings) (fs : FileSystem) : Except RunError Written → FileSystem → Prop
  | unread (e : FileError) : Ran s fs (.error (.read s.inputPath e)) fs
  | refused (e : GenerateError) : Ran s fs (.error (.generate e)) fs
  | noTree {fs' : FileSystem} (e : FileError) :
      AddsDirectories fs fs' → Ran s fs (.error (.write s.treePath e)) fs'
  | noIndex {fs' : FileSystem} {artifacts : Artifacts} (e : FileError) :
      TreeWritten s fs artifacts fs' → Ran s fs (.error (.write s.searchPath e)) fs'
  | finished {fs' fs'' : FileSystem} {artifacts : Artifacts} :
      TreeWritten s fs artifacts fs' →
      fs'.write s.searchPath (artifacts.searchText s.layout).toUTF8 = .ok fs'' →
      Ran s fs (.ok ⟨artifacts, s.treePath, s.searchPath⟩) fs''

/-! ## The steps of a run -/

variable {fs fs' fs'' : FileSystem} {p : Path}

theorem toUTF8_of_fromUTF8? {content : ByteArray} {text : String}
    (read : String.fromUTF8? content = some text) : content = text.toUTF8 := by
  rw [String.fromUTF8?] at read
  split_ifs at read
  cases read
  rfl

/-- Reading a schema leaves all files as they are. -/
theorem run_readSchema (fs : FileSystem) (p : Path) :
    (∃ e, (readSchema disk p).run fs = (.error (.read p e), fs)) ∨
      ∃ text, fs.Holds p text ∧ (readSchema disk p).run fs = (.ok text, fs) := by
  have reads := readsOnly_readText p
  cases outcome : ((disk.readText p).run fs).1 with
  | error e =>
    refine .inl ⟨e, ?_⟩
    rw [readSchema, run_bind _ (reads.run_eq outcome)]
    rfl
  | ok text =>
    refine .inr ⟨text, ?_, ?_⟩
    · rw [Disk.readText, run_bind _ (run_read p)] at outcome
      cases found : fs.read p with
      | error e => rw [found] at outcome; cases outcome
      | ok content =>
        rw [found] at outcome
        dsimp only at outcome
        split at outcome
        · next read =>
          cases outcome
          rw [Holds, found, toUTF8_of_fromUTF8? read]
        · cases outcome
    · rw [readSchema, run_bind _ (reads.run_eq outcome)]
      rfl

/-- Writing an output makes some of the directories for it, and then it writes the file or fails. -/
theorem run_writeOutput {text : String} {result : Except RunError Unit}
    (ran : (writeOutput disk p text).run fs = (result, fs'')) :
    ∃ fs', AddsDirectories fs fs' ∧
      (result = .ok () ∧ fs'.write p text.toUTF8 = .ok fs'' ∨
        (∃ e, result = .error (.write p e)) ∧ fs'' = fs') := by
  cases wrote : (disk.writeWithDirectories p text).run fs with
  | mk outcome after =>
    obtain ⟨fs', adds, ended⟩ := run_writeWithDirectories wrote
    rw [writeOutput, run_bind _ wrote] at ran
    refine ⟨fs', adds, ?_⟩
    rcases ended with ⟨rfl, written⟩ | ⟨⟨e, rfl⟩, rfl⟩
    · cases ran
      exact .inl ⟨rfl, written⟩
    · cases ran
      exact .inr ⟨⟨e, rfl⟩, rfl⟩

theorem treeWritten_of_write {s : Settings} {artifacts : Artifacts} {text : String}
    (schema : fs.Holds s.inputPath text) (generated : generate text s.options = .ok artifacts)
    {made written : FileSystem} (adds : AddsDirectories fs made)
    (wrote : made.write s.treePath (artifacts.treeText s.layout).toUTF8 = .ok written)
    (addsLater : AddsDirectories written fs') : TreeWritten s fs artifacts fs' := by
  obtain ⟨tree, leads, changed⟩ := exists_place?_of_write wrote
  have keeps := keepsDirectories_of_write wrote
  refine ⟨⟨text, schema, generated⟩, addsLater.read (read_of_write wrote), tree,
    addsLater.keepsDirectories.place? (keeps.place? leads), fun l other => ?_⟩
  rw [addsLater.content?_eq, changed, if_neg other, adds.content?_eq]

/-- A run ends in one of the ways that there are. -/
theorem ran_run (s : Settings) (fs : FileSystem) :
    Ran s fs ((run disk s).run fs).1.result ((run disk s).run fs).2 := by
  rcases run_readSchema fs s.inputPath with ⟨e, unread⟩ | ⟨text, schema, read⟩
  · rw [run, run_bind _ unread]
    exact .unread e
  · rw [run, run_bind _ read]
    dsimp only
    cases generated : generate text s.options with
    | error e => exact .refused e
    | ok artifacts =>
      dsimp only
      cases tree : (writeOutput disk s.treePath (artifacts.treeText s.layout)).run fs with
      | mk treeResult afterTree =>
        obtain ⟨made, adds, ⟨rfl, wrote⟩ | ⟨⟨e, rfl⟩, rfl⟩⟩ := run_writeOutput tree
        · cases index :
              (writeOutput disk s.searchPath (artifacts.searchText s.layout)).run afterTree with
          | mk indexResult afterIndex =>
            have both : (artifacts.write disk s.treePath s.searchPath s.layout).run fs =
                (indexResult, afterIndex) := by
              rw [Artifacts.write, run_bind _ tree]
              exact index
            rw [run_bind _ both]
            obtain ⟨made', adds', ended⟩ := run_writeOutput index
            have written := treeWritten_of_write schema generated adds wrote adds'
            rcases ended with ⟨rfl, wroteIndex⟩ | ⟨⟨e, rfl⟩, rfl⟩
            · exact .finished written wroteIndex
            · exact .noIndex e written
        · have none : (artifacts.write disk s.treePath s.searchPath s.layout).run fs =
              (.error (.write s.treePath e), afterTree) := by
            rw [Artifacts.write, run_bind _ tree]
            rfl
          rw [run_bind _ none]
          exact .noTree e adds

/-! ## The files after a run -/

namespace Ran

variable {s : Settings}

theorem eq_of_unread {e : FileError} (ended : Ran s fs (.error (.read p e)) fs') : fs' = fs := by
  cases ended
  rfl

theorem eq_of_refused {e : GenerateError} (ended : Ran s fs (.error (.generate e)) fs') :
    fs' = fs := by
  cases ended
  rfl

theorem of_unwritten {e : FileError} (ended : Ran s fs (.error (.write p e)) fs') :
    p = s.treePath ∧ AddsDirectories fs fs' ∨
      p = s.searchPath ∧ ∃ artifacts, TreeWritten s fs artifacts fs' := by
  cases ended with
  | noTree _ adds => exact .inl ⟨rfl, adds⟩
  | noIndex _ written => exact .inr ⟨rfl, _, written⟩

theorem of_finished {w : Written} (ended : Ran s fs (.ok w) fs'') :
    w.tree = s.treePath ∧ w.search = s.searchPath ∧
      ∃ fs', TreeWritten s fs w.artifacts fs' ∧
      fs'.write s.searchPath (w.artifacts.searchText s.layout).toUTF8 = .ok fs'' := by
  cases ended with
  | finished written wrote => exact ⟨rfl, rfl, _, written, wrote⟩

end Ran

/-- A run that fails before it writes anything changes nothing. One that cannot write the tree has
made directories at most, and one that cannot write the index has also written the forest that the
schema that was read gives, and that is the only regular file that has changed. -/
theorem files_of_failed_run (s : Settings) (fs : FileSystem) :
    let ran := (run disk s).run fs
    (∀ p e, ran.1.result = .error (.read p e) → ran.2 = fs) ∧
    (∀ e, ran.1.result = .error (.generate e) → ran.2 = fs) ∧
    (∀ p e, ran.1.result = .error (.write p e) → p = s.treePath ∨ p = s.searchPath) ∧
    (s.treePath ≠ s.searchPath →
      (∀ e, ran.1.result = .error (.write s.treePath e) →
        ∀ l, ran.2.content? l = fs.content? l) ∧
      ∀ e, ran.1.result = .error (.write s.searchPath e) →
        ∃ text artifacts tree, fs.Holds s.inputPath text ∧
          generate text s.options = .ok artifacts ∧ ran.2.place? s.treePath = some tree ∧
          ran.2.Holds s.treePath (Tree.forestText s.layout artifacts.forest) ∧
          ∀ l, l ≠ tree → ran.2.content? l = fs.content? l) := by
  intro ran
  have ended : Ran s fs ran.1.result ran.2 := ran_run s fs
  refine ⟨?_, ?_, ?_, fun differ => ⟨?_, ?_⟩⟩
  · intro p e failed
    exact (failed ▸ ended).eq_of_unread
  · intro e failed
    exact (failed ▸ ended).eq_of_refused
  · intro p e failed
    exact (failed ▸ ended).of_unwritten.imp And.left And.left
  · intro e failed
    obtain ⟨-, adds⟩ | ⟨same, -⟩ := (failed ▸ ended).of_unwritten
    · exact adds.content?_eq
    · exact absurd same differ
  · intro e failed
    obtain ⟨same, -⟩ | ⟨-, artifacts, written⟩ := (failed ▸ ended).of_unwritten
    · exact absurd same.symm differ
    · obtain ⟨text, schema, generated⟩ := written.generated
      obtain ⟨tree, leads, others⟩ := written.others
      exact ⟨text, artifacts, tree, schema, generated, leads, written.holds, others⟩

/-- A file system with a schema and a directory in the place of the index. -/
def blocked : FileSystem where
  nodes := [(["schema.txt"], .file "class A .".toUTF8), (["search.json"], .directory)]

/-- The tree of the schema is written before the index fails. -/
theorem files_of_blocked_run :
    let s : Settings := {}
    let ran := (run disk s).run blocked
    let text :=
      "[\n  \x7b\n    \"id\": \"A\",\n    \"label\": \"A\",\n    \"children\": []\n  \x7d\n]"
    s.treePath ≠ s.searchPath ∧ ran.1.result = .error (.write s.searchPath .isDirectory) ∧
      ran.2.place? s.treePath = some ["tree.json"] ∧ ran.2.Holds s.treePath text ∧
      ∀ l, l ≠ ["tree.json"] → ran.2.content? l = blocked.content? l := by
  intro s ran text
  have differ : s.treePath ≠ s.searchPath := by decide
  have failed : (match ran.1.result with | .error e => some e | .ok _ => none) =
      some (.write s.searchPath .isDirectory) := by decide +kernel
  have schema : blocked.Holds s.inputPath "class A ." := by decide +kernel
  have forest : (generate "class A ." s.options).toOption.map
      (fun artifacts => Tree.forestText s.layout artifacts.forest) = some text := by decide +kernel
  have place : ran.2.place? s.treePath = some ["tree.json"] := by decide +kernel
  split at failed
  · next e result =>
    cases failed
    obtain ⟨-, -, -, partly⟩ := files_of_failed_run s blocked
    obtain ⟨read, artifacts, tree, read', generated, leads, holds, others⟩ :=
      (partly differ).2 _ result
    obtain rfl := read'.unique schema
    obtain rfl := Option.some.inj (leads.symm.trans place)
    rw [generated] at forest
    exact ⟨differ, result, place, Option.some.inj forest ▸ holds, others⟩
  · cases failed

/-- A run that succeeds has written the index, and the tree if it is in a file of its own. -/
theorem files_of_finished_run (s : Settings) (fs : FileSystem) :
    let ran := (run disk s).run fs
    ∀ w, ran.1.result = .ok w → w.tree = s.treePath ∧ w.search = s.searchPath ∧
      ∃ tree search, ran.2.place? w.tree = some tree ∧ ran.2.place? w.search = some search ∧
        (∀ l, l ≠ tree → l ≠ search → ran.2.content? l = fs.content? l) ∧
        ran.2.Holds w.search (w.artifacts.searchText s.layout) ∧
        (ran.2.Holds w.tree (w.artifacts.treeText s.layout) ↔
          tree ≠ search ∨ w.artifacts.treeText s.layout = w.artifacts.searchText s.layout) := by
  intro ran w finished
  have ended : Ran s fs ran.1.result ran.2 := ran_run s fs
  obtain ⟨atTree, atSearch, fs', written, wrote⟩ := (finished ▸ ended).of_finished
  obtain ⟨tree, leads, others⟩ := written.others
  obtain ⟨search, leadsToIndex, changed⟩ := exists_place?_of_write wrote
  have keeps := keepsDirectories_of_write wrote
  rw [atTree, atSearch]
  refine ⟨rfl, rfl, tree, search, keeps.place? leads, keeps.place? leadsToIndex, ?_,
    read_of_write wrote, ?_⟩
  · intro l notTree notIndex
    rw [changed, if_neg notIndex, others l notTree]
  · obtain ⟨place, leads', holds⟩ := exists_place?_of_read written.holds
    obtain rfl := Option.some.inj (leads'.symm.trans leads)
    by_cases same : place = search
    · -- the index has taken the place of the tree
      have now := keeps.read written.holds leads ((changed place).trans (if_pos same))
      rw [Holds, now, Except.ok.injEq, String.toUTF8, String.toUTF8, String.toByteArray_inj]
      simp [same, eq_comm]
    · have still := (changed place).trans ((if_neg same).trans holds)
      simp [same, Holds, keeps.read written.holds leads still]

/-- A file system with a schema. -/
def ready : FileSystem where
  nodes := [(["schema.txt"], .file "class A .".toUTF8)]

theorem exists_of_isOk {report : RunReport} (finished : report.result.isOk = true) :
    ∃ w, report.result = .ok w := by
  cases result : report.result with
  | error e => rw [result] at finished; cases finished
  | ok w => exact ⟨w, rfl⟩

theorem files_of_ready_run :
    let s : Settings := { outputDir := ⟨"out"⟩ }
    let ran := (run disk s).run ready
    let tree :=
      "[\n  \x7b\n    \"id\": \"A\",\n    \"label\": \"A\",\n    \"children\": []\n  \x7d\n]"
    let index :=
      "[\n  \x7b\n    \"id\": \"A\",\n    \"name\": \"A\",\n    \"description\": \"\",\n    " ++
        "\"type\": \"Class\"\n  \x7d\n]"
    ∃ w, ran.1.result = .ok w ∧
      w.artifacts.treeText s.layout = tree ∧ w.artifacts.searchText s.layout = index ∧
      ran.2.Holds w.tree tree ∧ ran.2.Holds w.search index := by
  intro s ran tree index
  obtain ⟨w, finished⟩ : ∃ w, ran.1.result = .ok w := exists_of_isOk (by decide +kernel)
  have texts : ran.1.result.toOption.map
      (fun w => (w.artifacts.treeText s.layout, w.artifacts.searchText s.layout)) =
        some (tree, index) := by decide +kernel
  have leadsToTree : ran.2.place? s.treePath = some ["tree.json", "out"] := by decide +kernel
  have leadsToIndex : ran.2.place? s.searchPath = some ["search.json", "out"] := by decide +kernel
  obtain ⟨atTree, atSearch, place, place', atPlace, atPlace', -, holds, both⟩ :=
    files_of_finished_run s ready w finished
  rw [atTree, leadsToTree] at atPlace
  rw [atSearch, leadsToIndex] at atPlace'
  cases atPlace
  cases atPlace'
  rw [finished] at texts
  obtain ⟨ofTree, ofIndex⟩ := Prod.mk.inj (Option.some.inj texts)
  have written := both.mpr (.inl (by decide))
  rw [ofTree] at written
  rw [ofIndex] at holds
  exact ⟨w, finished, ofTree, ofIndex, written, holds⟩

/-- With one name for both files a run succeeds and the tree is lost: the file holds the index. -/
theorem tree_lost_under_one_name :
    let s : Settings := { treeFile := "same.json", searchFile := "same.json" }
    let ran := (run disk s).run ready
    let tree :=
      "[\n  \x7b\n    \"id\": \"A\",\n    \"label\": \"A\",\n    \"children\": []\n  \x7d\n]"
    let index :=
      "[\n  \x7b\n    \"id\": \"A\",\n    \"name\": \"A\",\n    \"description\": \"\",\n    " ++
        "\"type\": \"Class\"\n  \x7d\n]"
    ∃ w, ran.1.result = .ok w ∧ w.artifacts.treeText s.layout = tree ∧
      ran.2.Holds w.tree index ∧ ¬ ran.2.Holds w.tree tree := by
  intro s ran tree index
  obtain ⟨w, finished⟩ : ∃ w, ran.1.result = .ok w := exists_of_isOk (by decide +kernel)
  have texts : ran.1.result.toOption.map
      (fun w => (w.tree, w.artifacts.treeText s.layout)) = some (s.treePath, tree) := by
    decide +kernel
  rw [finished] at texts
  obtain ⟨path, ofTree⟩ := Prod.mk.inj (Option.some.inj texts)
  have lost : ran.2.Holds s.treePath index := by decide +kernel
  refine ⟨w, finished, ofTree, path ▸ lost, fun kept => ?_⟩
  have same : tree = index := (path ▸ kept).unique lost
  cases (by decide : tree ≠ index) same

end Taxonomy
