import Taxonomy.Files.Disk
import Taxonomy.Proofs.Files.Path

/-!
# Files that have been written

Where directories stay, every way through them stays (`KeepsDirectories`), and a file that is put
where no directory is changes none. So what has been written at a path is read from it, also if the
path is taken from the root (`read_join_of_write`).
-/

namespace Taxonomy.FileSystem

variable {fs fs' : FileSystem} {p : Path} {content : ByteArray} {name : String} {here : Location}

/-! ## Ways -/

theorem walk_append (fs : FileSystem) (names more : List String) : ∀ {here there : Location},
    fs.walk here names = .ok there → fs.walk here (names ++ more) = fs.walk there more := by
  induction names with
  | nil =>
    intro here there walked
    cases walked
    rfl
  | cons name names ih =>
    intro here there walked
    rw [walk] at walked
    rw [List.cons_append, walk]
    cases entered : fs.enter here name with
    | error e =>
      rw [entered] at walked
      cases walked
    | ok next =>
      rw [entered] at walked
      exact ih walked

/-- Directories stay where they are, and so does the place where relative paths start. -/
structure KeepsDirectories (fs fs' : FileSystem) : Prop where
  start : fs'.start = fs.start
  directory : ∀ {l : Location}, fs.node? l = some .directory → fs'.node? l = some .directory

/-- A file that is put where no directory is stands in nobody's way. -/
theorem keepsDirectories_put {l : Location} (free : fs.node? l ≠ some .directory)
    (below : l ≠ []) : fs.KeepsDirectories (fs.put l (.file content)) where
  start := rfl
  directory := by
    intro k found
    rw [node?_put _ _ _ below, if_neg, found]
    rintro rfl
    exact free found

theorem KeepsDirectories.enter (keeps : fs.KeepsDirectories fs') {there : Location}
    (entered : fs.enter here name = .ok there) : fs'.enter here name = .ok there := by
  rw [FileSystem.enter] at entered ⊢
  split_ifs at entered ⊢
  · exact entered
  · exact entered
  · rw [child?] at entered ⊢
    split_ifs at entered ⊢ with long
    cases found : fs.node? (name :: here) with
    | none =>
      rw [found] at entered
      cases entered
    | some node =>
      rw [found] at entered
      cases node with
      | file content => cases entered
      | directory =>
        rw [keeps.directory found]
        exact entered

theorem KeepsDirectories.walk (keeps : fs.KeepsDirectories fs') (names : List String) :
    ∀ {here there : Location}, fs.walk here names = .ok there →
      fs'.walk here names = .ok there := by
  induction names with
  | nil => exact id
  | cons name names ih =>
    intro here there walked
    rw [FileSystem.walk] at walked ⊢
    cases entered : fs.enter here name with
    | error e =>
      rw [entered] at walked
      cases walked
    | ok next =>
      rw [entered] at walked
      rw [keeps.enter entered]
      exact ih walked

/-! ## Targets -/

theorem locate_eq_named : fs.locate p = .ok (.named name here) ↔
    fault? p = none ∧ p.names.getLast? = some name ∧
    fs.walk (if p.isAbsolute then [] else fs.start) p.names.dropLast = .ok here ∧
    name ≠ "." ∧ name ≠ ".." := by
  rw [locate]
  cases fault? p with
  | some e => simp
  | none =>
    cases p.names.getLast? with
    | none => simp
    | some last =>
      dsimp only
      cases fs.walk (if p.isAbsolute then [] else fs.start) p.names.dropLast with
      | error e => simp
      | ok there =>
        dsimp only
        by_cases dots : last = "." ∨ last = ".."
        · rw [if_pos (by simpa using dots)]
          simp only [Except.ok.injEq, reduceCtorEq, false_iff]
          rintro ⟨-, same, -, notHere, notParent⟩
          cases same
          exact dots.elim notHere notParent
        · rw [if_neg (by simpa using dots)]
          rw [not_or] at dots
          simp only [Except.ok.injEq, Target.named.injEq, Option.some.injEq, true_and]
          refine ⟨?_, ?_⟩
          · rintro ⟨rfl, rfl⟩
            exact ⟨rfl, rfl, dots⟩
          · rintro ⟨rfl, rfl, -⟩
            exact ⟨rfl, rfl⟩

/-- A path leads to a name where it did before, if the directories on its way have stayed. -/
theorem KeepsDirectories.locate (keeps : fs.KeepsDirectories fs')
    (located : fs.locate p = .ok (.named name here)) : fs'.locate p = .ok (.named name here) := by
  obtain ⟨sound, last, walked, notHere, notParent⟩ := locate_eq_named.mp located
  rw [← keeps.start] at walked
  exact locate_eq_named.mpr ⟨sound, last, keeps.walk _ walked, notHere, notParent⟩

/-- What is read is in the file at a name that a path leads to. -/
theorem exists_named_of_read (found : fs.read p = .ok content) :
    ∃ name here, fs.locate p = .ok (.named name here) ∧ p.endsInSlash = false ∧
      name.utf8ByteSize ≤ nameLimit ∧ fs.node? (name :: here) = some (.file content) := by
  rw [read] at found
  cases located : fs.locate p with
  | error e => rw [located] at found; cases found
  | ok target =>
    rw [located] at found
    cases target with
    | passed => cases found
    | named name here =>
      dsimp only at found
      rw [child?] at found
      refine ⟨name, here, rfl, ?_⟩
      by_cases long : nameLimit < name.utf8ByteSize
      · rw [if_pos long] at found
        cases found
      · rw [if_neg long] at found
        cases there : fs.node? (name :: here) with
        | none => rw [there] at found; cases found
        | some node =>
          rw [there] at found
          cases node with
          | directory => cases found
          | file own =>
            dsimp only at found
            split_ifs at found with slash
            cases found
            exact ⟨by simpa using slash, Nat.not_lt.mp long, rfl⟩

theorem read_of_locate (located : fs.locate p = .ok (.named name here))
    (unslashed : p.endsInSlash = false) (short : name.utf8ByteSize ≤ nameLimit)
    (there : fs.node? (name :: here) = some (.file content)) : fs.read p = .ok content := by
  rw [read, located]
  dsimp only
  rw [child?, if_neg (Nat.not_lt.mpr short), there]
  dsimp only
  rw [unslashed, if_neg Bool.false_ne_true]

/-- What is written is put at a name that a path leads to, where no directory is. -/
theorem exists_named_of_write (written : fs.write p content = .ok fs') :
    ∃ name here, fs.locate p = .ok (.named name here) ∧ p.endsInSlash = false ∧
      name.utf8ByteSize ≤ nameLimit ∧ fs.node? (name :: here) ≠ some .directory ∧
      fs.put (name :: here) (.file content) = fs' := by
  rw [write] at written
  cases located : fs.locate p with
  | error e => rw [located] at written; cases written
  | ok target =>
    rw [located] at written
    cases target with
    | passed => cases written
    | named name here =>
      dsimp only at written
      rw [child?] at written
      split_ifs at written with slash long
      refine ⟨name, here, rfl, by simpa using slash, Nat.not_lt.mp long, ?_⟩
      cases found : fs.node? (name :: here) with
      | none =>
        rw [found] at written
        exact ⟨by simp, Except.ok.inj written⟩
      | some node =>
        rw [found] at written
        cases node with
        | file old => exact ⟨by simp, Except.ok.inj written⟩
        | directory => cases written

theorem write_of_locate (located : fs.locate p = .ok (.named name here))
    (unslashed : p.endsInSlash = false) (short : name.utf8ByteSize ≤ nameLimit)
    (free : fs.node? (name :: here) ≠ some .directory) :
    fs.write p content = .ok (fs.put (name :: here) (.file content)) := by
  rw [write, located]
  dsimp only
  rw [unslashed, if_neg Bool.false_ne_true, child?, if_neg (Nat.not_lt.mpr short)]
  cases found : fs.node? (name :: here) with
  | none => rfl
  | some node =>
    cases node with
    | file old => rfl
    | directory => exact absurd found free

/-- Nothing is read from a path that is too long. -/
theorem isFile_of_long (fs : FileSystem) (long : pathLimit < p.text.utf8ByteSize) :
    fs.isFile p = false := by
  have fault : ∃ e, fault? p = some e := by
    rw [fault?]
    split_ifs
    · exact ⟨_, rfl⟩
    · exact ⟨_, rfl⟩
  obtain ⟨e, fault⟩ := fault
  rw [isFile, read, locate, fault]

theorem mem_of_node? {l : Location} (below : l ≠ []) {node : Node}
    (found : fs.node? l = some node) : (l, node) ∈ fs.nodes := by
  obtain ⟨name, here, rfl⟩ := List.exists_cons_of_ne_nil below
  obtain ⟨front, rest, nodes, -⟩ := List.lookup_eq_some_iff.mp found
  rw [nodes]
  exact List.mem_append_right _ List.mem_cons_self

/-- A file that is found stands in the file system under the name that the path leads to. -/
theorem exists_mem_of_isFile (found : fs.isFile p = true) :
    ∃ name here node, p.names.getLast? = some name ∧ (name :: here, node) ∈ fs.nodes := by
  rw [isFile, read] at found
  cases located : fs.locate p with
  | error e => simp [located] at found
  | ok target =>
    cases target with
    | passed => simp [located] at found
    | named name here =>
      rw [located] at found
      dsimp only at found
      cases there : fs.node? (name :: here) with
      | none =>
        rw [child?, there] at found
        split_ifs at found
      | some node =>
        exact ⟨name, here, node, (locate_eq_named.mp located).2.1,
          mem_of_node? (List.cons_ne_nil _ _) there⟩

/-! ## The path from the root -/

/-- The path of the directory in which relative paths start leads there from the root. -/
structure Rooted (fs : FileSystem) : Prop where
  noNul : '\x00' ∉ fs.startPath.chars
  leads : fs.walk [] fs.startPath.names = .ok fs.start

theorem isAbsolute_startPath (fs : FileSystem) : fs.startPath.isAbsolute = true := by
  rw [startPath, Path.isAbsolute, Path.chars_append]
  rfl

theorem fault?_eq_none : fault? p = none ↔
    '\x00' ∉ p.chars ∧ p.text.utf8ByteSize ≤ pathLimit ∧ p.isEmpty = false := by
  rw [fault?]
  split_ifs with nul long empty
  · simp [by simpa using nul]
  · simp [Nat.not_le.mpr long]
  · simp [empty]
  · simp only [true_iff]
    exact ⟨by simpa using nul, Nat.not_lt.mp long, by simpa using empty⟩

theorem fault?_join (rooted : fs.Rooted) (sound : fault? p = none)
    (short : (fs.startPath.join p.text).text.utf8ByteSize ≤ pathLimit) :
    fault? (fs.startPath.join p.text) = none := by
  obtain ⟨noNul, -, filled⟩ := fault?_eq_none.mp sound
  refine fault?_eq_none.mpr ⟨fun member => ?_, short, Path.isEmpty_join filled _⟩
  obtain ⟨front, text, own⟩ := Path.exists_chars_join fs.startPath p
  rw [text, List.mem_append] at member
  rcases member with inFront | inPath
  · rcases own _ inFront with inStart | slash
    · exact rooted.noNul inStart
    · cases slash
  · exact noNul inPath

/-- A name that a path leads to is where the path leads from the root as well. -/
theorem locate_join (rooted : fs.Rooted)
    (short : (fs.startPath.join p.text).text.utf8ByteSize ≤ pathLimit)
    (located : fs.locate p = .ok (.named name here)) :
    fs.locate (fs.startPath.join p.text) = .ok (.named name here) := by
  obtain ⟨sound, last, walked, notHere, notParent⟩ := locate_eq_named.mp located
  have filled : p.names ≠ [] := fun none => by rw [none] at last; cases last
  refine locate_eq_named.mpr ⟨fault?_join rooted sound short, ?_⟩
  cases whole : p.isAbsolute with
  | true =>
    rw [Path.join_of_isAbsolute whole]
    exact ⟨last, walked, notHere, notParent⟩
  | false =>
    rw [whole] at walked
    rw [if_pos (Path.isAbsolute_join fs.isAbsolute_startPath p),
      Path.names_join whole (Path.isEmpty_of_isAbsolute fs.isAbsolute_startPath),
      List.dropLast_append_of_ne_nil filled, List.getLast?_append, last,
      walk_append fs _ _ rooted.leads]
    exact ⟨rfl, walked, notHere, notParent⟩

/-- What has been written at a path is read from the path that starts at the root. -/
theorem read_join_of_write (rooted : fs.Rooted)
    (short : (fs.startPath.join p.text).text.utf8ByteSize ≤ pathLimit)
    (written : fs.write p content = .ok fs') :
    fs'.read (fs.startPath.join p.text) = .ok content := by
  obtain ⟨name, here, located, unslashed, shortName, free, rfl⟩ :=
    exists_named_of_write written
  have below : name :: here ≠ [] := List.cons_ne_nil _ _
  have sound := (locate_eq_named.mp located).1
  have filled : p.isEmpty = false := (fault?_eq_none.mp sound).2.2
  refine read_of_locate
    ((keepsDirectories_put free below).locate (locate_join rooted short located)) ?_ shortName ?_
  · rw [Path.endsInSlash_join filled, unslashed]
  · rw [node?_put _ _ _ below, if_pos rfl]

end Taxonomy.FileSystem
