import Taxonomy.Proofs.Files.Disk
import Taxonomy.Proofs.Files.System

/-!
# Directories that are made for a file

Making directories puts some where nothing was (`AddsDirectories`), whether it succeeds or not. So
it changes no regular file, and what could be read before still can (`AddsDirectories.read`). A file
that is written after that is the only one that changes (`run_writeWithDirectories`).
-/

namespace Taxonomy.FileSystem

variable {fs fs' fs'' : FileSystem} {p : Path} {content : ByteArray} {l : Location}

/-- The content of the regular file at a location. -/
def content? (fs : FileSystem) (l : Location) : Option ByteArray :=
  match fs.node? l with
  | some (.file content) => some content
  | _ => none

theorem content?_eq_some : fs.content? l = some content ↔ fs.node? l = some (.file content) := by
  rw [content?]
  split <;> simp_all

theorem content?_put (fs : FileSystem) (content : ByteArray) (below : l ≠ []) (k : Location) :
    (fs.put l (.file content)).content? k = if k = l then some content else fs.content? k := by
  rw [content?, node?_put _ _ _ below]
  split_ifs <;> rfl

/-- The location of what a path names. -/
def place? (fs : FileSystem) (p : Path) : Option Location :=
  match fs.locate p with
  | .ok (.named name here) => some (name :: here)
  | _ => none

theorem place?_of_locate {name : String} {here : Location}
    (located : fs.locate p = .ok (.named name here)) : fs.place? p = some (name :: here) := by
  rw [place?, located]

theorem KeepsDirectories.place? (keeps : fs.KeepsDirectories fs') (leads : fs.place? p = some l) :
    fs'.place? p = some l := by
  rw [FileSystem.place?] at leads
  split at leads
  · next name here located =>
    cases leads
    exact place?_of_locate (keeps.locate located)
  · cases leads

/-- A path from which a file was read leads to what the file holds now. -/
theorem KeepsDirectories.read (keeps : fs.KeepsDirectories fs') {old : ByteArray}
    (found : fs.read p = .ok old) (leads : fs.place? p = some l)
    (holds : fs'.content? l = some content) : fs'.read p = .ok content := by
  obtain ⟨name, here, located, unslashed, short, -⟩ := exists_named_of_read found
  obtain rfl := Option.some.inj ((place?_of_locate located).symm.trans leads)
  exact read_of_locate (keeps.locate located) unslashed short (content?_eq_some.mp holds)

theorem exists_place?_of_read (found : fs.read p = .ok content) :
    ∃ l, fs.place? p = some l ∧ fs.content? l = some content := by
  obtain ⟨name, here, located, -, -, there⟩ := exists_named_of_read found
  exact ⟨_, place?_of_locate located, content?_eq_some.mpr there⟩

/-! ## Directories where nothing was -/

/-- Some directories have been made where nothing was. -/
structure AddsDirectories (fs fs' : FileSystem) : Prop where
  start : fs'.start = fs.start
  node : ∀ l, fs'.node? l = fs.node? l ∨ fs.node? l = none ∧ fs'.node? l = some .directory

namespace AddsDirectories

instance : Std.Refl AddsDirectories where
  refl _ := ⟨rfl, fun _ => .inl rfl⟩

instance : IsTrans FileSystem AddsDirectories where
  trans := by
    intro fs fs' fs'' first second
    refine ⟨second.start.trans first.start, fun l => ?_⟩
    rcases second.node l with same | ⟨free, made⟩
    · rw [same]
      exact first.node l
    · rcases first.node l with same | ⟨-, made'⟩
      · exact .inr ⟨same.symm.trans free, made⟩
      · rw [made'] at free
        cases free

theorem keepsDirectories (adds : AddsDirectories fs fs') : fs.KeepsDirectories fs' where
  start := adds.start
  directory := by
    intro l found
    rcases adds.node l with same | ⟨free, -⟩
    · rw [same, found]
    · rw [free] at found
      cases found

/-- No regular file is made, changed or removed. -/
theorem content?_eq (adds : AddsDirectories fs fs') (l : Location) :
    fs'.content? l = fs.content? l := by
  rw [content?, content?]
  rcases adds.node l with same | ⟨free, made⟩
  · rw [same]
  · rw [free, made]

theorem read (adds : AddsDirectories fs fs') (found : fs.read p = .ok content) :
    fs'.read p = .ok content := by
  obtain ⟨l, leads, holds⟩ := exists_place?_of_read found
  exact adds.keepsDirectories.read found leads ((adds.content?_eq l).trans holds)

theorem of_makeDirectory (made : fs.makeDirectory p = .ok fs') : AddsDirectories fs fs' := by
  rw [makeDirectory] at made
  cases located : fs.locate p with
  | error e => rw [located] at made; cases made
  | ok target =>
    rw [located] at made
    cases target with
    | passed => cases made
    | named name here =>
      dsimp only at made
      rw [child?] at made
      split_ifs at made
      cases found : fs.node? (name :: here) with
      | some node => rw [found] at made; cases made
      | none =>
        rw [found] at made
        cases made
        refine ⟨rfl, fun k => ?_⟩
        rw [node?_put _ _ _ (List.cons_ne_nil _ _)]
        split_ifs with same
        · exact .inr ⟨same ▸ found, rfl⟩
        · exact .inl rfl

end AddsDirectories

theorem keeps_makeDirectory (p : Path) : Keeps AddsDirectories (disk.makeDirectory p) := by
  intro fs
  change AddsDirectories fs (attempt (·.makeDirectory p) fs).2
  rw [attempt]
  cases made : fs.makeDirectory p with
  | error e => exact refl fs
  | ok fs' => exact .of_makeDirectory made

/-- Directories are only added, however far the making of them gets. -/
theorem keeps_makeDirectories (ps : List Path) :
    Keeps AddsDirectories (disk.makeDirectories ps) := by
  have done (r : Except FileError Unit) : Keeps AddsDirectories (pure r) :=
    (readsOnly_pure r).keeps
  have unlessDirectory (p : Path) (e : FileError) : Keeps AddsDirectories (do
      if ← disk.isDirectory p then return .ok () else
        return (.error e : Except FileError Unit)) :=
    (readsOnly_isDirectory p).keeps.bind fun found => by cases found <;> exact done _
  induction ps with
  | nil => exact done _
  | cons p above ih =>
    rw [Disk.makeDirectories]
    split_ifs
    · exact done _
    · refine (keeps_makeDirectory p).bind fun made => ?_
      split
      · exact done _
      · refine ih.bind fun madeAbove => ?_
        cases madeAbove with
        | error e => exact done _
        | ok _ =>
          refine (keeps_makeDirectory p).bind fun madeLater => ?_
          cases madeLater with
          | ok _ => exact done _
          | error e => exact unlessDirectory p e
      · exact unlessDirectory p _

/-! ## Files that are written -/

theorem keepsDirectories_of_write (written : fs.write p content = .ok fs') :
    fs.KeepsDirectories fs' := by
  obtain ⟨name, here, -, -, -, free, rfl⟩ := exists_named_of_write written
  exact keepsDirectories_put free (List.cons_ne_nil _ _)

/-- A file that is written is read with its content. -/
theorem read_of_write (written : fs.write p content = .ok fs') : fs'.read p = .ok content := by
  have keeps := keepsDirectories_of_write written
  obtain ⟨name, here, located, unslashed, short, -, rfl⟩ := exists_named_of_write written
  refine read_of_locate (keeps.locate located) unslashed short ?_
  rw [node?_put _ _ _ (List.cons_ne_nil _ _), if_pos rfl]

/-- Writing changes one regular file. -/
theorem exists_place?_of_write (written : fs.write p content = .ok fs') :
    ∃ l, fs.place? p = some l ∧
      ∀ k, fs'.content? k = if k = l then some content else fs.content? k := by
  obtain ⟨name, here, located, -, -, -, rfl⟩ := exists_named_of_write written
  exact ⟨_, place?_of_locate located, content?_put fs content (List.cons_ne_nil _ _)⟩

/-- What a write with the directories for it does: it makes some of the directories, and then it
writes the file or fails. -/
theorem run_writeWithDirectories {text : String} {result : Except FileError Unit}
    (ran : (disk.writeWithDirectories p text).run fs = (result, fs'')) :
    ∃ fs', AddsDirectories fs fs' ∧
      (result = .ok () ∧ fs'.write p text.toUTF8 = .ok fs'' ∨ (∃ e, result = .error e) ∧
        fs'' = fs') := by
  have write {fs' : FileSystem} (wrote : (disk.writeText p text).run fs' = (result, fs'')) :
      result = .ok () ∧ fs'.write p text.toUTF8 = .ok fs'' ∨ (∃ e, result = .error e) ∧
        fs'' = fs' := by
    change attempt (·.write p text.toUTF8) fs' = _ at wrote
    rw [attempt] at wrote
    cases written : fs'.write p text.toUTF8 with
    | error e => rw [written] at wrote; cases wrote; exact .inr ⟨⟨e, rfl⟩, rfl⟩
    | ok after => rw [written] at wrote; cases wrote; exact .inl ⟨rfl, rfl⟩
  rw [Disk.writeWithDirectories] at ran
  split at ran
  · exact ⟨fs, refl fs, write ran⟩
  · have adds := keeps_makeDirectories p.directories fs
    cases made : (disk.makeDirectories p.directories).run fs with
    | mk outcome fs' =>
      rw [made] at adds
      rw [run_bind _ made] at ran
      refine ⟨fs', adds, ?_⟩
      cases outcome with
      | error e => cases ran; exact .inr ⟨⟨e, rfl⟩, rfl⟩
      | ok _ => exact write ran

end Taxonomy.FileSystem
