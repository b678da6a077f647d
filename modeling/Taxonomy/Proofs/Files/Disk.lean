import Mathlib.Order.Defs.Unbundled
import Taxonomy.Files.Disk

/-!
# Programs on files

What a program does to the files follows from what its steps do (`Keeps.bind`). Reading leaves them
as they are (`ReadsOnly`), so its result is all there is to know about it.
-/

namespace Taxonomy.FileSystem

variable {α β : Type} {fs : FileSystem}

/-- However the files are, the program leaves them in the relation to what they were. -/
def Keeps (R : FileSystem → FileSystem → Prop) (program : StateM FileSystem α) : Prop :=
  ∀ fs, R fs (program.run fs).2

theorem Keeps.bind {R : FileSystem → FileSystem → Prop} [IsTrans FileSystem R]
    {program : StateM FileSystem α} {next : α → StateM FileSystem β} (first : Keeps R program)
    (later : ∀ a, Keeps R (next a)) : Keeps R (program >>= next) :=
  fun fs => IsTrans.trans _ _ _ (first fs) (later _ _)

/-- A program that leaves all files as they are. -/
def ReadsOnly (program : StateM FileSystem α) : Prop :=
  ∀ fs, (program.run fs).2 = fs

theorem readsOnly_pure (a : α) : ReadsOnly (pure a) := fun _ => rfl

theorem ReadsOnly.keeps {R : FileSystem → FileSystem → Prop} [Std.Refl R]
    {program : StateM FileSystem α} (reads : ReadsOnly program) : Keeps R program := by
  intro fs
  rw [reads fs]
  exact refl fs

theorem ReadsOnly.bind {program : StateM FileSystem α} {next : α → StateM FileSystem β}
    (first : ReadsOnly program) (later : ∀ a, ReadsOnly (next a)) :
    ReadsOnly (program >>= next) :=
  fun fs => (later _ _).trans (first fs)

theorem ReadsOnly.run_eq {program : StateM FileSystem α} (reads : ReadsOnly program)
    {a : α} (result : (program.run fs).1 = a) : program.run fs = (a, fs) :=
  Prod.ext result (reads fs)

/-- A program goes on from the result and the files of its first step. -/
theorem run_bind {fs' : FileSystem} {program : StateM FileSystem α}
    (next : α → StateM FileSystem β) {a : α} (result : program.run fs = (a, fs')) :
    (program >>= next).run fs = (next a).run fs' := by
  change (next (program.run fs).1).run (program.run fs).2 = _
  rw [result]

theorem readsOnly_read (p : Path) : ReadsOnly (disk.read p) := fun _ => rfl

theorem readsOnly_isFile (p : Path) : ReadsOnly (disk.isFile p) :=
  (readsOnly_read p).bind fun r => by cases r <;> exact readsOnly_pure _

theorem readsOnly_isDirectory (p : Path) : ReadsOnly (disk.isDirectory p) :=
  (readsOnly_read p).bind fun r => by split <;> exact readsOnly_pure _

theorem readsOnly_readText (p : Path) : ReadsOnly (disk.readText p) :=
  (readsOnly_read p).bind fun r => by
    cases r with
    | error e => exact readsOnly_pure _
    | ok content =>
      dsimp only
      split <;> exact readsOnly_pure _

theorem run_read (p : Path) : (disk.read p).run fs = (fs.read p, fs) := rfl

theorem run_isFile (p : Path) : (disk.isFile p).run fs = (fs.isFile p, fs) := by
  rw [Disk.isFile, run_bind _ (run_read p), FileSystem.isFile]
  cases fs.read p <;> rfl

theorem run_isDirectory (p : Path) : (disk.isDirectory p).run fs = (fs.isDirectory p, fs) := by
  rw [Disk.isDirectory, run_bind _ (run_read p), FileSystem.isDirectory]
  cases fs.read p with
  | ok content => rfl
  | error e => cases e <;> rfl

end Taxonomy.FileSystem
