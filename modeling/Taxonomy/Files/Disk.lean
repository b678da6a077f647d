import Taxonomy.Files.System

/-!
# Disks

A disk is what a program does to files, in a monad of its own: `FileSystem.disk` does it to a value,
and the command line does it to the files of the machine. What is said here of one holds of both.
-/

namespace Taxonomy

structure Disk (m : Type → Type) where
  /-- The directory in which relative paths start. -/
  start : m Path
  read : Path → m (Except FileError ByteArray)
  write : Path → ByteArray → m (Except FileError Unit)
  makeDirectory : Path → m (Except FileError Unit)

namespace Disk

variable {m : Type → Type} [Monad m]

/-- The text of a file, which must be in UTF-8. -/
def readText (d : Disk m) (p : Path) : m (Except FileError String) := do
  match ← d.read p with
  | .error e => return .error e
  | .ok content =>
    match String.fromUTF8? content with
    | some text => return .ok text
    | none => return .error .notUtf8

/-- Only a file can be read. -/
def isFile (d : Disk m) (p : Path) : m Bool := do
  match ← d.read p with
  | .ok _ => return true
  | .error _ => return false

/-- Reading tells a directory from all else. -/
def isDirectory (d : Disk m) (p : Path) : m Bool := do
  match ← d.read p with
  | .error .isDirectory => return true
  | _ => return false

/-- Makes a directory, and those it lies in if they are missing. The path comes first and then the
directories it goes through, the nearest first; there is nothing to make for the empty path. -/
def makeDirectories (d : Disk m) : List Path → m (Except FileError Unit)
  | [] => return .error (.other "failed to create whole tree")
  | p :: above => do
    if p.isEmpty then return .ok ()
    else
      match ← d.makeDirectory p with
      | .ok () => return .ok ()
      | .error .notFound =>
        match ← d.makeDirectories above with
        | .error e => return .error e
        | .ok () =>
          match ← d.makeDirectory p with
          | .ok () => return .ok ()
          | .error e => if ← d.isDirectory p then return .ok () else return .error e
      | .error e => if ← d.isDirectory p then return .ok () else return .error e

def writeText (d : Disk m) (p : Path) (text : String) : m (Except FileError Unit) :=
  d.write p text.toUTF8

/-- Writes a file and makes the directories it lies in. -/
def writeWithDirectories (d : Disk m) (p : Path) (text : String) : m (Except FileError Unit) := do
  match p.directories with
  | [] => d.writeText p text
  | above =>
    match ← d.makeDirectories above with
    | .error e => return .error e
    | .ok () => d.writeText p text

end Disk

/-- Takes the outcome of an operation, which leaves the state alone if it fails. -/
def FileSystem.attempt (f : FileSystem → Except FileError FileSystem) :
    StateM FileSystem (Except FileError Unit) := fun fs =>
  match f fs with
  | .ok fs => (.ok (), fs)
  | .error e => (.error e, fs)

/-- The path from the root to the directory in which relative paths start. -/
def FileSystem.startPath (fs : FileSystem) : Path :=
  ⟨"/" ++ "/".intercalate fs.start.reverse⟩

/-- The disk that a file system is. -/
def FileSystem.disk : Disk (StateM FileSystem) where
  start := fun fs => (fs.startPath, fs)
  read p := fun fs => (fs.read p, fs)
  write p content := FileSystem.attempt (·.write p content)
  makeDirectory p := FileSystem.attempt (·.makeDirectory p)

end Taxonomy
