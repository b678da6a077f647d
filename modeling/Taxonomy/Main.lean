import Taxonomy.CommandLine.Execute

/-!
# The program

Executes the command that the arguments give on the files of the machine.
-/

namespace Taxonomy

/-- The number that the operating system gave an error, which may have come with its sign turned. -/
def errorNumber? : IO.Error → Option Nat
  | .alreadyExists _ n _ | .inappropriateType _ n _ | .invalidArgument _ n _
  | .permissionDenied _ n _ | .resourceExhausted _ n _ | .noSuchThing _ n _
  | .noFileOrDirectory _ n _ | .otherError n _ =>
    some (if n.toNat < 0x80000000 then n.toNat else 0x100000000 - n.toNat)
  | _ => none

def FileError.ofSystem (e : IO.Error) : FileError :=
  match errorNumber? e with
  | some 2 => .notFound
  | some 17 => .exists
  | some 20 => .notDirectory
  | some 21 => .isDirectory
  | some 36 => .nameTooLong
  | _ => .other e.toString

/-- Does something with a path, which must not hold the character that ends paths for the system. -/
def onPath {α : Type} (p : Path) (act : String → IO α) : IO (Except FileError α) := do
  if p.chars.contains '\x00' then return .error .nulByte
  else
    try return .ok (← act p.text)
    catch e => return .error (.ofSystem e)

/-- The files of the machine. -/
def machineDisk : Disk IO where
  start := do
    try return ⟨(← IO.currentDir).toString⟩
    catch _ => return ⟨""⟩
  read p := onPath p fun text => IO.FS.readBinFile text
  write p content := onPath p fun text => IO.FS.writeBinFile text content
  makeDirectory p := onPath p fun text => IO.FS.createDir text

/-- The variables of this process; none where the system has no such file. -/
def currentEnvironment : IO Environment := do
  try
    let block ← IO.FS.readBinFile "/proc/self/environ"
    return Environment.ofBlock ((String.fromUTF8? block).getD "")
  catch _ => return []

end Taxonomy

open Taxonomy in
def main (arguments : List String) : IO UInt32 := do
  let printed ← execute machineDisk (← currentEnvironment) arguments
  (← IO.getStdout).putStr printed.out
  (← IO.getStderr).putStr printed.err
  return printed.exit.toUInt32
