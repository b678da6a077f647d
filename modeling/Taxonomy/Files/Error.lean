/-!
# Errors on files

Why a file could not be read or written, or a directory not be made.
-/

namespace Taxonomy

inductive FileError
  | notFound
  | exists
  | notDirectory
  | isDirectory
  | nameTooLong
  | notUtf8
  | nulByte
  | other (text : String)
  deriving DecidableEq, Repr, Inhabited

namespace FileError

/-- The wording of an error that the operating system numbers. -/
def numbered (text : String) (number : Nat) : String :=
  s!"{text} (os error {number})"

def message : FileError → String
  | notFound => numbered "No such file or directory" 2
  | .exists => numbered "File exists" 17
  | notDirectory => numbered "Not a directory" 20
  | isDirectory => numbered "Is a directory" 21
  | nameTooLong => numbered "File name too long" 36
  | notUtf8 => "stream did not contain valid UTF-8"
  | nulByte => "file name contained an unexpected NUL byte"
  | other text => text

end FileError

end Taxonomy
