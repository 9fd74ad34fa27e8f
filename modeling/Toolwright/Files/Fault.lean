/-!
What can go wrong with files, and how the system words it.
-/

namespace Toolwright.Files

inductive Fault where
  | notFound
  | alreadyExists
  | notDirectory
  | isDirectory
  | nameTooLong
  /-- A path with a NUL character. -/
  | nulInPath
  /-- Bytes that are no text. -/
  | notText
  /-- Something else than a file is to be copied. -/
  | notCopyable
  deriving DecidableEq, Repr

def Fault.message : Fault → String
  | .notFound => "No such file or directory (os error 2)"
  | .alreadyExists => "File exists (os error 17)"
  | .notDirectory => "Not a directory (os error 20)"
  | .isDirectory => "Is a directory (os error 21)"
  | .nameTooLong => "File name too long (os error 36)"
  | .nulInPath => "file name contained an unexpected NUL byte"
  | .notText => "stream did not contain valid UTF-8"
  | .notCopyable => "the source path is neither a regular file nor a symlink to a regular file"

end Toolwright.Files
