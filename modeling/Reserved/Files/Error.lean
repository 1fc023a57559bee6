/-!
# What goes wrong with files

The reasons for which a call on the file system fails, with the system's number and wording
for each.
-/

namespace Reserved

inductive FileError
  | notFound
  | argumentTooLong
  | badExecutable
  | permissionDenied
  | busy
  | alreadyExists
  | notADirectory
  | isADirectory
  | noSpace
  | nameTooLong
  | tooManyLinks
  /-- A path with a NUL in it, which the system is never asked about. -/
  | nulInPath
  /-- An argument of a program with a NUL in it. -/
  | nulInArgument
  deriving DecidableEq, Repr

namespace FileError

/-- The system's number for the error. -/
def code? : FileError → Option Nat
  | notFound => some 2
  | argumentTooLong => some 7
  | badExecutable => some 8
  | permissionDenied => some 13
  | busy => some 16
  | alreadyExists => some 17
  | notADirectory => some 20
  | isADirectory => some 21
  | noSpace => some 28
  | nameTooLong => some 36
  | tooManyLinks => some 40
  | nulInPath => none
  | nulInArgument => none

def wording : FileError → String
  | notFound => "No such file or directory"
  | argumentTooLong => "Argument list too long"
  | badExecutable => "Exec format error"
  | permissionDenied => "Permission denied"
  | busy => "Device or resource busy"
  | alreadyExists => "File exists"
  | notADirectory => "Not a directory"
  | isADirectory => "Is a directory"
  | noSpace => "No space left on device"
  | nameTooLong => "File name too long"
  | tooManyLinks => "Too many levels of symbolic links"
  | nulInPath => "file name contained an unexpected NUL byte"
  | nulInArgument => "nul byte found in provided data"

def message (e : FileError) : String :=
  match e.code? with
  | some n => s!"{e.wording} (os error {n})"
  | none => e.wording

end FileError

end Reserved
