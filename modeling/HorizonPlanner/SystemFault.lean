/-!
# Refusals of the operating system

Files and programs are in the hands of the operating system, which explains its refusals in words
and numbers of its own.
-/

namespace HorizonPlanner

/-- The reasons for which the operating system refuses something. -/
inductive SystemFault
  /-- There is no such file. -/
  | missing
  /-- The file must not be used in this way. -/
  | forbidden
  /-- A file stands where a directory is needed. -/
  | notADirectory
  /-- A directory stands where a file is needed. -/
  | isDirectory
  /-- There is no room left. -/
  | full
  /-- A name is too long. -/
  | nameTooLong
  deriving DecidableEq, Repr

/-- The explanation of a refusal. -/
def SystemFault.message : SystemFault → String
  | .missing => "No such file or directory (os error 2)"
  | .forbidden => "Permission denied (os error 13)"
  | .notADirectory => "Not a directory (os error 20)"
  | .isDirectory => "Is a directory (os error 21)"
  | .full => "No space left on device (os error 28)"
  | .nameTooLong => "File name too long (os error 36)"

end HorizonPlanner
