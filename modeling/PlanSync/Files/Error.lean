/-!
# How file operations fail
-/

namespace PlanSync

/-- How a file operation fails. -/
inductive FileError where
  | notFound
  | alreadyExists
  | notADirectory
  | isADirectory
  | nameTooLong
  /-- A name with a NUL character. -/
  | invalidName
  /-- Any other failure, in the words of whoever reports it. -/
  | other (message : String)
  deriving DecidableEq

namespace FileError

/-- A file error in the words of the operating system, with its number. -/
def message : FileError → String
  | notFound => "No such file or directory (os error 2)"
  | alreadyExists => "File exists (os error 17)"
  | notADirectory => "Not a directory (os error 20)"
  | isADirectory => "Is a directory (os error 21)"
  | nameTooLong => "File name too long (os error 36)"
  | invalidName => "file name contained an unexpected NUL byte"
  | other m => m

end FileError

end PlanSync
