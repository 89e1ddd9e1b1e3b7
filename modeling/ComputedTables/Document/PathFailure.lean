/-!
# Where a path does not lead
-/

namespace ComputedTables

/-- Why a path does not lead to what is looked for, or nothing can be made there. -/
inductive PathFailure where
  | missing
  /-- Something else stands there. -/
  | taken
  /-- The path leads through a file. -/
  | notDirectory
  | directory
  | tooLong
  /-- No path has a null character in it. -/
  | notPath
  deriving DecidableEq, Repr

/-- The wording of a failure. -/
def PathFailure.message : PathFailure → String
  | .missing => "No such file or directory (os error 2)"
  | .taken => "File exists (os error 17)"
  | .notDirectory => "Not a directory (os error 20)"
  | .directory => "Is a directory (os error 21)"
  | .tooLong => "File name too long (os error 36)"
  | .notPath => "file name contained an unexpected NUL byte"

end ComputedTables
