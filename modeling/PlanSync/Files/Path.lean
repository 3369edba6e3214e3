import PlanSync.Text.Cut

/-!
# Paths

Paths are texts of steps with a slash between neighbours. One that begins with
a slash is absolute; the others are relative to a working directory. Joining
two paths never tidies them up, so a path is shown as it was put together.
-/

namespace PlanSync.Path

/-- Whether a path does not depend on a working directory. -/
def isAbsolute (path : String) : Bool := path.toList.head? = some '/'

/-- A path taken from the end of another. An absolute path stays as it is. -/
def join (base path : String) : String :=
  if isAbsolute path then path
  else if base = "" || base.toList.getLast? = some '/' then base ++ path
  else base ++ "/" ++ path

/-- The steps of a path, in order. An empty step stays where it is. -/
def steps (path : String) : List String := Text.pieces '/' path

/-- The steps of a path without the empty ones and dots at its end, and whether
there is a dot among these. -/
def splitDots (path : String) : List String × Bool :=
  let idle (name : String) : Bool := name = "" || name = "."
  let backwards := (steps path).reverse
  ((backwards.dropWhile idle).reverse, (backwards.takeWhile idle).contains ".")

end PlanSync.Path
