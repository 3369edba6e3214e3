import PlanSync.Action
import PlanSync.Files.Error
import PlanSync.Files.Path
import PlanSync.SortedMap

/-!
# File trees

Files and directories by their *location*, the names from the root down to
them. A path is followed step by step: every place it passes through must be a
directory, `.` stays, `..` goes up, and a name of more than 255 bytes or with
a NUL character leads nowhere.
-/

namespace PlanSync

/-- What is at a location. -/
inductive FileNode where
  | file (text : String)
  | directory
  deriving DecidableEq

/-- The names from the root down to a file or directory. -/
abbrev Location := List String

/-- Files and directories. -/
structure FileTree where
  nodes : SortedMap Location FileNode := .empty
  /-- Where relative paths begin. -/
  workingDirectory : Location := []

/-- A file operation. -/
abbrev FileAction (α : Type) := Action FileTree FileError α

namespace FileTree

/-- What is at a location; the root is always a directory. -/
def node? (t : FileTree) (l : Location) : Option FileNode :=
  if l.isEmpty then some .directory else t.nodes.get? l

/-- Put something at a location. -/
def put (t : FileTree) (l : Location) (n : FileNode) : FileTree :=
  { t with nodes := t.nodes.insert l n }

/-- Remove what is at a location. -/
def remove (t : FileTree) (l : Location) : FileTree := { t with nodes := t.nodes.erase l }

/-! ## Following paths -/

/-- The longest name of a file, in bytes. -/
def maxNameBytes : Nat := 255

/-- Refuse to pass through anything but a directory. -/
def enter (t : FileTree) (l : Location) : Except FileError Unit :=
  match t.node? l with
  | none => .error .notFound
  | some (.file _) => .error .notADirectory
  | some .directory => .ok ()

/-- One step from a directory; its end may be missing. -/
def step (name : String) (l : Location) : Except FileError Location :=
  if name = "" || name = "." then .ok l
  else if name = ".." then .ok l.dropLast
  else if maxNameBytes < name.utf8ByteSize then .error .nameTooLong
  else .ok (l ++ [name])

/-- Follow steps; only the end may be missing. -/
def follow (t : FileTree) : List String → Location → Except FileError Location
  | [], l => .ok l
  | name :: names, l => do
    t.enter l
    let l ← step name l
    follow t names l

/-- Where a path begins. -/
def start (t : FileTree) (path : String) : Location :=
  if Path.isAbsolute path then [] else t.workingDirectory

/-- The length in bytes from which a path is too long. -/
def maxPathBytes : Nat := 4096

/-- Refuse a path with a NUL character and one that is too long. -/
def checkPath (path : String) : Except FileError Unit :=
  if path.toList.contains '\x00' then .error .invalidName
  else if maxPathBytes ≤ path.utf8ByteSize then .error .nameTooLong
  else .ok ()

/-- The location a path leads to. -/
def locate (t : FileTree) (path : String) : Except FileError Location := do
  checkPath path
  if path = "" then .error .notFound else t.follow (Path.steps path) (t.start path)

/-! ## Looking -/

/-- Whether there is anything at a path. -/
def contains (t : FileTree) (path : String) : Bool :=
  match t.locate path with
  | .ok l => (t.node? l).isSome
  | .error _ => false

/-- The text of a file. -/
def read (t : FileTree) (path : String) : Except FileError String := do
  let l ← t.locate path
  match t.node? l with
  | none => .error .notFound
  | some .directory => .error .isADirectory
  | some (.file text) => .ok text

/-- The names in a directory, in order. -/
def namesIn (t : FileTree) (path : String) : Except FileError (List String) := do
  let l ← t.locate path
  t.enter l
  return t.nodes.keys.filterMap fun m =>
    match l.isPrefixOf? m with
    | some [name] => some name
    | _ => none

/-- The files below a path, each with the path that leads there from it. -/
def filesBelow (t : FileTree) (path : String) : List (String × String) :=
  match t.locate path with
  | .error _ => []
  | .ok l =>
    t.nodes.entries.filterMap fun e =>
      match l.isPrefixOf? e.1, e.2 with
      | some below, .file text => some (Text.join "/" below, text)
      | _, _ => none

/-! ## Changing -/

/-- Make the directory that each of some steps leads to. -/
def makeSteps : List String → Location → FileAction Unit
  | [], _ => .done ()
  | name :: names, l => fun t =>
    match step name l with
    | .error e => Action.fail e t
    | .ok l =>
      match t.node? l with
      | none => makeSteps names l (t.put l .directory)
      | some .directory => makeSteps names l t
      | some (.file _) => Action.fail (if names.isEmpty then .alreadyExists else .notADirectory) t

/-- Make a directory and those on the way to it; fine if it is there. A path
that ends in a dot speaks of what is inside the directory before the dot, which
therefore has to be there already. -/
def makeDirectories (path : String) : FileAction Unit := do
  if path = "" then return ()
  Action.ofExcept (checkPath path)
  let t ← Action.state
  let (names, inside) := Path.splitDots path
  if inside then
    makeSteps names.dropLast (t.start path)
    let t ← Action.state
    Action.ofExcept ((t.locate path).map fun _ => ())
  else makeSteps names (t.start path)

/-- Write a file at a location. -/
def writeAt (l : Location) (text : String) : FileAction Unit := fun t =>
  match t.node? l with
  | some .directory => Action.fail .isADirectory t
  | _ => Action.done () (t.put l (.file text))

/-- Write a file, over one that is there. -/
def write (path text : String) : FileAction Unit := fun t =>
  match t.locate path with
  | .error e => Action.fail e t
  | .ok l => writeAt l text t

/-- Write a file where there is nothing. -/
def writeNew (path text : String) : FileAction Unit := fun t =>
  match t.locate path with
  | .error e => Action.fail e t
  | .ok l => if (t.node? l).isSome then Action.fail .alreadyExists t else writeAt l text t

/-- Remove a file. -/
def erase (path : String) : FileAction Unit := fun t =>
  match t.locate path with
  | .error e => Action.fail e t
  | .ok l =>
    match t.node? l with
    | none => Action.fail .notFound t
    | some .directory => Action.fail .isADirectory t
    | some (.file _) => Action.done () (t.remove l)

end FileTree

end PlanSync
