import PlanSync.CommandLine.Program
import Std.Time.DateTime.Timestamp

/-!
# The program

The only part that touches the machine. It looks at the environment and at the
files a run is about, lets the run take place on a copy of them, makes the
files what the run has left, and prints.
-/

namespace PlanSync.Host

/-! ## The environment -/

/-- The variables of the process. -/
def variableValues : IO (SortedMap String String) := do
  let text ← try IO.FS.readFile "/proc/self/environ" catch _ => pure ""
  return .ofList ((Text.pieces '\x00' text).filterMap (Text.cut? '='))

/-- The environment of the process. -/
def environment : IO Environment := do
  return {
    values := ← variableValues
    outputIsTerminal := ← (← IO.getStdout).isTty
    errorIsTerminal := ← (← IO.getStderr).isTty }

/-- The present time. -/
def now : IO Timestamp := do
  return .ofEpoch (← Std.Time.Timestamp.now).toNanosecondsSinceUnixEpoch.val.toNat

/-! ## Looking at files -/

/-- The absolute path of a location. -/
def absolute (l : Location) : String := "/" ++ Text.join "/" l

/-- What the machine has at a location. -/
def node? (l : Location) : IO (Option FileNode) := do
  match ← (IO.FS.realPath (absolute l)).toBaseIO with
  | .error _ => return none
  | .ok path =>
    if ← path.isDir then return some .directory
    else return some (.file (← IO.FS.readFile path))

/-- Copy what is at a location. -/
def lookAtLocation (t : FileTree) (l : Location) : IO FileTree := do
  match ← node? l with
  | none => return t
  | some n => return t.put l n

/-- The location of a path if every directory on the way is there. -/
def location (t : FileTree) (path : String) : Location :=
  (Path.steps path).foldl
    (fun l name =>
      match FileTree.step name l with
      | .ok l => l
      | .error _ => l)
    (t.start path)

/-- The locations on the way to a location, which is the last of them. -/
def locationsTo (l : Location) : List Location :=
  (List.range l.length).map fun n => l.take (n + 1)

/-- Copy what is at a path and on the way to it. -/
def lookAt (path : String) (t : FileTree) : IO FileTree :=
  match FileTree.checkPath path with
  | .error _ => return t
  | .ok () => (locationsTo (location t path)).foldlM lookAtLocation t

/-- Copy what is in the directory at a location, to a depth. -/
def lookBelow : Nat → FileTree → Location → IO FileTree
  | 0, t, _ => return t
  | depth + 1, t, l => do
    if t.node? l ≠ some .directory then return t
    let path ← IO.FS.realPath (absolute l)
    let names := (← path.readDir).toList.map fun e => e.fileName
    names.foldlM
      (fun t name => do lookBelow depth (← lookAtLocation t (l ++ [name])) (l ++ [name])) t

/-- Copy the objects of a store: below the directory of each kind there are
directories of namespaces with files in them. -/
def lookAtStore (root : String) (t : FileTree) : IO FileTree := do
  let t ← lookAt root t
  [Kind.terraform, Kind.gitRepository].foldlM
    (fun t k => do
      let path := Path.join root k.plural
      let t ← lookAt path t
      lookBelow 2 t (location t path))
    t

/-- Copy the files a run is about. -/
def filesFor (env : Environment) (words : List String) : IO FileTree := do
  let here ← IO.currentDir
  let t : FileTree := { workingDirectory := (Path.steps here.toString).filter (· ≠ "") }
  let t ← lookAt "." t
  match CommandLine.parse env words with
  | .error _ => return t
  | .ok i =>
    let paths := (i.configPath? env).toList ++ i.command.pullRequests?.toList
    let t ← paths.foldlM (fun t path => lookAt path t) t
    match i.storePath? env t with
    | none => return t
    | some root => lookAtStore root t

/-! ## Changing files -/

/-- Put something at a location. A file appears as a whole. -/
def place (l : Location) : FileNode → IO Unit
  | .directory => IO.FS.createDirAll (absolute l)
  | .file text => do
    let draft := absolute (l.dropLast ++ [".draft"])
    IO.FS.writeFile draft text
    IO.FS.rename draft (absolute l)

/-- Make the files what a run has left. -/
def save (old new : FileTree) : IO Unit := do
  for e in new.nodes.entries do
    if old.nodes.get? e.1 ≠ some e.2 then place e.1 e.2
  for e in old.nodes.entries do
    if !new.nodes.contains e.1 then IO.FS.removeFile (absolute e.1)

/-- Print a text. -/
def print (stream : IO.FS.Stream) (text : String) : IO Unit := do
  stream.putStr text
  stream.flush

end PlanSync.Host

open PlanSync in
/-- Run the program on the words of the command line. -/
def main (words : List String) : IO UInt32 := do
  let env ← Host.environment
  let now ← Host.now
  let files ← Host.filesFor env words
  let ending := CommandLine.run env (fun _ => now) words files
  Host.save files ending.files
  Host.print (← IO.getStdout) (Text.joinLines ending.output)
  Host.print (← IO.getStderr) ending.reports
  return ending.code.toUInt32
