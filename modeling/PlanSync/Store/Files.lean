import PlanSync.Files.Tree
import PlanSync.Json.Printer
import PlanSync.Store.Basic
import PlanSync.Store.Naming

/-!
# A store in files

Every object is a JSON file of its own, three levels below the root of the
store: plural of the kind, namespace, name. A file is only ever replaced as a
whole. Versions are counted for each object.
-/

namespace PlanSync.FileStore

/-! ## Places -/

/-- The extension of an object's file. -/
def extension : String := ".json"

/-- The directory of a kind and namespace. -/
def directory (root : String) (k : Kind) (namespaceName : String) : String :=
  Path.join (Path.join root k.plural) namespaceName

/-- The path of an object. -/
def path (root : String) (key : ObjectKey) : String :=
  Path.join (directory root key.kind key.namespaceName) (key.name ++ extension)

/-- Whether a name has something before the extension. -/
def isObjectFile (name : String) : Bool := (Text.dropEnd? extension name).any (· ≠ "")

/-! ## Reading -/

/-- The object in a text. -/
def decode (k : Kind) (text : String) : Except StoreError (Object k) :=
  (Decoder.ofText (Object.decoder k) text).mapError .json

/-- How a missing file is reported. -/
def missing (key : ObjectKey) : FileError → StoreError
  | .notFound => .notFound key
  | e => .file e

/-- The object of a key. -/
def read (root : String) (k : Kind) (namespaceName name : String) (t : FileTree) :
    Except StoreError (Object k) := do
  let key : ObjectKey := ⟨k, namespaceName, name⟩
  let text ← (t.read (path root key)).mapError (missing key)
  decode k text

/-- One object. -/
def get (root : String) (k : Kind) (namespaceName name : String) : Call FileTree (Object k) := do
  Action.ofExcept (Naming.checkKey ⟨k, namespaceName, name⟩)
  let t ← Action.state
  Action.ofExcept (read root k namespaceName name t)

/-- The objects in the files of a directory, up to the first that cannot be
read. -/
def readAll (k : Kind) (directory : String) (t : FileTree) :
    List String → Except StoreError (List (Object k))
  | [] => .ok []
  | name :: names => do
    let text ← (t.read (Path.join directory name)).mapError .file
    let o ← decode k text
    let os ← readAll k directory t names
    return o :: os

/-- The objects of a namespace that a selector accepts. A namespace without a
directory has none. -/
def listed (root : String) (k : Kind) (namespaceName : String) (selector : Selector)
    (t : FileTree) : Except StoreError (List (Object k)) :=
  let directory := directory root k namespaceName
  match t.namesIn directory with
  | .error .notFound => .ok []
  | .error e => .error (.file e)
  | .ok names => do
    let os ← readAll k directory t (names.filter isObjectFile)
    return (os.filter fun o => selector.accepts o.labels).mergeSort fun a b => a.name ≤ b.name

/-- The objects of a namespace that a selector accepts. -/
def list (root : String) (k : Kind) (namespaceName : String) (selector : Selector) :
    Call FileTree (List (Object k)) := do
  Action.ofExcept (Naming.checkPart k "namespace" namespaceName)
  let t ← Action.state
  Action.ofExcept (listed root k namespaceName selector t)

/-! ## Writing -/

/-- The content of an object's file. -/
def content {k : Kind} (o : Object k) : String := o.toJson.pretty ++ "\n"

/-- What is reported about a file. -/
def report (verb root : String) (key : ObjectKey) : Call FileTree Unit :=
  Action.report
    [⟨.debug, .fileStore, verb ++ " " ++ key.kind.name ++ " " ++ path root key⟩]

/-- How a file that is there already is reported. -/
def taken (key : ObjectKey) : FileError → StoreError
  | .alreadyExists => .alreadyExists key
  | e => .file e

/-- Add an object whose file is not there. -/
def create (root : String) (clock : FileTree → Timestamp) (k : Kind) (o : Object k) :
    Call FileTree (Object k) := do
  Action.ofExcept (Naming.checkKey o.key)
  let t ← Action.state
  let created : Object k :=
    { o with
      metadata :=
        { o.metadata with
          resourceVersion := some (nextVersion none), creationTimestamp := some (clock t) } }
  (FileTree.makeDirectories (directory root k o.namespaceName)).mapError .file
  (FileTree.writeNew (path root o.key) (content created)).mapError (taken o.key)
  report "Wrote" root o.key
  return created

/-- Refuse a resource version that is not the stored one. -/
def checkVersion {k : Kind} (stored o : Object k) : Except StoreError Unit :=
  match o.metadata.resourceVersion with
  | none => .ok ()
  | some v =>
    if stored.metadata.resourceVersion = some v then .ok ()
    else .error (.conflict o.key ("resource version " ++ v ++ " is stale"))

/-- Replace an object. -/
def update (root : String) (k : Kind) (o : Object k) : Call FileTree (Object k) := do
  Action.ofExcept (Naming.checkKey o.key)
  let t ← Action.state
  let stored ← Action.ofExcept (read root k o.namespaceName o.name t)
  Action.ofExcept (checkVersion stored o)
  let updated : Object k :=
    { o with
      metadata :=
        { o.metadata with
          resourceVersion := some (nextVersion stored.metadata.resourceVersion)
          creationTimestamp := stored.metadata.creationTimestamp } }
  (FileTree.write (path root o.key) (content updated)).mapError .file
  report "Rewrote" root o.key
  return updated

/-- Remove an object. -/
def delete (root : String) (k : Kind) (namespaceName name : String) : Call FileTree Unit := do
  let key : ObjectKey := ⟨k, namespaceName, name⟩
  Action.ofExcept (Naming.checkKey key)
  (FileTree.erase (path root key)).mapError (missing key)
  report "Removed" root key

/-! ## The store -/

/-- Open a store: its root is made if it is not there. -/
def openAt (root : String) : Call FileTree Unit := do
  (FileTree.makeDirectories root).mapError .file
  Action.report [⟨.debug, .fileStore, "Opened file store at " ++ root⟩]

/-- The store below a root. The clock tells the time at which a tree is
written to. -/
def store (root : String) (clock : FileTree → Timestamp) : Store FileTree where
  get := get root
  list := list root
  create := create root clock
  update := update root
  delete := delete root

end PlanSync.FileStore
