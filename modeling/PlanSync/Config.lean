import PlanSync.Places
import PlanSync.Pass
import PlanSync.Repository
import PlanSync.Toml.Reader

/-!
# Configuration

What a user sets in the configuration file. Everything has a value of its own
when the file does not set it, and keys without a meaning are passed over.
-/

namespace PlanSync

/-- The configuration. -/
structure Config where
  /-- The directory of the object store. -/
  storeDirectory : Option String := none
  /-- How many branches are applied at a time. -/
  jobs : Nat := 4
  /-- Whether templates may refer to sources in other namespaces. -/
  crossNamespace : Bool := true
  /-- The repository to ask for pull requests, instead of the one that the URL
  of the source names. -/
  repository : Option Repository := none
  deriving DecidableEq

/-- Why a configuration cannot be used. -/
inductive ConfigError where
  /-- It is no TOML, or a key has a value of the wrong type. -/
  | toml
  | zeroJobs
  deriving DecidableEq

namespace ConfigError

/-- A configuration error in words. -/
def message : ConfigError → String
  | toml => "TOML parse error"
  | zeroJobs => "jobs must be at least 1"

end ConfigError

namespace Config

/-! ## Values of keys -/

def string? : Toml → Option String
  | .string s => some s
  | _ => none

def bool? : Toml → Option Bool
  | .bool b => some b
  | _ => none

/-- A natural number of 64 bits. -/
def word? : Toml → Option Nat
  | .integer i => if 0 ≤ i ∧ i < Text.wordBound then some i.toNat else none
  | _ => none

/-- The value of a key, or what it is when it is missing; `none` if it has the
wrong type. -/
def field? {α : Type} (t : Toml) (key : String) (read : Toml → Option α) (default : Option α) :
    Option α :=
  match t.get? key with
  | none => default
  | some v => read v

/-- Whether everything in a table under other keys than those given can be
read. -/
def othersReadable (t : Toml) (known : List String) : Bool :=
  t.entries.all fun e => known.contains e.1 || e.2.isReadable

/-- A repository, as a table or as the list of its fields, in which nothing
after them is looked at. -/
def repository? (t : Toml) : Option Repository :=
  match t.items? with
  | some (org :: project :: name :: _) => do
    let org ← string? org
    let project ← string? project
    let name ← string? name
    return { org, project, name }
  | some _ => none
  | none => do
    guard (othersReadable t ["org", "project", "name"])
    let org ← field? t "org" string? none
    let project ← field? t "project" string? (some "")
    let name ← field? t "name" string? none
    return { org, project, name }

/-! ## The file -/

/-- The configuration in a document. -/
def ofToml? (t : Toml) : Option Config := do
  guard (othersReadable t ["store_dir", "jobs", "allow_cross_namespace_refs", "repository"])
  let default : Config := {}
  let storeDirectory ←
    field? t "store_dir" (fun v => (string? v).map some) (some default.storeDirectory)
  let jobs ← field? t "jobs" word? (some default.jobs)
  let crossNamespace ←
    field? t "allow_cross_namespace_refs" bool? (some default.crossNamespace)
  let repository ←
    field? t "repository" (fun v => (repository? v).map some) (some default.repository)
  return { storeDirectory, jobs, crossNamespace, repository }

/-- The configuration in a text. -/
def ofText (s : String) : Except ConfigError Config :=
  match (Toml.ofText? s).bind ofToml? with
  | none => .error .toml
  | some c => if c.jobs = 0 then .error .zeroJobs else .ok c

/-- Whether references across namespaces are followed. -/
def policy (c : Config) : ReferencePolicy := { crossNamespace := c.crossNamespace }

/-- Where the store is: at a path given for this run, else where the
configuration says, else at its usual place. `none` if there is no home
directory to look in. -/
def storePath? (c : Config) (env : Environment) (given : Option String) : Option (String × Log) :=
  match given, c.storeDirectory with
  | some path, _ => some (path, [])
  | none, some path => some (env.expand path, [])
  | none, none => Place.store.find? env

end Config

end PlanSync
