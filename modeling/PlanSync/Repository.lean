import PlanSync.Json.Decode
import PlanSync.Text.Cut

/-!
# Repositories on a code host

A repository is known by its organisation, its name, and what stands between
them: subgroups or a project. It can be worked out from a clone URL, be it of
the form `scheme://host/path` or of the short form `host:path`.
-/

namespace PlanSync

/-- A repository on a code host. -/
structure Repository where
  org : String
  /-- Subgroups or a project, perhaps empty. -/
  project : String := ""
  name : String
  deriving DecidableEq

namespace Repository

/-- The repository as messages show it. -/
def display (r : Repository) : String :=
  if r.project = "" then r.org ++ "/" ++ r.name
  else r.org ++ "/" ++ r.project ++ "/" ++ r.name

/-! ## Clone URLs -/

/-- What stands after the scheme, and whether there is one. -/
def afterScheme (url : String) : String × Bool :=
  match Text.afterWord? [':', '/', '/'] url.toList with
  | some rest => (String.ofList rest, true)
  | none => (url, false)

/-- Host and path of a URL. Without a scheme, a colon before the first slash
ends the host. -/
def hostAndPath? (url : String) : Option (String × String) :=
  let (rest, hasScheme) := afterScheme url
  match Text.cut? '/' rest with
  | some (host, path) =>
    if !host.toList.contains ':' || hasScheme then some (host, path) else Text.cut? ':' rest
  | none => Text.cut? ':' rest

/-- The parts of a path that name something: neither empty nor the marker
`_git`. -/
def segments (path : String) : List String :=
  (Text.pieces '/' path).filter (fun s => s ≠ "" && s ≠ "_git")

/-- The last of at least two segments without one `.git` at its end. -/
def nameOfSegment (s : String) : String := (Text.dropEnd? ".git" s).getD s

/-- The repository a clone URL names. -/
def ofUrl? (url : String) : Option Repository := do
  let (host, path) ← hostAndPath? url
  if host = "" then none
  else
    match segments path with
    | org :: rest =>
      let last ← rest.getLast?
      let name := nameOfSegment last
      if name = "" then none
      else some { org, project := Text.join "/" rest.dropLast, name }
    | [] => none

/-! ## JSON -/

/-- The repository as an object. -/
def toJson (r : Repository) : Json :=
  .object [("org", .string r.org), ("project", .string r.project), ("name", .string r.name)]

/-- The fields of a repository, in the order they are written. -/
def fields : List Decoder.FieldCheck :=
  [.of "org" Decoder.string, .of "project" Decoder.string, .of "name" Decoder.string]

/-- A repository is a closed record. -/
def decoder : Decoder Repository := fun d => do
  let taken ← Decoder.closedRecord fields d
  let org ← taken.required "org" Decoder.string
  let project ← taken.withDefault "project" "" Decoder.string
  let name ← taken.required "name" Decoder.string
  return { org, project, name }

end Repository

end PlanSync
