import PlanSync.Kind
import PlanSync.Timestamp
import PlanSync.Text.Cut

/-!
# Metadata of objects

Name, namespace, labels and annotations of an object, and what the store
assigns: a resource version for optimistic concurrency and the time of
creation.
-/

namespace PlanSync

/-- Labels or annotations. -/
abbrev Labels := SortedMap String String

/-! ## Well-known keys -/

/-- Marks objects that were derived for a branch. -/
def ownerLabel : String := "infra.weave.works/branch-based-planner"

/-- The number of the pull request an object was derived for. -/
def pullRequestLabel : String := "infra.weave.works/pr-id"

/-- The name of the template an object was derived from. -/
def templateLabel : String := "infra.weave.works/branch-planner-template"

/-- The annotation that records the keys of the labels an object took over
from its template or source, separated by commas. -/
def inheritedRecord : String := "infra.weave.works/branch-planner-inherited-labels"

/-- Identity, labels and what the store assigns. -/
structure Metadata where
  name : String
  namespaceName : String
  labels : Labels := .empty
  annotations : Labels := .empty
  /-- The version an update must carry, assigned by the store. -/
  resourceVersion : Option String := none
  /-- Assigned by the store on creation. -/
  creationTimestamp : Option Timestamp := none
  deriving DecidableEq

namespace Metadata

/-- The recorded keys of labels that were taken over. -/
def inheritedKeys (m : Metadata) : List String :=
  match m.annotations.get? inheritedRecord with
  | some keys => (Text.pieces ',' keys).filter (· ≠ "")
  | none => []

/-! ## JSON -/

/-- Labels as an object. -/
def labelsJson (ls : Labels) : Json := .object (ls.entries.map fun e => (e.1, .string e.2))

/-- A member that is left out when there is nothing to write. -/
def optionalMember (key : String) : Option Json → List (String × Json)
  | some j => [(key, j)]
  | none => []

/-- Labels as a member that is left out when there are none. -/
def labelsMember (key : String) (ls : Labels) : List (String × Json) :=
  optionalMember key (if ls.isEmpty then none else some (labelsJson ls))

/-- The metadata as an object. -/
def toJson (m : Metadata) : Json :=
  .object
    ([("name", .string m.name), ("namespace", .string m.namespaceName)]
      ++ labelsMember "labels" m.labels
      ++ labelsMember "annotations" m.annotations
      ++ optionalMember "resourceVersion" (m.resourceVersion.map .string)
      ++ optionalMember "creationTimestamp" (m.creationTimestamp.map fun t => .string t.text))

/-- A string map. -/
def labelsDecoder : Decoder Labels := Decoder.map Decoder.string

/-- An instant in its written form. -/
def timestampDecoder : Decoder Timestamp := fun d => do
  let s ← Decoder.string d
  match Timestamp.ofText? s with
  | some t => return t
  | none => .error .mismatch

/-- The fields of metadata, in the order they are written. -/
def fields : List Decoder.FieldCheck :=
  [.of "name" Decoder.string, .of "namespace" Decoder.string,
    .of "labels" labelsDecoder, .of "annotations" labelsDecoder,
    .of "resourceVersion" (Decoder.option Decoder.string),
    .of "creationTimestamp" (Decoder.option timestampDecoder)]

/-- Metadata is a closed record. -/
def decoder : Decoder Metadata := fun d => do
  let taken ← Decoder.closedRecord fields d
  let name ← taken.required "name" Decoder.string
  let namespaceName ← taken.required "namespace" Decoder.string
  let labels ← taken.withDefault "labels" .empty labelsDecoder
  let annotations ← taken.withDefault "annotations" .empty labelsDecoder
  let resourceVersion ← taken.optional "resourceVersion" Decoder.string
  let creationTimestamp ← taken.optional "creationTimestamp" timestampDecoder
  return { name, namespaceName, labels, annotations, resourceVersion, creationTimestamp }

end Metadata

end PlanSync
