import PlanSync.Object.Terraform
import PlanSync.Object.GitRepository

/-!
# Objects

An object of a kind is metadata, the spec of that kind, and a status that
somebody else writes. Everything that does not look into the spec is defined
once for both kinds.
-/

namespace PlanSync

/-- The specs of a kind. -/
def Kind.Spec : Kind → Type
  | .terraform => TerraformSpec
  | .gitRepository => GitRepositorySpec

namespace Kind

/-- A spec as an object. -/
def specJson : (k : Kind) → k.Spec → Json
  | .terraform => TerraformSpec.toJson
  | .gitRepository => GitRepositorySpec.toJson

/-- The reader of specs. -/
def specDecoder : (k : Kind) → Decoder k.Spec
  | .terraform => TerraformSpec.decoder
  | .gitRepository => GitRepositorySpec.decoder

/-- Equality of specs. -/
def sameSpec : (k : Kind) → k.Spec → k.Spec → Bool
  | .terraform => TerraformSpec.same
  | .gitRepository => GitRepositorySpec.same

end Kind

/-- An object of a kind. -/
structure Object (k : Kind) where
  metadata : Metadata
  spec : k.Spec
  /-- Written by whoever acts on the object; never derived. -/
  status : Option Json := none

/-- A planning configuration. -/
abbrev Terraform := Object .terraform

/-- A source. -/
abbrev GitRepository := Object .gitRepository

namespace Object

variable {k : Kind}

/-- The name of an object. -/
def name (o : Object k) : String := o.metadata.name

/-- The namespace of an object. -/
def namespaceName (o : Object k) : String := o.metadata.namespaceName

/-- The labels of an object. -/
def labels (o : Object k) : Labels := o.metadata.labels

/-- What identifies an object. -/
def key (o : Object k) : ObjectKey := ⟨k, o.namespaceName, o.name⟩

/-- `namespace/name`. -/
def path (o : Object k) : String := o.key.path

/-- An object as JSON, fields in the order they are written. -/
def toJson (o : Object k) : Json :=
  .object
    ([("metadata", o.metadata.toJson), ("spec", k.specJson o.spec)]
      ++ Metadata.optionalMember "status" o.status)

/-- The fields of an object. -/
def fields (k : Kind) : List Decoder.FieldCheck :=
  [.of "metadata" Metadata.decoder, .of "spec" k.specDecoder,
    .of "status" (Decoder.option Decoder.json)]

/-- An object is a closed record. -/
def decoder (k : Kind) : Decoder (Object k) := fun d => do
  let taken ← Decoder.closedRecord (fields k) d
  let metadata ← taken.required "metadata" Metadata.decoder
  let spec ← taken.required "spec" k.specDecoder
  let status ← taken.optional "status" Decoder.json
  return { metadata, spec, status }

end Object

/-- The branch a source follows. -/
def Object.trackedBranch (o : GitRepository) : Option String :=
  GitRepositorySpec.trackedBranch o.spec

/-- The source a configuration refers to. -/
def Object.sourceRef (o : Terraform) : SourceReference := TerraformSpec.sourceRef o.spec

end PlanSync
