import PlanSync.Metadata

/-!
# Planning configurations

What a planning configuration asks for. The fields that derivation controls
have a type of their own; all others are kept as they are.
-/

namespace PlanSync

/-- A reference from a configuration to its source. -/
structure SourceReference where
  kind : String
  name : String
  namespaceName : Option String := none
  deriving DecidableEq

namespace SourceReference

/-- The namespace, if one is given and not empty. -/
def explicitNamespace (r : SourceReference) : Option String := r.namespaceName.filter (· ≠ "")

/-- A reference as an object. -/
def toJson (r : SourceReference) : Json :=
  .object
    ([("kind", .string r.kind), ("name", .string r.name)]
      ++ Metadata.optionalMember "namespace" (r.namespaceName.map .string))

/-- The fields of a reference. -/
def fields : List Decoder.FieldCheck :=
  [.of "kind" Decoder.string, .of "name" Decoder.string,
    .of "namespace" (Decoder.option Decoder.string)]

/-- A reference is a closed record. -/
def decoder : Decoder SourceReference := fun d => do
  let taken ← Decoder.closedRecord fields d
  let kind ← taken.required "kind" Decoder.string
  let name ← taken.required "name" Decoder.string
  let namespaceName ← taken.optional "namespace" Decoder.string
  return { kind, name, namespaceName }

end SourceReference

/-- The secret that receives the outputs of a configuration. -/
structure OutputsSecret where
  name : String
  outputs : List String := []
  deriving DecidableEq

namespace OutputsSecret

/-- The secret as an object. -/
def toJson (s : OutputsSecret) : Json :=
  .object
    (("name", .string s.name)
      :: Metadata.optionalMember "outputs"
        (if s.outputs.isEmpty then none else some (.ofStrings s.outputs)))

/-- The fields of the secret. -/
def fields : List Decoder.FieldCheck :=
  [.of "name" Decoder.string, .of "outputs" (Decoder.list Decoder.string)]

/-- The secret is a closed record. -/
def decoder : Decoder OutputsSecret := fun d => do
  let taken ← Decoder.closedRecord fields d
  let name ← taken.required "name" Decoder.string
  let outputs ← taken.withDefault "outputs" [] (Decoder.list Decoder.string)
  return { name, outputs }

end OutputsSecret

/-- What a planning configuration asks for. -/
structure TerraformSpec where
  sourceRef : SourceReference
  outputsSecret : Option OutputsSecret := none
  planOnly : Bool := false
  readablePlan : Option String := none
  /-- The fields that derivation never touches. -/
  passthrough : SortedMap String Json := .empty

namespace TerraformSpec

/-- The fields with a type of their own. -/
def fields : List Decoder.FieldCheck :=
  [.of "sourceRef" SourceReference.decoder,
    .of "writeOutputsToSecret" (Decoder.option OutputsSecret.decoder),
    .of "planOnly" Decoder.bool,
    .of "storeReadablePlan" (Decoder.option Decoder.string)]

/-- The spec as an object: its own fields, then the others. -/
def toJson (s : TerraformSpec) : Json :=
  .object
    (("sourceRef", s.sourceRef.toJson)
      :: Metadata.optionalMember "writeOutputsToSecret" (s.outputsSecret.map OutputsSecret.toJson)
      ++ ("planOnly", .bool s.planOnly)
      :: Metadata.optionalMember "storeReadablePlan" (s.readablePlan.map .string)
      ++ s.passthrough.entries)

/-- The spec is an open record. -/
def decoder : Decoder TerraformSpec := fun d => do
  let taken ← Decoder.openRecord fields d
  let sourceRef ← taken.required "sourceRef" SourceReference.decoder
  let outputsSecret ← taken.optional "writeOutputsToSecret" OutputsSecret.decoder
  let planOnly ← taken.withDefault "planOnly" false Decoder.bool
  let readablePlan ← taken.optional "storeReadablePlan" Decoder.string
  let kept ← taken.kept
  return { sourceRef, outputsSecret, planOnly, readablePlan, passthrough := .ofList kept }

/-- Equality of what is asked for. -/
def same (s t : TerraformSpec) : Bool :=
  s.sourceRef = t.sourceRef && s.outputsSecret = t.outputsSecret && s.planOnly = t.planOnly
    && s.readablePlan = t.readablePlan
    && Json.sameMembers s.passthrough.entries t.passthrough.entries

end TerraformSpec

end PlanSync
