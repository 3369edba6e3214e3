import PlanSync.Metadata

/-!
# Sources

A repository that is checked out at a branch. The reference may hold further
fields, such as a tag or a commit, which are kept as they are.
-/

namespace PlanSync

/-- What of a repository is checked out. -/
structure RepositoryRef where
  branch : Option String := none
  passthrough : SortedMap String Json := .empty

namespace RepositoryRef

/-- The field with a type of its own. -/
def fields : List Decoder.FieldCheck := [.of "branch" (Decoder.option Decoder.string)]

/-- The reference as an object. -/
def toJson (r : RepositoryRef) : Json :=
  .object (Metadata.optionalMember "branch" (r.branch.map .string) ++ r.passthrough.entries)

/-- The reference is an open record. -/
def decoder : Decoder RepositoryRef := fun d => do
  let taken ← Decoder.openRecord fields d
  let branch ← taken.optional "branch" Decoder.string
  let kept ← taken.kept
  return { branch, passthrough := .ofList kept }

/-- Equality of references. -/
def same (r s : RepositoryRef) : Bool :=
  r.branch = s.branch && Json.sameMembers r.passthrough.entries s.passthrough.entries

end RepositoryRef

/-- Where a repository is and what of it is checked out. -/
structure GitRepositorySpec where
  url : String
  reference : Option RepositoryRef := none
  passthrough : SortedMap String Json := .empty

namespace GitRepositorySpec

/-- The fields with a type of their own. -/
def fields : List Decoder.FieldCheck :=
  [.of "url" Decoder.string, .of "ref" (Decoder.option RepositoryRef.decoder)]

/-- The spec as an object. -/
def toJson (s : GitRepositorySpec) : Json :=
  .object
    (("url", .string s.url)
      :: Metadata.optionalMember "ref" (s.reference.map RepositoryRef.toJson)
      ++ s.passthrough.entries)

/-- The spec is an open record. -/
def decoder : Decoder GitRepositorySpec := fun d => do
  let taken ← Decoder.openRecord fields d
  let url ← taken.required "url" Decoder.string
  let reference ← taken.optional "ref" RepositoryRef.decoder
  let kept ← taken.kept
  return { url, reference, passthrough := .ofList kept }

/-- Equality of specs. -/
def same (s t : GitRepositorySpec) : Bool :=
  s.url = t.url
    && (match s.reference, t.reference with
      | none, none => true
      | some r, some u => r.same u
      | _, _ => false)
    && Json.sameMembers s.passthrough.entries t.passthrough.entries

/-- The branch that is followed, if one is given and not empty. -/
def trackedBranch (s : GitRepositorySpec) : Option String :=
  (s.reference.bind RepositoryRef.branch).filter (· ≠ "")

end GitRepositorySpec

end PlanSync
