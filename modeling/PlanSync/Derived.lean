import PlanSync.Log
import PlanSync.Object.Basic
import PlanSync.ObjectName
import PlanSync.PullRequest
import PlanSync.Text.Quoted

/-!
# What should exist for open pull requests

From a template, its source and the open pull requests, the exact objects that
should exist: for every pull request that targets the branch the source
follows, a copy of the template that only plans, and a copy of the source that
follows the head branch. Nothing is asked of a store and nothing remembered,
so the same inputs always give the same objects.

Each pull request gets a verdict of its own; the desired state and what is
reported about it are both read off the verdicts.
-/

namespace PlanSync

/-- The labels every derived object carries over those it takes over. -/
def ownerLabels (template : String) (number : Nat) : Labels :=
  .ofList [(ownerLabel, "true"), (pullRequestLabel, Text.decimal number),
    (templateLabel, template)]

/-- The two objects that should exist for one pull request. -/
structure DesiredPair where
  branchId : BranchId
  pullRequest : PullRequest
  terraform : Terraform
  source : GitRepository

/-- A pull request for which nothing can be derived, because a name that would
be needed is none. -/
structure Skipped where
  branchId : BranchId
  badName : String
  deriving DecidableEq

/-- The reason in words. -/
def Skipped.reason (s : Skipped) : String :=
  "derived name " ++ Text.quoted s.badName ++ " is not a valid object name"

/-- What should exist, and what cannot. -/
structure DesiredState where
  /-- One pair for each branch id, in their order. -/
  pairs : SortedMap BranchId DesiredPair := .empty
  /-- In the order of the pull requests. -/
  skipped : List Skipped := []

namespace DesiredState

/-- Metadata of a derived object: the labels taken over, the owner labels on
top, and a record of the keys taken over. -/
def metadata (template : Terraform) (name : String) (inherited : Labels) (number : Nat) :
    Metadata :=
  let owner := ownerLabels template.name number
  let keys := inherited.keys.filter fun k => !owner.contains k
  { name
    namespaceName := template.namespaceName
    labels := inherited.overlay owner
    annotations := .ofList [(inheritedRecord, Text.join "," keys)] }

/-- The spec of a branch copy of a template: another source, plans only in
readable form, and outputs in a secret of its own. -/
def terraformSpec (template : Terraform) (sourceName : String) (id : BranchId) :
    TerraformSpec :=
  let spec : TerraformSpec := template.spec
  { spec with
    sourceRef :=
      { kind := spec.sourceRef.kind, name := sourceName,
        namespaceName := some template.namespaceName }
    planOnly := true
    readablePlan := some "human"
    outputsSecret := spec.outputsSecret.map fun s => { s with name := id.nameFrom s.name } }

/-- The spec of a branch copy of a source: it follows the head branch. -/
def sourceSpec (source : GitRepository) (headBranch : String) : GitRepositorySpec :=
  let spec : GitRepositorySpec := source.spec
  { spec with reference := some { spec.reference.getD {} with branch := some headBranch } }

/-- The pair for a pull request. -/
def pairFor (template : Terraform) (source : GitRepository) (pr : PullRequest) : DesiredPair :=
  let id := pr.branchId
  let sourceName := id.nameFrom source.name
  { branchId := id
    pullRequest := pr
    terraform :=
      { metadata := metadata template (id.nameFrom template.name) template.labels pr.number
        spec := terraformSpec template sourceName id }
    source :=
      { metadata := metadata template sourceName source.labels pr.number
        spec := sourceSpec source pr.headBranch } }

/-- What becomes of a pull request. -/
inductive Verdict where
  /-- It targets another branch. -/
  | ignored
  | skipped (why : Skipped)
  | mirrored (pair : DesiredPair)

/-- The first derived name that is none. -/
def badName? (template : Terraform) (source : GitRepository) (id : BranchId) : Option String :=
  [id.nameFrom template.name, id.nameFrom source.name].find? fun n => !ObjectName.isValid n

/-- The verdict on a pull request, given the branch the source follows. -/
def verdict (template : Terraform) (source : GitRepository) (tracked : String)
    (pr : PullRequest) : Verdict :=
  if pr.baseBranch ≠ tracked then .ignored
  else
    match badName? template source pr.branchId with
    | some bad => .skipped ⟨pr.branchId, bad⟩
    | none => .mirrored (pairFor template source pr)

/-- Take a verdict into the state; of two pairs with one id the later one
counts. -/
def record (state : DesiredState) : Verdict → DesiredState
  | .ignored => state
  | .skipped why => { state with skipped := state.skipped ++ [why] }
  | .mirrored pair => { state with pairs := state.pairs.insert pair.branchId pair }

/-- What should exist; `none` if the source follows no branch. -/
def derive? (template : Terraform) (source : GitRepository) (prs : List PullRequest) :
    Option DesiredState :=
  source.trackedBranch.map fun tracked =>
    prs.foldl (fun state pr => record state (verdict template source tracked pr)) {}

/-! ## Reports -/

/-- What is reported about a pull request. -/
def reportOn (tracked : String) (pr : PullRequest) : Verdict → Log
  | .ignored =>
    [⟨.debug, .derivation,
      "Ignoring pull request #" ++ Text.decimal pr.number ++ " (" ++ pr.headBranch ++ " -> "
        ++ pr.baseBranch ++ "): not targeting " ++ tracked⟩]
  | .skipped why =>
    [⟨.warn, .derivation,
      "Skipping pull request #" ++ Text.decimal pr.number ++ ": " ++ why.reason⟩]
  | .mirrored _ => []

/-- What is reported about a derivation. -/
def report (template : Terraform) (source : GitRepository) (prs : List PullRequest) : Log :=
  match source.trackedBranch with
  | none => []
  | some tracked => prs.flatMap fun pr => reportOn tracked pr (verdict template source tracked pr)

end DesiredState

end PlanSync
