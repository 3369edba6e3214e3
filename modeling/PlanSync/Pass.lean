import PlanSync.Apply
import PlanSync.Provider

/-!
# Passes

A pass brings the branch objects of a template in line with the open pull
requests: derive what should exist, list what is owned, compare, apply. It
remembers nothing, so a pass that failed is retried by running another.

A pass fails without having changed anything when it is cancelled before it
starts, when the source follows no branch, or when the owned objects cannot be
listed. Otherwise every unit is attempted, and the failures come back
together.
-/

namespace PlanSync

/-- Why a pass fails. -/
inductive PassError where
  /-- The template or its source is missing. -/
  | notFound (key : ObjectKey)
  /-- The policy forbids the reference. -/
  | accessDenied (kind namespaceName name : String)
  | unsupportedKind (kind : String)
  /-- The source follows no branch. -/
  | untrackedSource (namespaceName name : String)
  | invalidRepositoryUrl (url : String)
  | provider (cause : ProviderError)
  | store (cause : StoreError)
  | apply (failures : ApplyFailures)
  | cancelled

namespace PassError

/-- A pass error in words. -/
def message : PassError → String
  | notFound key => "unable to get " ++ StoreError.subject key ++ ": not found"
  | accessDenied kind ns name =>
    "cannot access " ++ kind ++ "/" ++ ns ++ "/" ++ name
      ++ ", cross-namespace references have been disabled"
  | unsupportedKind kind => "branch based planner does not support source kind: " ++ kind
  | untrackedSource ns name => "source " ++ ns ++ "/" ++ name ++ " does not track a branch"
  | invalidRepositoryUrl url => "cannot determine repository from source URL: " ++ url
  | provider cause => "unable to list pull requests: " ++ cause.message
  | store cause => "store error: " ++ cause.message
  | apply failures => failures.message
  | cancelled => "reconcile cancelled"

/-- The category of a pass error. -/
def category : PassError → ErrorCategory
  | notFound _ => .notFound
  | accessDenied .. => .accessDenied
  | unsupportedKind _ | untrackedSource .. | invalidRepositoryUrl _ => .configuration
  | provider _ => .transient
  | store cause => cause.category
  | apply failures => if failures.isRetryable then .transient else .other
  | cancelled => .cancelled

/-- Whether running another pass may succeed. -/
def isRetryable (e : PassError) : Bool := e.category.isRetryable

/-- A missing object is an error of its own. -/
def ofStore : StoreError → PassError
  | .notFound key => notFound key
  | e => store e

end PassError

/-- Whether templates may refer to sources in other namespaces. -/
structure ReferencePolicy where
  crossNamespace : Bool := true
  deriving DecidableEq

namespace Pass

variable {σ : Type}

/-! ## Template and source -/

/-- The reference of a template to its source, if it can be followed. -/
def followable (policy : ReferencePolicy) (template : Terraform) :
    Except PassError (String × String) :=
  let ref := template.sourceRef
  if ref.kind ≠ Kind.gitRepository.name then .error (.unsupportedKind ref.kind)
  else
    let ns := ref.explicitNamespace.getD template.namespaceName
    if !policy.crossNamespace && ns ≠ template.namespaceName then
      .error (.accessDenied ref.kind ns ref.name)
    else .ok (ns, ref.name)

/-- The template of a name and the source it refers to. -/
def resolve (store : Store σ) (policy : ReferencePolicy) (namespaceName name : String) :
    Action σ PassError (Terraform × GitRepository) := do
  let template ← (store.get .terraform namespaceName name).mapError .ofStore
  let (ns, n) ← Action.ofExcept (followable policy template)
  let source ← (store.get .gitRepository ns n).mapError .ofStore
  return (template, source)

/-! ## Planning -/

/-- What a template owns. -/
def owned (store : Store σ) (template : Terraform) (source : GitRepository) :
    Action σ PassError OwnedObjects :=
  (OwnedObjects.listIn store template source).mapError .store

/-- What should exist. -/
def desired (template : Terraform) (source : GitRepository) (prs : List PullRequest) :
    Except PassError DesiredState :=
  match DesiredState.derive? template source prs with
  | some d => .ok d
  | none => .error (.untrackedSource source.namespaceName source.name)

/-- What a pass would do. -/
def plan (store : Store σ) (template : Terraform) (source : GitRepository)
    (prs : List PullRequest) : Action σ PassError Plan := do
  let wanted ← Action.ofExcept (desired template source prs)
  Action.report (DesiredState.report template source prs)
  let actual ← owned store template source
  let plan := Plan.compute wanted actual
  Action.report
    [⟨.debug, .pass,
      template.path ++ ": " ++ Text.decimal wanted.pairs.size ++ " desired branches, "
        ++ Text.decimal actual.size ++ " owned objects, "
        ++ Text.decimal plan.changes.length ++ " changes"⟩]
  return plan

/-! ## Running a pass -/

/-- The failure of a pull request that cannot be mirrored. -/
def skippedFailure (template : Terraform) (s : Skipped) : ApplyFailure :=
  { branchId := some s.branchId, operation := .create, kind := .terraform,
    name := s.branchId.nameFrom template.name, error := .invalid s.reason }

/-- The order of failures: by branch, those of no branch last. -/
def failureOrder (a b : ApplyFailure) : Bool :=
  match a.branchId, b.branchId with
  | some x, some y => x ≤ y
  | none, some _ => false
  | _, none => true

/-- Count pull requests that cannot be mirrored as failed branches. -/
def addSkipped (template : Terraform) (skipped : List Skipped) (report : ApplyReport) :
    ApplyReport :=
  if skipped.isEmpty then report
  else
    { report with
      summary := { report.summary with failed := report.summary.failed + skipped.length }
      failures :=
        (report.failures ++ skipped.map (skippedFailure template)).mergeSort failureOrder }

/-- What is reported at the end of a pass. -/
def conclusion (template : Terraform) (report : ApplyReport) : LogEntry :=
  let s := report.summary
  if s.total = 0 && report.failures.isEmpty then
    ⟨.info, .pass, template.path ++ ": branch objects up to date"⟩
  else
    ⟨.info, .pass,
      template.path ++ ": " ++ Text.decimal s.created ++ " created, " ++ Text.decimal s.updated
        ++ " updated, " ++ Text.decimal s.deleted ++ " deleted, " ++ Text.decimal s.failed
        ++ " failed"⟩

/-- The end of a pass: what it gives, and what its caller was told on the way. -/
structure Result where
  outcome : Except PassError ApplySummary
  progress : List Progress := []

/-- What a pass gives, from the report on its plan. -/
def resultOf (report : ApplyReport) : Except PassError ApplySummary :=
  if report.failures.isEmpty then .ok report.summary else .error (.apply report.failures)

/-- Run a pass. -/
def reconcile (store : Store σ) (cancelled : σ → Bool) (template : Terraform)
    (source : GitRepository) (prs : List PullRequest) (s : σ) : Result × σ × Log :=
  if cancelled s then ({ outcome := .error .cancelled }, s, [])
  else
    let planned := plan store template source prs s
    match planned.result with
    | .error e => ({ outcome := .error e }, planned.state, planned.log)
    | .ok plan =>
      let (applied, s, log) := plan.apply store cancelled planned.state
      let report := addSkipped template plan.skipped applied
      ({ outcome := resultOf report, progress := report.progress }, s,
        planned.log ++ log ++ [conclusion template report])

/-- The open pull requests of a template's repository, worked out from the URL
of its source. -/
def pullRequests (provider : Provider) (source : GitRepository) :
    Action σ PassError (List PullRequest) :=
  match Repository.ofUrl? (GitRepositorySpec.url source.spec) with
  | none => .fail (.invalidRepositoryUrl (GitRepositorySpec.url source.spec))
  | some repository => do
    let (prs, log) := provider.list repository
    Action.report log
    let prs ← Action.ofExcept (prs.mapError .provider)
    Action.report
      [⟨.debug, .pass,
        Text.decimal prs.length ++ " open pull requests for " ++ repository.display⟩]
    return prs

/-- Resolve a template, list its pull requests and run a pass. -/
def poll (store : Store σ) (policy : ReferencePolicy) (provider : Provider)
    (cancelled : σ → Bool) (namespaceName name : String) (s : σ) : Result × σ × Log :=
  let resolved := resolve store policy namespaceName name s
  match resolved.result with
  | .error e => ({ outcome := .error e }, resolved.state, resolved.log)
  | .ok (template, source) =>
    let listed := pullRequests provider source resolved.state
    match listed.result with
    | .error e => ({ outcome := .error e }, listed.state, resolved.log ++ listed.log)
    | .ok prs =>
      let (result, s, log) := reconcile store cancelled template source prs listed.state
      (result, s, resolved.log ++ listed.log ++ log)

end Pass

end PlanSync
