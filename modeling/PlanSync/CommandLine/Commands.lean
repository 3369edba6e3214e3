import PlanSync.CommandLine.PlanView
import PlanSync.CommandLine.Session

/-!
# The commands

`plan` shows what a pass would do, `reconcile` shows it and does it, and
`list` shows what a template owns.
-/

namespace PlanSync.CommandLine

/-! ## Planning -/

/-- Show what a pass would do. -/
def showPlan (s : Session) (template : TemplateName) (pullRequests : String) : Program Unit := do
  let (template, source) ← s.resolve template
  let prs ← s.pullRequests source pullRequests
  let plan ← s.plan template source prs
  let styled ← Program.styled
  Program.print (planLines styled plan)
  if !plan.isEmpty then
    Program.print
      ["", remark styled "Run `branch-planner reconcile` with the same arguments to apply"]

/-! ## Reconciling -/

/-- Ask whether to go on. Nobody can be asked without a terminal, and this
program has none. -/
def confirm : Program Unit :=
  let why := "not a terminal"
  Program.fail ("IO error: " ++ why) [why]

/-- Run a pass and print what happens. -/
def runPass (s : Session) (template : Terraform) (source : GitRepository)
    (prs : List PullRequest) : Program Unit := do
  let settings ← read
  let styled ← Program.styled
  let store ← s.store
  let w ← get
  let (result, files, log) :=
    Pass.reconcile store (fun _ => false) template source prs w.files
  set { w with files }
  Program.record log
  Program.print (result.progress.flatMap (progressLines styled settings.quiet))
  match result.outcome with
  | .ok summary => Program.print (summaryLines styled summary)
  | .error (.apply failures) =>
    Program.complain (Text.joinLines (failures.map fun f => complaint styled f.message))
    if ApplyFailures.isRetryable failures then
      Program.print [aside styled "All failures are retryable; run reconcile again"]
    Program.fail
      (Text.counted failures.length "branch operation" "branch operations" ++ " failed")
  | .error e => Program.fail "Reconcile failed" (Failure.ofPass e)

/-- Show what a pass does, and run it. -/
def reconcile (s : Session) (template : TemplateName) (pullRequests : String)
    (dryRun yes : Bool) : Program Unit := do
  let (template, source) ← s.resolve template
  let prs ← s.pullRequests source pullRequests
  let plan ← s.plan template source prs
  let styled ← Program.styled
  Program.print (planLines styled plan)
  if plan.isEmpty && plan.skipped.isEmpty then return ()
  else if dryRun then Program.print ["", "  " ++ remark styled "Dry run - no changes made"]
  else
    if !plan.isEmpty && !yes then confirm
    runPass s template source prs

/-! ## Listing -/

/-- The pull request of a branch, if its objects tell. -/
def pullRequestMark (pair : OwnedPair) : String :=
  let labels := (pair.terraform.map Object.labels).or (pair.source.map Object.labels)
  match labels.bind fun ls => ls.get? pullRequestLabel with
  | some number => " (#" ++ number ++ ")"
  | none => ""

/-- The name of an object that may be missing. -/
def nameOrMissing {k : Kind} (o : Option (Object k)) : String :=
  (o.map Object.name).getD "(missing)"

/-- A branch and its objects. -/
def branchLines (styled : Bool) (e : BranchId × OwnedPair) : List String :=
  ["", "  " ++ Style.cyan.paint styled "•" ++ " " ++ Style.bold.paint styled e.1.text
      ++ pullRequestMark e.2,
    entry styled Kind.terraform.name (nameOrMissing e.2.terraform),
    entry styled Kind.gitRepository.name (nameOrMissing e.2.source)]

/-- An owned object of no branch. -/
def strayLine (styled : Bool) (key : ObjectKey) : String :=
  caution styled
    ("Stray " ++ key.kind.name ++ " " ++ key.name ++ " (deleted on next reconcile)")

/-- What a template owns. -/
def ownedLines (styled : Bool) (template : Terraform) (source : GitRepository)
    (owned : OwnedObjects) : List String :=
  let about :=
    heading styled ("Branch objects of " ++ template.path)
      ++ [entry styled "Source" source.path,
        entry styled "Tracks" (source.trackedBranch.getD "(no branch)")]
  let objects :=
    if owned.pairs.isEmpty && owned.strays.isEmpty then [aside styled "No branch objects"]
    else
      owned.pairs.entries.flatMap (branchLines styled)
        ++ if owned.strays.isEmpty then [] else "" :: owned.strays.map (strayLine styled)
  about ++ objects

/-- Show what a template owns. -/
def list (s : Session) (template : TemplateName) : Program Unit := do
  let (template, source) ← s.resolve template
  let owned ← s.owned template source
  Program.print (ownedLines (← Program.styled) template source owned)

end PlanSync.CommandLine
