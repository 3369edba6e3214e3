import PlanSync.Plan

/-!
# Applying a plan

Every change of a plan is a *unit*. Its steps run in order up to the first
that fails; a unit that fails does not stop the others. Before each step the
unit looks whether the pass has been cancelled, and then fails without issuing
the step. Removing what is already gone is no failure.

A unit advances by one step at a time, so that the steps of several units can
run interleaved; what is reported about them is in the order of the plan
however they ran.
-/

namespace PlanSync

/-- Counts of steps that were applied, and of units that failed. -/
structure ApplySummary where
  created : Nat := 0
  updated : Nat := 0
  deleted : Nat := 0
  failed : Nat := 0
  deriving DecidableEq

namespace ApplySummary

/-- The number of steps that were applied. -/
def total (s : ApplySummary) : Nat := s.created + s.updated + s.deleted

/-- Whether no unit failed. -/
def isSuccess (s : ApplySummary) : Bool := s.failed = 0

/-- Both counts together. -/
def merge (s t : ApplySummary) : ApplySummary :=
  { created := s.created + t.created, updated := s.updated + t.updated,
    deleted := s.deleted + t.deleted, failed := s.failed + t.failed }

/-- Count one more step. -/
def addStep (s : ApplySummary) : Operation → ApplySummary
  | .create => { s with created := s.created + 1 }
  | .update => { s with updated := s.updated + 1 }
  | .delete => { s with deleted := s.deleted + 1 }

end ApplySummary

/-- A step that failed, or a pull request that could not be mirrored. -/
structure ApplyFailure where
  /-- None for owned objects of no branch. -/
  branchId : Option BranchId
  operation : Operation
  kind : Kind
  name : String
  error : StoreError

namespace ApplyFailure

/-- A failure in words. Listed objects are never created, so a name that is
taken belongs to somebody else. -/
def message (f : ApplyFailure) : String :=
  let who :=
    match f.branchId with
    | some id => id.text
    | none => "stray"
  let hint :=
    if f.operation = .create && f.error.isAlreadyExists then
      " (not owned by this template; another template sharing the same source, "
        ++ "or a hand-made object, holds the name)"
    else ""
  who ++ ": " ++ f.operation.verb ++ " " ++ f.kind.name ++ " " ++ f.name ++ ": "
    ++ f.error.message ++ hint

end ApplyFailure

/-- All failures of a pass. -/
abbrev ApplyFailures := List ApplyFailure

namespace ApplyFailures

/-- A list without the items that equal the one before them. -/
def dropRepeats {α : Type} [DecidableEq α] : List α → List α
  | [] => []
  | [a] => [a]
  | a :: b :: rest => if a = b then dropRepeats (b :: rest) else a :: dropRepeats (b :: rest)

/-- The branches with a failure; neighbours with one branch count once. -/
def branchIds (fs : ApplyFailures) : List BranchId :=
  dropRepeats (fs.filterMap ApplyFailure.branchId)

/-- Whether calling again may succeed. -/
def isRetryable (fs : ApplyFailures) : Bool := fs.all fun f => f.error.isRetryable

/-- All failures in words. -/
def message (fs : ApplyFailures) : String :=
  Text.decimal fs.length ++ " branch operation(s) failed"
    ++ String.join (fs.map fun f => "; " ++ f.message)

end ApplyFailures

/-- What a pass tells its caller while it applies a plan. -/
inductive Progress where
  | started (units : Nat)
  | applied (change : BranchChange)
  | failed (change : BranchChange) (error : StoreError)
  | completed

/-- The result of applying a plan. -/
structure ApplyReport where
  summary : ApplySummary := {}
  failures : ApplyFailures := []
  progress : List Progress := []

/-! ## Units -/

/-- A unit that is being applied. -/
structure UnitRun where
  change : BranchChange
  /-- The steps that are still to come. -/
  remaining : List Step
  summary : ApplySummary := {}
  failure : Option ApplyFailure := none

namespace Step

/-- Issue the store call of a step. -/
def issue {σ : Type} (store : Store σ) : Step → Call σ Unit
  | create k o => do
    let _ ← store.create k o
    return ()
  | update k _ o => do
    let _ ← store.update k o
    return ()
  | delete key => store.delete key.kind key.namespaceName key.name

/-- Removing what is already gone counts as done. -/
def settle {σ : Type} (step : Step) (r : Outcome σ StoreError Unit) : Outcome σ StoreError Unit :=
  match step, r.result with
  | delete key, .error e =>
    if e.isNotFound then
      { result := .ok (), state := r.state,
        log := r.log
          ++ [⟨.debug, .application, key.kind.name ++ " " ++ key.path ++ " already gone"⟩] }
    else r
  | _, _ => r

/-- Run a step, unless the pass has been cancelled. -/
def run {σ : Type} (store : Store σ) (cancelled : σ → Bool) (step : Step) : Call σ Unit :=
  fun s => if cancelled s then Action.fail .cancelled s else step.settle (step.issue store s)

end Step

namespace UnitRun

variable {σ : Type}

/-- A unit before its first step. -/
def start (change : BranchChange) : UnitRun := { change, remaining := change.steps }

/-- The failure of a unit at a step. -/
def failureAt (u : UnitRun) (step : Step) (error : StoreError) : ApplyFailure :=
  { branchId := u.change.branchId, operation := step.operation, kind := step.key.kind,
    name := step.key.name, error }

/-- What is reported about a step. -/
def reportStep (u : UnitRun) (step : Step) : Except StoreError Unit → LogEntry
  | .ok () => ⟨.debug, .application, u.change.label ++ ": " ++ step.describe⟩
  | .error e =>
    ⟨.warn, .application,
      u.change.label ++ ": " ++ step.describe ++ " failed: " ++ e.message⟩

/-- The unit after a step with the given result. -/
def after (u : UnitRun) (step : Step) (rest : List Step) : Except StoreError Unit → UnitRun
  | .ok () => { u with remaining := rest, summary := u.summary.addStep step.operation }
  | .error e => { u with failure := some (u.failureAt step e) }

/-- Run the next step of a unit, if it has one. -/
def advance (store : Store σ) (cancelled : σ → Bool) (u : UnitRun) (s : σ) : UnitRun × σ × Log :=
  match u.failure, u.remaining with
  | none, step :: rest =>
    let r := step.run store cancelled s
    (u.after step rest r.result, r.state, r.log ++ [u.reportStep step r.result])
  | _, _ => (u, s, [])

/-- Run up to `n` further steps of a unit. -/
def advanceBy (store : Store σ) (cancelled : σ → Bool) : Nat → UnitRun → σ → UnitRun × σ × Log
  | 0, u, s => (u, s, [])
  | n + 1, u, s =>
    let (u, s, log) := u.advance store cancelled s
    let (u, s, log') := advanceBy store cancelled n u s
    (u, s, log ++ log')

/-- Run a unit to its end. -/
def finish (store : Store σ) (cancelled : σ → Bool) (u : UnitRun) (s : σ) : UnitRun × σ × Log :=
  advanceBy store cancelled u.remaining.length u s

/-- What the caller is told about a finished unit. -/
def progress (u : UnitRun) : Progress :=
  match u.failure with
  | none => .applied u.change
  | some f => .failed u.change f.error

/-- The counts of a finished unit. -/
def finalSummary (u : UnitRun) : ApplySummary :=
  if u.failure.isSome then { u.summary with failed := u.summary.failed + 1 } else u.summary

end UnitRun

namespace ApplyReport

/-- The report on finished units, in the order of the plan. -/
def ofUnits (units : List UnitRun) : ApplyReport :=
  if units.isEmpty then {}
  else
    { summary := (units.map UnitRun.finalSummary).foldl ApplySummary.merge {}
      failures := units.filterMap UnitRun.failure
      progress := .started units.length :: units.map UnitRun.progress ++ [.completed] }

end ApplyReport

namespace Plan

variable {σ : Type}

/-- Run units one after the other. -/
def runUnits (store : Store σ) (cancelled : σ → Bool) :
    List UnitRun → σ → List UnitRun × σ × Log
  | [], s => ([], s, [])
  | u :: us, s =>
    let (u, s, log) := u.finish store cancelled s
    let (us, s, log') := runUnits store cancelled us s
    (u :: us, s, log ++ log')

/-- Apply a plan. -/
def apply (store : Store σ) (cancelled : σ → Bool) (plan : Plan) (s : σ) :
    ApplyReport × σ × Log :=
  let (units, s, log) := runUnits store cancelled (plan.changes.map .start) s
  (.ofUnits units, s, log)

end Plan

end PlanSync
