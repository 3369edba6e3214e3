import PlanSync.Object.Overwrite
import PlanSync.Owned

/-!
# Plans

The steps that turn what a template owns into what should exist. Steps are
grouped by branch, in the order in which they must run: a source is created or
updated before the configuration that reads it, and deleted after it. Owned
objects of no branch are deleted, each on its own, after all branches.
-/

namespace PlanSync

/-- What a step does to the store. -/
inductive Operation where
  | create
  | update
  | delete
  deriving DecidableEq

namespace Operation

/-- An operation in words. -/
def verb : Operation → String
  | create => "create"
  | update => "update"
  | delete => "delete"

end Operation

/-- One store operation. -/
inductive Step where
  | create (k : Kind) (object : Object k)
  /-- Replace `current` by `updated`, which is `current` with the owned fields
  written over it. -/
  | update (k : Kind) (current updated : Object k)
  | delete (key : ObjectKey)

namespace Step

def operation : Step → Operation
  | create .. => .create
  | update .. => .update
  | delete _ => .delete

/-- The object a step is about. -/
def key : Step → ObjectKey
  | create _ o => o.key
  | update _ _ o => o.key
  | delete key => key

/-- Operation, kind and name, as messages show them. -/
def describe (s : Step) : String :=
  s.operation.verb ++ " " ++ s.key.kind.name ++ " " ++ s.key.name

end Step

/-- The steps for one branch, or for one owned object of no branch. -/
structure BranchChange where
  branchId : Option BranchId
  steps : List Step

namespace BranchChange

/-- How messages call a change. -/
def label (c : BranchChange) : String :=
  match c.branchId with
  | some id => id.text
  | none => "stray " ++ (c.steps.head?.map fun s => s.key.name).getD ""

end BranchChange

/-- Everything a pass does. -/
structure Plan where
  /-- The branches that need steps, by id, and then the strays. -/
  changes : List BranchChange := []
  /-- The branches that need none. -/
  unchanged : List BranchId := []
  skipped : List Skipped := []

/-- How many steps of each sort a plan has. -/
structure PlanSummary where
  creates : Nat := 0
  updates : Nat := 0
  deletes : Nat := 0
  /-- The number of changes. -/
  branches : Nat := 0
  deriving DecidableEq

namespace PlanSummary

/-- The number of steps. -/
def total (s : PlanSummary) : Nat := s.creates + s.updates + s.deletes

/-- Whether there are any. -/
def hasChanges (s : PlanSummary) : Bool := 0 < s.total

end PlanSummary

namespace Plan

/-- All steps, in the order of the plan. -/
def steps (p : Plan) : List Step := p.changes.flatMap BranchChange.steps

/-- The number of steps of a sort. -/
def count (p : Plan) (op : Operation) : Nat := p.steps.countP fun s => s.operation = op

def summary (p : Plan) : PlanSummary :=
  { creates := p.count .create, updates := p.count .update, deletes := p.count .delete,
    branches := p.changes.length }

/-- Whether there is nothing to do. -/
def isEmpty (p : Plan) : Bool := p.changes.isEmpty

/-! ## Computing a plan -/

/-- The step that makes a stored object, if any, what it should be. -/
def converge? {k : Kind} (current : Option (Object k)) (desired : Object k) : Option Step :=
  match current with
  | none => some (.create k desired)
  | some o => if o.differsFrom desired then some (.update k o (o.overwrite desired)) else none

/-- The steps for a desired branch: source first. -/
def convergeSteps (current : OwnedPair) (desired : DesiredPair) : List Step :=
  (converge? current.source desired.source).toList
    ++ (converge? current.terraform desired.terraform).toList

/-- The steps for a branch that is not desired: source last. -/
def removeSteps (current : OwnedPair) : List Step :=
  current.terraform.toList.map (fun o => .delete o.key)
    ++ current.source.toList.map (fun o => .delete o.key)

/-- The steps of every desired branch. -/
def desiredSteps (desired : DesiredState) (owned : OwnedObjects) : List (BranchId × List Step) :=
  desired.pairs.entries.map fun e => (e.1, convergeSteps (owned.pairOf e.1) e.2)

/-- The steps of every owned branch that is not desired. -/
def obsoleteSteps (desired : DesiredState) (owned : OwnedObjects) :
    List (BranchId × List Step) :=
  (owned.pairs.entries.filter fun e => !desired.pairs.contains e.1).map fun e =>
    (e.1, removeSteps e.2)

/-- The plan that turns what is owned into what is desired. -/
def compute (desired : DesiredState) (owned : OwnedObjects) : Plan :=
  let wanted := desiredSteps desired owned
  let branches :=
    ((wanted.filter fun e => !e.2.isEmpty) ++ obsoleteSteps desired owned).mergeSort fun a b =>
      a.1 ≤ b.1
  { changes :=
      branches.map (fun e => ⟨some e.1, e.2⟩)
        ++ owned.strays.map fun key => ⟨none, [.delete key]⟩
    unchanged := (wanted.filter fun e => e.2.isEmpty).map Prod.fst
    skipped := desired.skipped }

end Plan

end PlanSync
