import PlanSync.Derived
import PlanSync.Store.Basic

/-!
# What a template owns

The objects that were derived from a template earlier. Labels alone decide
ownership: the owner marker and the exact name of the template. Names are used
afterwards to tell the branch an object belongs to, and an owned object whose
name tells none is a *stray*. The template and its source are never owned,
whatever their labels say.
-/

namespace PlanSync

/-- Selects the objects derived from a template. -/
def ownerSelector (template : String) : Selector :=
  (Selector.requiring {} ownerLabel "true").requiring templateLabel template

/-- The stored objects of a branch; one may be missing after a pass that
failed half way. -/
structure OwnedPair where
  terraform : Option Terraform := none
  source : Option GitRepository := none

/-- What a template owns. -/
structure OwnedObjects where
  pairs : SortedMap BranchId OwnedPair := .empty
  /-- Owned objects of no branch, by kind, namespace and name. -/
  strays : List ObjectKey := []

namespace OwnedPair

/-- The number of objects of a pair. -/
def size (p : OwnedPair) : Nat := p.terraform.toList.length + p.source.toList.length

end OwnedPair

namespace OwnedObjects

/-- The number of owned objects. -/
def size (owned : OwnedObjects) : Nat :=
  owned.pairs.values.foldr (fun p n => p.size + n) owned.strays.length

/-- The pair of a branch, if any. -/
def pairOf (owned : OwnedObjects) (id : BranchId) : OwnedPair := (owned.pairs.get? id).getD {}

/-! ## Telling branches from names -/

/-- How an object that carries the owner labels stands to its template. -/
inductive Standing where
  /-- It is the template or the source itself. -/
  | itself
  | ofBranch (id : BranchId)
  | stray
  deriving DecidableEq

/-- The branch an object belongs to, told from its name, the name it was
derived from, and its pull request label. -/
def branchIdOf? {k : Kind} (o : Object k) (base : String) : Option BranchId := do
  let number ← o.labels.get? pullRequestLabel
  BranchId.ofName? o.name base number

/-- How an object stands to the one it may have been derived from. -/
def standing {k : Kind} (origin o : Object k) : Standing :=
  if o.namespaceName = origin.namespaceName ∧ o.name = origin.name then .itself
  else
    match branchIdOf? o origin.name with
    | some id => .ofBranch id
    | none => .stray

/-- Take an owned configuration into account. -/
def addTerraform (template : Terraform) (owned : OwnedObjects) (o : Terraform) : OwnedObjects :=
  match standing template o with
  | .itself => owned
  | .ofBranch id =>
    { owned with pairs := owned.pairs.insert id { owned.pairOf id with terraform := some o } }
  | .stray => { owned with strays := owned.strays ++ [o.key] }

/-- Take an owned source into account. -/
def addSource (source : GitRepository) (owned : OwnedObjects) (o : GitRepository) :
    OwnedObjects :=
  match standing source o with
  | .itself => owned
  | .ofBranch id =>
    { owned with pairs := owned.pairs.insert id { owned.pairOf id with source := some o } }
  | .stray => { owned with strays := owned.strays ++ [o.key] }

/-- What a template owns, from the objects that carry its labels. -/
def ofListed (template : Terraform) (source : GitRepository) (terraforms : List Terraform)
    (sources : List GitRepository) : OwnedObjects :=
  let owned := sources.foldl (addSource source) (terraforms.foldl (addTerraform template) {})
  { owned with strays := owned.strays.mergeSort fun a b => a ≤ b }

/-! ## Reports -/

/-- What is reported about an owned object that belongs to no branch. -/
def reportStray (key : ObjectKey) : LogEntry :=
  ⟨.debug, .ownership, key.kind.name ++ " " ++ key.path ++ " is owned but matches no branch"⟩

/-- What is reported about an object, given what to say if it is the template
or source itself. -/
def reportOn {k : Kind} (origin : Object k) (itself : Object k → String) (o : Object k) : Log :=
  match standing origin o with
  | .itself => [⟨.warn, .ownership, itself o⟩]
  | .ofBranch _ => []
  | .stray => [reportStray o.key]

/-- What is reported about a listing. -/
def reportListed (template : Terraform) (source : GitRepository) (terraforms : List Terraform)
    (sources : List GitRepository) : Log :=
  [⟨.debug, .ownership,
      "Found " ++ Text.decimal terraforms.length ++ " owned Terraform and "
        ++ Text.decimal sources.length ++ " owned GitRepository objects in "
        ++ template.namespaceName ++ " (" ++ (ownerSelector template.name).display ++ ")"⟩]
    ++ terraforms.flatMap
      (reportOn template fun o =>
        "Template " ++ o.path ++ " carries the owner labels of its own branch objects; "
          ++ "ignoring them")
    ++ sources.flatMap
      (reportOn source fun o =>
        "Source " ++ o.path ++ " carries the owner labels of " ++ template.path
          ++ "; ignoring them")

/-! ## Listing -/

/-- List what a template owns. Derived objects live in its namespace. -/
def listIn {σ : Type} (store : Store σ) (template : Terraform) (source : GitRepository) :
    Call σ OwnedObjects := do
  let selector := ownerSelector template.name
  let terraforms ← store.list .terraform template.namespaceName selector
  let sources ← store.list .gitRepository template.namespaceName selector
  Action.report (reportListed template source terraforms sources)
  return ofListed template source terraforms sources

end OwnedObjects

end PlanSync
