import PlanSync.Repository
import PlanSync.SortedMap
import PlanSync.Text.Decimal

/-!
# Pull requests and branch ids

An open pull request asks to merge its head branch into its base branch. Its
branch id, `head-number`, keys everything that is derived for it, and objects
derived for it are named `base-id` after the object they are derived from.

Since a decimal numeral holds no dash, head and number can be told apart in an
id; and given the base and the number, the id can be told from a name.
-/

namespace PlanSync

/-- An open pull request. -/
structure PullRequest where
  repository : Repository
  number : Nat
  baseBranch : String
  headBranch : String
  deriving DecidableEq

/-- The key of a derived pair. -/
structure BranchId where
  text : String
  deriving DecidableEq

namespace BranchId

instance : LE BranchId := ⟨fun a b => a.text ≤ b.text⟩

instance : LT BranchId := ⟨fun a b => a.text < b.text⟩

instance : DecidableLT BranchId := fun a b => inferInstanceAs (Decidable (a.text < b.text))

instance : DecidableLE BranchId := fun a b => inferInstanceAs (Decidable (a.text ≤ b.text))

instance : Std.IsLinearOrder BranchId where
  le_refl a := Std.le_refl a.text
  le_trans _ _ _ h h' := Std.le_trans (α := String) h h'
  le_antisymm a b h h' := by
    have := Std.le_antisymm (α := String) h h'
    cases a; cases b; simp_all
  le_total a b := Std.le_total (a := a.text) (b := b.text)

instance : Std.LawfulOrderLT BranchId where
  lt_iff a b := Std.LawfulOrderLT.lt_iff a.text b.text

/-- `head-number`. -/
def of (headBranch : String) (number : Nat) : BranchId :=
  ⟨headBranch ++ "-" ++ Text.decimal number⟩

/-- The name of the object derived for an id from one of the given name. -/
def nameFrom (id : BranchId) (base : String) : String := base ++ "-" ++ id.text

/-- The id in a derived name: the name must begin with the base and a dash,
what follows must end in a dash and the given number with something before
them, and the number must be one. -/
def ofName? (name base number : String) : Option BranchId := do
  let rest ← Text.dropStart? base name
  let id ← Text.dropStart? "-" rest
  let head ← Text.dropEnd? number id
  let head ← Text.dropEnd? "-" head
  if head = "" || (Text.readWord? number).isNone then none else some ⟨id⟩

end BranchId

namespace PullRequest

/-- The key of what is derived for a pull request. -/
def branchId (pr : PullRequest) : BranchId := .of pr.headBranch pr.number

/-! ## JSON -/

/-- The pull request as an object. -/
def toJson (pr : PullRequest) : Json :=
  .object
    [("repository", pr.repository.toJson), ("number", .ofNat pr.number),
      ("baseBranch", .string pr.baseBranch), ("headBranch", .string pr.headBranch)]

/-- The fields of a pull request, in the order they are written. -/
def fields : List Decoder.FieldCheck :=
  [.of "repository" Repository.decoder, .of "number" Decoder.word,
    .of "baseBranch" Decoder.string, .of "headBranch" Decoder.string]

/-- A pull request is a closed record. -/
def decoder : Decoder PullRequest := fun d => do
  let taken ← Decoder.closedRecord fields d
  let repository ← taken.required "repository" Repository.decoder
  let number ← taken.required "number" Decoder.word
  let baseBranch ← taken.required "baseBranch" Decoder.string
  let headBranch ← taken.required "headBranch" Decoder.string
  return { repository, number, baseBranch, headBranch }

/-- A list of pull requests. -/
def listDecoder : Decoder (List PullRequest) := Decoder.list decoder

end PullRequest

end PlanSync
