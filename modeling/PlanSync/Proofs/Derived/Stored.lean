import PlanSync.Proofs.Derived.Contents
import PlanSync.Proofs.Store.Limits

/-!
# Which derived objects files take

A store in files keeps each object in a file that has the name of the object and an
extension. The names of files are limited, and so are those of objects, but the two limits
do not go together: a derived name may have 253 bytes (`ObjectName.maxLength`), and a file
name of 255 bytes has room for five less (`FileStore.maxStoredBytes`). Nobody asks for the
difference. So of the objects that are derived, an empty store takes those whose names have
at most 250 bytes, and lists them (`Pass.Input.stores_derived`); the others fail whenever
they are created.
-/

namespace PlanSync

/-! ## Derived objects as texts -/

namespace DesiredState

variable {n : Nat}

/-! ### Specs -/

theorem numbers_terraformSpec (template : Terraform) (sourceName : String) (id : BranchId) :
    (terraformSpec template sourceName id).toJson.numbers
      = (TerraformSpec.toJson template.spec).numbers :=
  (TerraformSpec.numbers_toJson _).trans (TerraformSpec.numbers_toJson template.spec).symm

theorem numbers_sourceSpec (source : GitRepository) (headBranch : String) :
    (sourceSpec source headBranch).toJson.numbers
      = (GitRepositorySpec.toJson source.spec).numbers := by
  refine (GitRepositorySpec.numbers_toJson _).trans
    (Eq.trans ?_ (GitRepositorySpec.numbers_toJson source.spec).symm)
  cases hr : GitRepositorySpec.reference source.spec <;> simp only [sourceSpec, hr] <;> rfl

theorem nesting_terraformSpec_le (template : Terraform) (sourceName : String) (id : BranchId)
    (h : (TerraformSpec.toJson template.spec).nesting ≤ n + 3) :
    (terraformSpec template sourceName id).toJson.nesting ≤ n + 3 :=
  (TerraformSpec.nesting_toJson_le_iff _).mpr
    ((TerraformSpec.nesting_toJson_le_iff template.spec).mp h)

theorem nesting_sourceSpec_le (source : GitRepository) (headBranch : String)
    (h : (GitRepositorySpec.toJson source.spec).nesting ≤ n + 2) :
    (sourceSpec source headBranch).toJson.nesting ≤ n + 2 := by
  obtain ⟨href, hkept⟩ := (GitRepositorySpec.nesting_toJson_le_iff source.spec).mp h
  refine (GitRepositorySpec.nesting_toJson_le_iff _).mpr ⟨fun r hr => ?_, hkept⟩
  cases hr
  cases hr : GitRepositorySpec.reference source.spec with
  | none => exact nofun
  | some r => exact href r hr

end DesiredState

namespace Pass.Input

variable {i : Input} {k : Kind} {id : BranchId} {wanted : DesiredState} {pair : DesiredPair}

/-- **Template and source are objects that texts can keep exactly.** -/
structure Textual (i : Input) : Prop where
  template : i.template.Textual
  source : i.source.Textual

theorem Textual.origin (hi : i.Textual) : ∀ k, (i.origin k).Textual
  | .terraform => hi.template
  | .gitRepository => hi.source

theorem Textual.readable (hi : i.Textual) : i.Readable := by
  obtain ⟨d, -, hd⟩ := hi.template.fromJson.exists_document
  obtain ⟨d', -, hd'⟩ := hi.source.fromJson.exists_document
  exact ⟨⟨d, hd⟩, ⟨d', hd'⟩⟩

/-- The numbers in what is derived are those in the spec of its origin. -/
theorem numbers_halfFor (i : Input) (pr : PullRequest) : ∀ k,
    (i.halfFor pr k).toJson.numbers = (k.specJson (i.origin k).spec).numbers
  | .terraform => (Object.numbers_toJson _).trans
      ((List.append_nil _).trans (DesiredState.numbers_terraformSpec ..))
  | .gitRepository => (Object.numbers_toJson _).trans
      ((List.append_nil _).trans (DesiredState.numbers_sourceSpec ..))

/-- What is derived is nested no deeper than its origin may be. -/
theorem nesting_halfFor_le (pr : PullRequest) {n : Nat} : ∀ {k},
    (i.origin k).toJson.nesting ≤ n + 4 → (i.halfFor pr k).toJson.nesting ≤ n + 4
  | .terraform, h => (Object.nesting_toJson_le_iff _).mpr
      ⟨DesiredState.nesting_terraformSpec_le _ _ _ ((Object.nesting_toJson_le_iff _).mp h).1, nofun⟩
  | .gitRepository, h => (Object.nesting_toJson_le_iff _).mpr
      ⟨DesiredState.nesting_sourceSpec_le _ _ ((Object.nesting_toJson_le_iff _).mp h).1, nofun⟩

/-- **What is derived can be kept by a text exactly**, like what it is derived from. -/
theorem textual_half (hi : i.Textual) (h : i.derive? = some wanted)
    (hp : wanted.pairs.get? id = some pair) (k : Kind) : (pair.half k).Textual := by
  obtain ⟨pr, -, rfl, -, rfl⟩ := of_get?_pairs h hp
  show (i.halfFor pr k).Textual
  have hnumbers : ∀ n ∈ (i.halfFor pr k).toJson.numbers, n ∈ (i.origin k).toJson.numbers := by
    intro n hn
    rw [numbers_halfFor] at hn
    rw [Object.numbers_toJson]
    exact List.mem_append_left _ hn
  have hcreation : (i.halfFor pr k).CreationReadsBack := by
    intro now hnow
    cases k <;> cases hnow
  refine ⟨.value (v := (i.halfFor pr k).toJson) (fun n hn => ?_) ?_, fun x hx => ?_, ?_⟩
  · obtain ⟨j, rfl, hfits⟩ := (hi.origin k).exact n (hnumbers n hn)
    exact hfits
  · exact Object.decoder_toJson (tidy_pairFor hi.readable pr k) hcreation
  · exact (hi.origin k).noDouble x (hnumbers _ hx)
  · exact nesting_halfFor_le pr (hi.origin k).shallow

/-! ## Taking them -/

open FileStore (Vacant Roomy store maxStoredBytes dataTree vacant_dataTree)

variable {root : String} {t : FileTree} {clock : FileTree → Timestamp}

theorem namespaceName_half (h : i.derive? = some wanted) (hp : wanted.pairs.get? id = some pair)
    (k : Kind) : (pair.half k).namespaceName = i.template.namespaceName :=
  congrArg ObjectKey.namespaceName (key_half h hp k)

theorem nul_not_mem_half (h : i.derive? = some wanted) (hp : wanted.pairs.get? id = some pair)
    (k : Kind) : '\x00' ∉ (pair.half k).name.toList :=
  ObjectName.not_mem_of_isValid (isValid_name_half h hp k) (by decide) (by decide)

/-- A derived object whose name is too long is never taken. -/
theorem refuses_half (hvacant : Vacant root t) (hclock : ∀ t, (clock t).ReadsBack)
    (hroom : Roomy root i.template.namespaceName) (h : i.derive? = some wanted)
    (hp : wanted.pairs.get? id = some pair) (k : Kind)
    (hlong : maxStoredBytes < (pair.half k).name.utf8ByteSize) (before : List Request) :
    ((Request.create k (pair.half k)).issue (store root clock)
      ((store root clock).after t before)).result = .error (.file .nameTooLong) := by
  have hkey := checkKey_half hroom.storable h hp k
  rw [← namespaceName_half h hp k] at hroom
  exact FileStore.refuses_long hvacant hclock hroom hkey (nul_not_mem_half h hp k) hlong before

/-- **Which derived objects files take.** Let there be room for the files of the template's
namespace in a store that is empty. If the name of an object has at most 250 bytes, the store
takes it, and as far as texts can keep template and source exactly, it is all that is listed
then. If the name is longer, the store never takes the object, whatever it is asked before. -/
theorem stores_derived (hvacant : Vacant root t) (hclock : ∀ t, (clock t).ReadsBack)
    (hroom : Roomy root i.template.namespaceName) (h : i.derive? = some wanted)
    (hp : wanted.pairs.get? id = some pair) (k : Kind) :
    ((pair.half k).name.utf8ByteSize ≤ maxStoredBytes →
        (store root clock).Gives t [] (.create k (pair.half k))
            [⟨k, (pair.half k).stamped (some "1") (some (clock t))⟩]
          ∧ (i.Textual → ∀ selector, (store root clock).Gives t [.create k (pair.half k)]
              (.list k i.template.namespaceName selector)
              (if selector.accepts (pair.half k).labels then
                [⟨k, (pair.half k).stamped (some "1") (some (clock t))⟩] else [])))
      ∧ (maxStoredBytes < (pair.half k).name.utf8ByteSize → ∀ before,
          ((Request.create k (pair.half k)).issue (store root clock)
              ((store root clock).after t before)).result = .error (.file .nameTooLong)) := by
  refine ⟨fun hsize => ?_, refuses_half hvacant hclock hroom h hp k⟩
  have hkey := checkKey_half hroom.storable h hp k
  rw [← namespaceName_half h hp k] at hroom ⊢
  have hkeepable : FileStore.Keepable root (pair.half k).key :=
    (Roomy.keepable_iff hroom (nul_not_mem_half h hp k)).mpr hsize
  obtain ⟨hcreated, hlisted⟩ := hvacant.takes hclock hkey hkeepable
  exact ⟨hcreated, fun hi => hlisted (textual_half hi h hp k)⟩

theorem roomy_team : Roomy "/data" "team" :=
  ⟨by decide, by decide, by decide, by decide, by decide⟩

theorem textual_sampleInput : sampleInput.Textual where
  template :=
    { fromJson := .value (v := sampleInput.template.toJson) (by decide) (by rfl)
      noDouble := fun x hx => by cases hx
      shallow := by decide }
  source :=
    { fromJson := .value (v := sampleInput.source.toJson) (by decide) (by rfl)
      noDouble := fun x hx => by cases hx
      shallow := by decide }

/-- Both objects of a branch are taken and listed. -/
theorem stores_derived_pair :
    Vacant "/data" dataTree ∧ sampleInput.Textual ∧ Roomy "/data" "team"
      ∧ ∃ wanted pair, sampleInput.derive? = some wanted
        ∧ wanted.pairs.get? (.of "topic" 7) = some pair
        ∧ ∀ k, (pair.half k).name.utf8ByteSize ≤ maxStoredBytes
          ∧ (store "/data" fun _ => noon).Gives dataTree [.create k (pair.half k)]
            (.list k "team" {}) [⟨k, (pair.half k).stamped (some "1") (some noon)⟩] := by
  have hids : sampleInput.derive?.map (·.pairs.keys) = some [.of "topic" 7] := by decide +kernel
  obtain ⟨wanted, pair, hw, hp⟩ := exists_get?_of_keys hids (List.mem_singleton_self _)
  refine ⟨vacant_dataTree, textual_sampleInput, roomy_team, wanted, pair, hw, hp, fun k => ?_⟩
  have hsize : (pair.half k).name.utf8ByteSize ≤ maxStoredBytes := by
    have hname : (pair.half k).name = _ := congrArg ObjectKey.name (key_half hw hp k)
    rw [hname]
    cases k <;> decide +kernel
  obtain ⟨htakes, -⟩ := stores_derived (i := sampleInput) vacant_dataTree
    (fun _ => readsBack_noon) roomy_team hw hp k
  exact ⟨hsize, (htakes hsize).2 textual_sampleInput {}⟩

/-- A template with a name of so many letters. -/
def lengthyInput (letters : Nat) : Input :=
  { sampleInput with
    template :=
      { sampleInput.template with
        metadata :=
          { name := String.ofList (List.replicate letters 'a'), namespaceName := "team" } } }

/-- The names that are derived from 243 letters are valid. -/
theorem exists_lengthyPair : ∃ wanted pair, (lengthyInput 243).derive? = some wanted
    ∧ wanted.pairs.get? (.of "topic" 7) = some pair := by
  have hbase : ObjectName.isValid (BranchId.nameFrom (.of "topic" 7) "plan") = true := by
    decide +kernel
  have hletters : ObjectName.isValid (lengthyInput 243).template.name = true := by
    rw [ObjectName.isValid]
    show (_ && ObjectName.accepts false false (String.ofList _).toList) = true
    rw [String.toList_ofList]
    decide +kernel
  have hvalid : (lengthyInput 243).namesValid (.of "topic" 7) = true :=
    Bool.and_eq_true_iff.mpr
      ⟨(BranchId.isValid_nameFrom_iff hbase hletters).mpr (by decide +kernel), by decide +kernel⟩
  have htracked : (lengthyInput 243).source.trackedBranch = some "main" := by decide +kernel
  obtain ⟨wanted, hw⟩ := exists_derive? htracked
  obtain ⟨pair, hp⟩ := exists_get?_pairs hw ⟨List.mem_singleton_self _, htracked⟩
    (badName?_eq_none_iff.mpr hvalid)
  exact ⟨wanted, pair, hw, hp⟩

/-- **A name of 251 bytes is valid, and files do not take it**: the object is derived, and
creating it in an empty store fails. -/
theorem lengthy_not_stored :
    Vacant "/data" dataTree ∧ Roomy "/data" "team"
      ∧ ∃ wanted pair, (lengthyInput 243).derive? = some wanted
        ∧ wanted.pairs.get? (.of "topic" 7) = some pair
        ∧ (pair.half .terraform).name.utf8ByteSize = 251
        ∧ ((Request.create .terraform (pair.half .terraform)).issue
            (store "/data" fun _ => noon) dataTree).result = .error (.file .nameTooLong) := by
  obtain ⟨wanted, pair, hw, hp⟩ := exists_lengthyPair
  have hsize : (pair.half .terraform).name.utf8ByteSize = 251 := by
    have hname : (pair.half .terraform).name = _ := congrArg ObjectKey.name (key_half hw hp _)
    rw [hname]
    decide +kernel
  have hlong : maxStoredBytes < (pair.half .terraform).name.utf8ByteSize := by
    rw [hsize]
    decide
  exact ⟨vacant_dataTree, roomy_team, wanted, pair, hw, hp, hsize,
    refuses_half (i := lengthyInput 243) vacant_dataTree (fun _ => readsBack_noon) roomy_team hw hp
      .terraform hlong []⟩

end Pass.Input

end PlanSync
