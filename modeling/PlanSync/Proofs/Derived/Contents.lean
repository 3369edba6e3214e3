import PlanSync.Proofs.Derived.Names
import PlanSync.Proofs.Object.Rendered
import PlanSync.Proofs.Pass.Outcome

/-!
# What derivation produces

For a source that follows a branch, derivation gives a state that can be told from the
input without the way it is computed (`Pass.Input.Derives`): which pull requests have a
pair and which are skipped, what is in a pair (`Pass.Input.CopiedFor`), and which names
never meet.

Half of what a pair holds is what it leaves alone. Specs are compared as they are written,
so that nothing of what is kept beside the known fields gets lost, is brought in, or takes
the place of a field: they are equal at every path but those that derivation sets
(`Pass.Input.overrides`). For this, template and source must be objects that reading can
give.
-/

namespace PlanSync

namespace Pass.Input

variable {i : Input} {tracked : String} {wanted : DesiredState} {id : BranchId}
  {pair : DesiredPair}

/-! ## Specs -/

/-- **What derivation sets in a spec**: where, and what stands there then. A secret is given
another name, if there is one. -/
def overrides (i : Input) (pr : PullRequest) : Kind → List (List String × Option Json)
  | .terraform =>
    [(["sourceRef", "name"], some (.string (i.derivedKey .gitRepository pr.branchId).name)),
      (["sourceRef", "namespace"], some (.string i.template.namespaceName)),
      (["planOnly"], some (.bool true)),
      (["storeReadablePlan"], some (.string "human")),
      (["writeOutputsToSecret", "name"],
        i.template.outputsSecret.map fun s => .string (pr.branchId.nameFrom s.name))]
  | .gitRepository => [(["ref", "branch"], some (.string pr.headBranch))]

/-- The halves of the pair for a pull request. -/
def halfFor (i : Input) (pr : PullRequest) (k : Kind) : Object k :=
  (DesiredState.pairFor i.template i.source pr).half k

theorem tidy_halfFor (hi : i.Readable) (pr : PullRequest) (k : Kind) :
    k.TidySpec (i.halfFor pr k).spec := (tidy_pairFor hi pr k).spec

theorem tidy_origin (hi : i.Readable) (k : Kind) : k.TidySpec (i.origin k).spec := by
  cases k with
  | terraform => exact (Object.tidy_of_readable hi.template).spec
  | gitRepository => exact (Object.tidy_of_readable hi.source).spec

/-- **What derivation sets is set.** -/
theorem at?_override (hi : i.Readable) (pr : PullRequest) (k : Kind) :
    ∀ e ∈ i.overrides pr k, (i.halfFor pr k).renderedSpec.at? e.1 = e.2 := by
  intro e he
  cases k with
  | terraform =>
    have hfield := TerraformSpec.field?_toJson (tidy_halfFor hi pr .terraform)
    show Json.at? e.1 (TerraformSpec.toJson (i.halfFor pr .terraform).spec).sortKeys = e.2
    simp only [overrides, List.mem_cons, List.not_mem_nil, or_false] at he
    rcases he with rfl | rfl | rfl | rfl | rfl
    · rw [Json.at?, hfield, if_pos rfl, Option.bind_some, Json.at?_singleton,
        SourceReference.field?_toJson, if_neg (by decide), if_pos rfl]
      rfl
    · rw [Json.at?, hfield, if_pos rfl, Option.bind_some, Json.at?_singleton,
        SourceReference.field?_toJson, if_neg (by decide), if_neg (by decide), if_pos rfl]
      rfl
    · rw [Json.at?_singleton, hfield]
      rfl
    · rw [Json.at?_singleton, hfield]
      rfl
    · have hsecret : TerraformSpec.outputsSecret (i.halfFor pr .terraform).spec
          = i.template.outputsSecret.map fun s =>
            { s with name := pr.branchId.nameFrom s.name } := rfl
      rw [Json.at?, hfield, if_neg (by decide), if_pos rfl, hsecret]
      cases i.template.outputsSecret with
      | none => rfl
      | some s =>
        rw [Option.map_some, Option.map_some, Option.bind_some, Json.at?_singleton,
          OutputsSecret.field?_toJson, if_pos rfl]
        rfl
  | gitRepository =>
    have hfield := GitRepositorySpec.field?_toJson (tidy_halfFor hi pr .gitRepository)
    cases List.mem_singleton.mp he
    show Json.at? _ (GitRepositorySpec.toJson (i.halfFor pr .gitRepository).spec).sortKeys = _
    have href : GitRepositorySpec.reference (i.halfFor pr .gitRepository).spec
        = some { (GitRepositorySpec.reference i.source.spec).getD {} with
          branch := some pr.headBranch } := rfl
    have htidy := (tidy_halfFor hi pr .gitRepository).2 _ href
    rw [Json.at?, hfield, if_neg (by decide), if_pos rfl, href, Option.map_some,
      Option.bind_some, Json.at?_singleton, RepositoryRef.field?_toJson htidy, if_pos rfl]
    rfl

/-- **Everything else in a spec is left alone.** -/
theorem eqBut_overrides (hi : i.Readable) (htracked : i.source.trackedBranch = some tracked)
    (pr : PullRequest) (k : Kind) :
    Json.EqBut ((i.overrides pr k).map Prod.fst) (i.halfFor pr k).renderedSpec
      (i.origin k).renderedSpec := by
  cases k with
  | terraform =>
    refine TerraformSpec.eqBut (tidy_halfFor hi pr .terraform) (tidy_origin hi .terraform)
      rfl ?_ rfl
    show (i.template.outputsSecret.map _).map _ = i.template.outputsSecret.map _
    rw [Option.map_map]
    rfl
  | gitRepository =>
    obtain ⟨r, hr⟩ : ∃ r, GitRepositorySpec.reference i.source.spec = some r := by
      obtain ⟨r, hr, -⟩ := Option.bind_eq_some_iff.mp (Option.filter_eq_some_iff.mp htracked).1
      exact ⟨r, hr⟩
    refine GitRepositorySpec.eqBut (tidy_halfFor hi pr .gitRepository)
      (tidy_origin hi .gitRepository) rfl rfl hr ?_ rfl
    rw [hr]
    rfl

/-- **There is a secret for outputs** exactly if the template has one. -/
theorem secret_halfFor (hi : i.Readable) (pr : PullRequest) :
    ((i.halfFor pr .terraform).renderedSpec.at? ["writeOutputsToSecret"]).isSome
      = (i.template.renderedSpec.at? ["writeOutputsToSecret"]).isSome := by
  have hfield : ∀ {s : TerraformSpec}, s.Tidy →
      (s.toJson.sortKeys.at? ["writeOutputsToSecret"]).isSome = s.outputsSecret.isSome := by
    intro s hs
    rw [Json.at?_singleton, TerraformSpec.field?_toJson hs, if_neg (by decide), if_pos rfl,
      Option.isSome_map]
  refine (hfield (tidy_halfFor hi pr .terraform)).trans
    (Eq.trans ?_ (hfield (tidy_origin hi .terraform)).symm)
  exact Option.isSome_map

/-! ## Pairs -/

/-- **A pair is copied for a pull request.** -/
structure CopiedFor (i : Input) (pr : PullRequest) (pair : DesiredPair) : Prop where
  /-- The pair says which it is for. -/
  noted : pair.pullRequest = pr ∧ pair.branchId = pr.branchId
  /-- The configuration reads the source of the pair. -/
  reads : pair.terraform.sourceRef.name = pair.source.name
    ∧ pair.terraform.sourceRef.namespaceName = some pair.source.namespaceName
  /-- Both objects live beside the template. -/
  beside : ∀ k, (pair.half k).namespaceName = i.template.namespaceName
  /-- They have neither what a store assigns nor a status. -/
  fresh : ∀ k, (pair.half k).metadata.resourceVersion = none
    ∧ (pair.half k).metadata.creationTimestamp = none ∧ (pair.half k).status = none
  /-- Labels are taken over, under the owner labels. -/
  labels : ∀ k key, (pair.half k).labels.get? key
    = ((ownerLabels i.template.name pr.number).get? key).or ((i.origin k).labels.get? key)
  /-- In the spec stands what derivation sets, -/
  sets : ∀ k, ∀ e ∈ i.overrides pr k, (pair.half k).renderedSpec.at? e.1 = e.2
  /-- and everything else as it was. -/
  leaves : ∀ k, Json.EqBut ((i.overrides pr k).map Prod.fst) (pair.half k).renderedSpec
    (i.origin k).renderedSpec
  /-- A secret for outputs is there if it was. -/
  secret : (pair.terraform.renderedSpec.at? ["writeOutputsToSecret"]).isSome
    = (i.template.renderedSpec.at? ["writeOutputsToSecret"]).isSome

theorem copiedFor_pairFor (hi : i.Readable) (htracked : i.source.trackedBranch = some tracked)
    (pr : PullRequest) : i.CopiedFor pr (DesiredState.pairFor i.template i.source pr) where
  noted := ⟨rfl, rfl⟩
  reads := ⟨rfl, rfl⟩
  beside k := by cases k <;> rfl
  fresh k := by cases k <;> exact ⟨rfl, rfl, rfl⟩
  labels := get?_labels_half i pr
  sets := at?_override hi pr
  leaves := eqBut_overrides hi htracked pr
  secret := secret_halfFor hi pr

/-- **Different branches have different names**: those of two pairs are never the same. -/
theorem names_ne (h : i.derive? = some wanted) {id' : BranchId} {pair' : DesiredPair}
    (hp : wanted.pairs.get? id = some pair) (hp' : wanted.pairs.get? id' = some pair')
    (hne : id ≠ id') :
    (∀ k, (pair.half k).name ≠ (pair'.half k).name)
      ∧ ∀ s s', pair.terraform.outputsSecret = some s → pair'.terraform.outputsSecret = some s' →
        s.name ≠ s'.name := by
  refine ⟨fun k hname => hne ?_, fun s s' hs hs' hname => hne ?_⟩
  · have hkey := congrArg ObjectKey.name (key_half h hp k)
    have hkey' := congrArg ObjectKey.name (key_half h hp' k)
    exact BranchId.nameFrom_injective (hkey.symm.trans (hname.trans hkey'))
  · rw [outputsSecret_terraform h hp] at hs
    rw [outputsSecret_terraform h hp'] at hs'
    -- both secrets are copied from the one of the template
    obtain ⟨t, ht, rfl⟩ := Option.map_eq_some_iff.mp hs
    obtain ⟨t', ht', rfl⟩ := Option.map_eq_some_iff.mp hs'
    cases ht.symm.trans ht'
    exact BranchId.nameFrom_injective hname

/-- **No copy has the name of what it is copied from.** -/
theorem name_ne_origin (h : i.derive? = some wanted) (hp : wanted.pairs.get? id = some pair) :
    (∀ k, (pair.half k).name ≠ (i.origin k).name)
      ∧ ∀ s t, pair.terraform.outputsSecret = some s → i.template.outputsSecret = some t →
        s.name ≠ t.name := by
  refine ⟨fun k hname => ?_, fun s t hs ht hname => ?_⟩
  · have hkey := congrArg ObjectKey.name (key_half h hp k)
    exact BranchId.nameFrom_ne id _ (hkey.symm.trans hname)
  · rw [outputsSecret_terraform h hp, ht, Option.map_some] at hs
    cases hs
    exact BranchId.nameFrom_ne id _ hname

/-! ## The whole -/

/-- **What is skipped**: the pull requests that target the branch and have a bad name. -/
theorem skipped_of_tracked (h : i.derive? = some wanted)
    (htracked : i.source.trackedBranch = some tracked) :
    wanted.skipped
      = (i.pullRequests.filter fun pr =>
          pr.baseBranch = tracked ∧ i.namesValid pr.branchId = false).map fun pr =>
        ⟨pr.branchId, i.badName pr.branchId⟩ := by
  rw [skipped_eq h, ← List.filterMap_eq_map, ← List.filterMap_eq_filter,
    List.filterMap_filterMap]
  refine congrArg (List.filterMap · _) (funext fun pr => ?_)
  rw [skipped?, htracked, badName?_eq, Option.guard]
  by_cases htargets : pr.baseBranch = tracked
  · cases i.namesValid pr.branchId <;> simp [htargets]
  · simp [htargets, Ne.symm htargets]

/-- **What is derived from an input** whose source follows the given branch. -/
structure Derives (i : Input) (tracked : String) (wanted : DesiredState) : Prop where
  /-- Pull requests that target the branch have a pair, if both names are valid, -/
  ids : ∀ id, id ∈ wanted.pairs.keys
    ↔ ∃ pr ∈ i.pullRequests, pr.baseBranch = tracked ∧ i.namesValid id = true ∧ pr.branchId = id
  /-- and the others are skipped, in their order. -/
  skipped : wanted.skipped
    = (i.pullRequests.filter fun pr =>
        pr.baseBranch = tracked ∧ i.namesValid pr.branchId = false).map fun pr =>
      ⟨pr.branchId, i.badName pr.branchId⟩
  /-- A pair is copied for a pull request of its branch. -/
  pairs : ∀ id pair, wanted.pairs.get? id = some pair → ∃ pr ∈ i.pullRequests,
    pr.baseBranch = tracked ∧ pr.branchId = id ∧ i.CopiedFor pr pair
  /-- Names of two pairs differ, -/
  distinct : ∀ id id' pair pair', wanted.pairs.get? id = some pair →
    wanted.pairs.get? id' = some pair' → id ≠ id' →
      (∀ k, (pair.half k).name ≠ (pair'.half k).name)
        ∧ ∀ s s', pair.terraform.outputsSecret = some s →
          pair'.terraform.outputsSecret = some s' → s.name ≠ s'.name
  /-- and from the names of what is copied. -/
  renamed : ∀ id pair, wanted.pairs.get? id = some pair →
    (∀ k, (pair.half k).name ≠ (i.origin k).name)
      ∧ ∀ s t, pair.terraform.outputsSecret = some s → i.template.outputsSecret = some t →
        s.name ≠ t.name

/-- **A source that follows a branch leads to what should be derived.** -/
theorem derives_of_tracked (hi : i.Readable) (htracked : i.source.trackedBranch = some tracked) :
    ∃ wanted, i.derive? = some wanted ∧ i.Derives tracked wanted := by
  obtain ⟨wanted, h⟩ := exists_derive? htracked
  have hbase : ∀ {pr}, i.Targets pr ↔ pr ∈ i.pullRequests ∧ pr.baseBranch = tracked := by
    intro pr
    rw [Targets, htracked, Option.some.injEq, eq_comm (a := tracked)]
  refine ⟨wanted, h, fun id => ?_, ?_, fun id pair hp => ?_,
    fun _ _ _ _ => names_ne h, fun _ _ => name_ne_origin h⟩
  · rw [SortedMap.mem_keys_iff]
    constructor
    · rintro ⟨pair, hp⟩
      obtain ⟨pr, hpr, rfl, hbad, -⟩ := of_get?_pairs h hp
      obtain ⟨hmem, htargets⟩ := hbase.mp hpr
      exact ⟨pr, hmem, htargets, badName?_eq_none_iff.mp hbad, rfl⟩
    · rintro ⟨pr, hpr, htargets, hvalid, rfl⟩
      exact exists_get?_pairs h (hbase.mpr ⟨hpr, htargets⟩) (badName?_eq_none_iff.mpr hvalid)
  · exact skipped_of_tracked h htracked
  · obtain ⟨pr, hpr, rfl, -, rfl⟩ := of_get?_pairs h hp
    obtain ⟨hmem, htargets⟩ := hbase.mp hpr
    exact ⟨pr, hmem, htargets, rfl, copiedFor_pairFor hi htracked pr⟩

/-- An input with everything that is copied: a secret, members that are kept beside known
fields, labels; and pull requests that are mirrored, skipped and ignored. -/
def furnishedInput : Input where
  template :=
    { metadata := { name := "plan", namespaceName := "team", labels := .ofList [("app", "web")] }
      spec :=
        ({ sourceRef := { kind := "GitRepository", name := "repo" }
           outputsSecret := some { name := "outputs", outputs := ["url"] }
           readablePlan := some "json"
           passthrough := .ofList [("path", .string "./infra")] } : TerraformSpec) }
  source :=
    { metadata := { name := "repo", namespaceName := "sources" }
      spec :=
        ({ url := "https://example.com/repo"
           reference := some
             { branch := some "main", passthrough := .ofList [("tag", .string "v1")] }
           passthrough := .ofList [("interval", .string "1m")] } : GitRepositorySpec) }
  pullRequests :=
    [{ repository := { org := "org", name := "repo" }, number := 7, baseBranch := "main",
       headBranch := "topic" },
      { repository := { org := "org", name := "repo" }, number := 8, baseBranch := "main",
        headBranch := "Topic" },
      { repository := { org := "org", name := "repo" }, number := 9, baseBranch := "release",
        headBranch := "topic" },
      { repository := { org := "org", name := "repo" }, number := 10, baseBranch := "main",
        headBranch := "topic" }]

theorem readable_furnishedInput : furnishedInput.Readable where
  template := by
    refine Object.readable_of_tidy ⟨?_, fun _ hj => ?_⟩ fun _ ht => ?_
    · exact Decoder.keptBeside_singleton (by decide) rfl
    · cases hj
    · cases ht
  source := by
    refine Object.readable_of_tidy ⟨⟨?_, fun r hr => ?_⟩, fun _ hj => ?_⟩ fun _ ht => ?_
    · exact Decoder.keptBeside_singleton (by decide) rfl
    · cases hr
      exact Decoder.keptBeside_singleton (by decide) rfl
    · cases hj
    · cases ht

/-- Two of its pull requests have a pair, one is skipped, and one is ignored. -/
theorem derives_furnishedInput :
    ∃ wanted, furnishedInput.derive? = some wanted ∧ furnishedInput.Derives "main" wanted
      ∧ wanted.pairs.keys = [.of "topic" 10, .of "topic" 7]
      ∧ wanted.skipped = [⟨.of "Topic" 8, "plan-Topic-8"⟩] := by
  have hderived : furnishedInput.derive?.map (fun w => (w.pairs.keys, w.skipped))
      = some ([.of "topic" 10, .of "topic" 7], [⟨.of "Topic" 8, "plan-Topic-8"⟩]) := by
    decide +kernel
  have htracked : furnishedInput.source.trackedBranch = some "main" := by decide +kernel
  obtain ⟨wanted, h, hderives⟩ := derives_of_tracked readable_furnishedInput htracked
  rw [h, Option.map_some, Option.some.injEq, Prod.mk.injEq] at hderived
  exact ⟨wanted, h, hderives, hderived.1, hderived.2⟩

end Pass.Input

end PlanSync
