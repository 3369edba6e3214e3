import PlanSync.Proofs.Pass.Course
import PlanSync.Proofs.Plan

/-!
# The order of pull requests does not matter

Pull requests are taken one after the other, and of two with one branch id the later
one counts. What is derived is nevertheless the same for every list of the same pull
requests, in whatever order and however often each is named
(`Pass.Input.derived_unordered`): a branch id tells the head branch and the number, and
an object that is derived depends on nothing else of a pull request. So a later pull
request of the same id only takes the place of objects like its own.

What is kept beside the objects may differ: a pair names the pull request it was derived
for, and of two that share it either may be the last; and what is skipped is told in the
order of the pull requests.
-/

namespace PlanSync

namespace DesiredState

variable {a b : DesiredState} {id : BranchId}

/-- The objects that should exist, by branch. -/
def objects (wanted : DesiredState) : List (BranchId × ((k : Kind) → Object k)) :=
  wanted.pairs.entries.map fun e => (e.1, e.2.half)

/-- **Two states are alike**: the same objects should exist for the same branches, and
the same is skipped for the same reasons. -/
structure Alike (a b : DesiredState) : Prop where
  objects : a.objects = b.objects
  skipped : ∀ why, why ∈ a.skipped ↔ why ∈ b.skipped

theorem lookup_objects (wanted : DesiredState) (id : BranchId) :
    List.lookup id wanted.objects = (wanted.pairs.get? id).map DesiredPair.half :=
  Entries.lookup_map DesiredPair.half id wanted.pairs.entries

theorem sorted_objects (wanted : DesiredState) : Entries.Sorted wanted.objects :=
  List.pairwise_map.mpr wanted.pairs.sorted

/-- **Objects are those that looking up gives.** -/
theorem objects_eq_of_get? (h : ∀ id, (a.pairs.get? id).map DesiredPair.half
    = (b.pairs.get? id).map DesiredPair.half) : a.objects = b.objects := by
  refine a.sorted_objects.ext b.sorted_objects fun id => ?_
  rw [lookup_objects, lookup_objects, h]

/-- **What is derived depends on the branch id alone**: the id tells the head branch and
the number. -/
theorem half_pairFor_congr (template : Terraform) (source : GitRepository)
    {pr pr' : PullRequest} (h : pr.branchId = pr'.branchId) :
    (pairFor template source pr).half = (pairFor template source pr').half := by
  obtain ⟨hhead, hnumber⟩ := BranchId.of_inj.mp h
  funext k
  cases k <;> simp only [pairFor, DesiredPair.half, h, hhead, hnumber]

end DesiredState

namespace Plan

variable {a b : DesiredState}

theorem desiredSteps_eq (wanted : DesiredState) (owned : OwnedObjects) :
    desiredSteps wanted owned = wanted.objects.map fun e =>
      (e.1, [Kind.gitRepository, Kind.terraform].flatMap fun k =>
        (converge? ((owned.pairOf e.1).half k) (e.2 k)).toList) := by
  rw [desiredSteps, DesiredState.objects, List.map_map]
  exact List.map_congr_left fun e _ => Prod.ext rfl (convergeSteps_eq _ _)

theorem obsoleteSteps_eq (wanted : DesiredState) (owned : OwnedObjects) :
    obsoleteSteps wanted owned
      = (owned.pairs.entries.filter fun e =>
          !(List.lookup e.1 wanted.objects).isSome).map fun e => (e.1, removeSteps e.2) := by
  simp only [obsoleteSteps, SortedMap.contains, DesiredState.lookup_objects, Option.isSome_map]

/-- **A plan depends on the objects** that should exist, and on what is owned. -/
theorem compute_congr (h : a.objects = b.objects) (owned : OwnedObjects) :
    (compute a owned).changes = (compute b owned).changes
      ∧ (compute a owned).unchanged = (compute b owned).unchanged := by
  simp only [compute, desiredSteps_eq, obsoleteSteps_eq, h, and_self]

end Plan

namespace Pass.Input

variable {i : Input} {wanted : DesiredState} {id : BranchId}

/-- A pull request is mirrored: it targets the branch that the source follows, and the
names that are derived for it are valid. -/
def Mirrors (i : Input) (pr : PullRequest) : Prop :=
  i.Targets pr ∧ i.namesValid pr.branchId = true

/-- **The objects for a branch are those of any pull request** of it that is mirrored. -/
theorem get?_half_iff (h : i.derive? = some wanted) {f : (k : Kind) → Object k} :
    (wanted.pairs.get? id).map DesiredPair.half = some f
      ↔ ∃ pr, i.Mirrors pr ∧ pr.branchId = id
        ∧ (DesiredState.pairFor i.template i.source pr).half = f := by
  rw [Option.map_eq_some_iff]
  constructor
  · rintro ⟨pair, hp, rfl⟩
    obtain ⟨pr, hpr, rfl, hbad, rfl⟩ := of_get?_pairs h hp
    exact ⟨pr, ⟨hpr, badName?_eq_none_iff.mp hbad⟩, rfl, rfl⟩
  · rintro ⟨pr, ⟨hpr, hvalid⟩, rfl, rfl⟩
    obtain ⟨pair, hp⟩ := exists_get?_pairs h hpr (badName?_eq_none_iff.mpr hvalid)
    -- the pair may be that of another pull request of the branch
    obtain ⟨pr', -, hid, -, rfl⟩ := of_get?_pairs h hp
    exact ⟨_, hp, DesiredState.half_pairFor_congr _ _ hid⟩

/-- The same input with other pull requests. -/
def withPullRequests (i : Input) (prs : List PullRequest) : Input :=
  { i with pullRequests := prs }

/-- **The same pull requests give the same**, whatever their order. -/
theorem alike_of_mem_iff {prs : List PullRequest} (hprs : ∀ pr, pr ∈ prs ↔ pr ∈ i.pullRequests)
    {a b : DesiredState} (ha : i.derive? = some a)
    (hb : (i.withPullRequests prs).derive? = some b) : a.Alike b := by
  have htargets : ∀ pr, (i.withPullRequests prs).Targets pr ↔ i.Targets pr := fun pr =>
    and_congr_left' (hprs pr)
  constructor
  · refine DesiredState.objects_eq_of_get? fun id => Option.ext fun f => ?_
    rw [get?_half_iff ha, get?_half_iff hb]
    simp only [Mirrors, htargets]
    rfl
  · intro why
    rw [mem_skipped ha, mem_skipped hb]
    simp only [htargets]
    rfl

/-- **Pull requests share a pair** exactly if they have the same head branch and number. -/
theorem pairs_eq_iff (h : i.derive? = some wanted) {pr pr' : PullRequest} {p p' : DesiredPair}
    (hp : wanted.pairs.get? pr.branchId = some p)
    (hp' : wanted.pairs.get? pr'.branchId = some p') :
    p = p' ↔ pr.headBranch = pr'.headBranch ∧ pr.number = pr'.number := by
  rw [← BranchId.of_inj]
  show p = p' ↔ pr.branchId = pr'.branchId
  constructor
  · rintro rfl
    obtain ⟨_, -, hid, -, rfl⟩ := of_get?_pairs h hp
    obtain ⟨_, -, hid', -, heq⟩ := of_get?_pairs h hp'
    -- a pair holds the id that it is kept under
    exact hid.symm.trans ((congrArg DesiredPair.branchId heq).trans hid')
  · intro hid
    rw [hid] at hp
    exact Option.some.inj (hp.symm.trans hp')

/-- **Order and repetition of pull requests do not matter.** If the source follows a branch,
what is derived from two lists of the same pull requests is alike, and so are the plans for
it, whatever is owned. Every pull request that is mirrored has a pair with its objects, and
it shares the pair with those of the same head branch and number. -/
theorem derived_unordered (i : Input) (prs : List PullRequest)
    (hprs : ∀ pr, pr ∈ prs ↔ pr ∈ i.pullRequests) :
    (i.source.trackedBranch = none ∧ i.derive? = none ∧ (i.withPullRequests prs).derive? = none)
      ∨ ∃ a b, i.derive? = some a ∧ (i.withPullRequests prs).derive? = some b ∧ a.Alike b
        ∧ (∀ owned, (Plan.compute a owned).changes = (Plan.compute b owned).changes
          ∧ (Plan.compute a owned).unchanged = (Plan.compute b owned).unchanged)
        ∧ ∀ pr pr', i.Mirrors pr → i.Mirrors pr' →
          ∃ p p', a.pairs.get? pr.branchId = some p ∧ a.pairs.get? pr'.branchId = some p'
            ∧ p.half = (DesiredState.pairFor i.template i.source pr).half
            ∧ p'.half = (DesiredState.pairFor i.template i.source pr').half
            ∧ (p = p' ↔ pr.headBranch = pr'.headBranch ∧ pr.number = pr'.number) := by
  cases ha : i.derive? with
  | none =>
    have htracked := derive?_eq_none_iff.mp ha
    exact .inl ⟨htracked, rfl, derive?_eq_none_iff.mpr htracked⟩
  | some a =>
    obtain ⟨tracked, htracked, -⟩ := derive?_eq ha
    obtain ⟨b, hb⟩ := exists_derive? (i := i.withPullRequests prs) htracked
    have halike := alike_of_mem_iff hprs ha hb
    have hkept : ∀ pr, i.Mirrors pr → ∃ p, a.pairs.get? pr.branchId = some p
        ∧ p.half = (DesiredState.pairFor i.template i.source pr).half := fun pr hpr =>
      Option.map_eq_some_iff.mp ((get?_half_iff ha).mpr ⟨pr, hpr, rfl, rfl⟩)
    refine .inr ⟨a, b, rfl, hb, halike, Plan.compute_congr halike.objects, ?_⟩
    intro pr pr' hpr hpr'
    obtain ⟨p, hp, hhalf⟩ := hkept pr hpr
    obtain ⟨p', hp', hhalf'⟩ := hkept pr' hpr'
    exact ⟨p, p', hp, hp', hhalf, hhalf', pairs_eq_iff ha hp hp'⟩

/-- Requests of two repositories have the same head branch and number, and of two more
head branches one gives names that no object can have. -/
def crowdedInput : Input :=
  sampleInput.withPullRequests
    [{ repository := { org := "org", name := "repo" }, number := 7, baseBranch := "main",
       headBranch := "topic" },
      { repository := { org := "fork", name := "repo" }, number := 7, baseBranch := "main",
        headBranch := "topic" },
      { repository := { org := "org", name := "repo" }, number := 7, baseBranch := "main",
        headBranch := "Topic" },
      { repository := { org := "org", name := "repo" }, number := 7, baseBranch := "main",
        headBranch := "topic-7" }]

/-- Taken once more in reverse, they lead to the same two pairs, and the
same is skipped; but the first pair is then that of the other request. -/
theorem derived_when_crowded :
    ∃ a b, crowdedInput.derive? = some a
      ∧ (crowdedInput.withPullRequests
          (crowdedInput.pullRequests ++ crowdedInput.pullRequests.reverse)).derive? = some b
      ∧ a.Alike b ∧ a.pairs.keys = [.of "topic" 7, .of "topic-7" 7]
      ∧ a.skipped.map Skipped.branchId = [.of "Topic" 7]
      ∧ a.pairs.values.map (·.pullRequest.repository.org) = ["fork", "org"]
      ∧ b.pairs.values.map (·.pullRequest.repository.org) = ["org", "org"] := by
  have hderived : (crowdedInput.derive?.map fun w => (w.pairs.keys,
      w.skipped.map Skipped.branchId, w.pairs.values.map (·.pullRequest.repository.org)))
      = some ([.of "topic" 7, .of "topic-7" 7], [.of "Topic" 7], ["fork", "org"]) := by
    decide +kernel
  have hderived' : ((crowdedInput.withPullRequests
      (crowdedInput.pullRequests ++ crowdedInput.pullRequests.reverse)).derive?.map
        (·.pairs.values.map (·.pullRequest.repository.org))) = some ["org", "org"] := by
    decide +kernel
  rcases derived_unordered crowdedInput
    (crowdedInput.pullRequests ++ crowdedInput.pullRequests.reverse)
    (fun pr => by rw [List.mem_append, List.mem_reverse, or_self]) with
    ⟨-, hnone, -⟩ | ⟨a, b, ha, hb, halike, -, -⟩
  · rw [hnone] at hderived
    cases hderived
  · rw [ha, Option.map_some, Option.some.injEq] at hderived
    rw [hb, Option.map_some, Option.some.injEq] at hderived'
    obtain ⟨hkeys, hskipped, horgs⟩ : _ ∧ _ ∧ _ := by simpa only [Prod.mk.injEq] using hderived
    exact ⟨a, b, ha, hb, halike, hkeys, hskipped, horgs, hderived'⟩

end Pass.Input

end PlanSync
