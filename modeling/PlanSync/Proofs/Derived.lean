import PlanSync.Pass
import PlanSync.Proofs.Object.Overwrite
import PlanSync.Proofs.PullRequest

/-!
# What derivation gives

A pass is given a template, its source and the open pull requests
(`Pass.Input`). What derivation makes of them is read off here once for both
kinds of objects: which pull requests are mirrored and which are skipped
(`Pass.Input.of_get?_pairs`, `Pass.Input.mem_skipped`), which key each half of a
pair has (`Pass.Input.key_half`), and what the labels of a half say
(`Pass.Input.bears_half`).

Objects that reading can give lead to halves that a store returns unchanged
(`Pass.Input.tidy_half`); and as long as no label key of template and source
holds a comma, the record that a half carries names labels it has
(`Pass.Input.recorded_half`).
-/

namespace PlanSync

/-! ## Owner labels -/

section OwnerLabels

variable (template : String) (number : Nat)

theorem get?_ownerLabels (key : String) :
    (ownerLabels template number).get? key
      = if key = ownerLabel then some "true"
        else if key = pullRequestLabel then some (Text.decimal number)
        else if key = templateLabel then some template
        else none := by
  rw [ownerLabels, SortedMap.get?_ofList (by simp [ownerLabel, pullRequestLabel, templateLabel])]
  simp only [Entries.lookup_cons, List.lookup_nil]

end OwnerLabels

namespace DesiredState

variable {template : Terraform} {name : String} {inherited : Labels} {number : Nat}

theorem get?_labels_metadata (key : String) :
    (metadata template name inherited number).labels.get? key
      = ((ownerLabels template.name number).get? key).or (inherited.get? key) :=
  SortedMap.get?_overlay _ _ _

theorem get?_record :
    (metadata template name inherited number).annotations.get? inheritedRecord
      = some (Text.join ","
          (inherited.keys.filter fun k => !(ownerLabels template.name number).contains k)) := by
  show SortedMap.get? (.ofList [(inheritedRecord, _)]) inheritedRecord = _
  rw [SortedMap.get?_ofList (by simp), Entries.lookup_cons, if_pos rfl]

/-- **What a derived object records as taken over, it has**, if the keys of the
labels that were taken over hold no comma. -/
theorem recorded_metadata (h : ∀ key ∈ inherited.keys, ',' ∉ key.toList) :
    (metadata template name inherited number).Recorded := by
  refine ⟨⟨_, get?_record⟩, fun key hkey => ?_⟩
  have hmem : key ∈ inherited.keys := by
    rw [Metadata.inheritedKeys, get?_record] at hkey
    obtain ⟨hkey, hne⟩ := List.mem_filter.mp hkey
    -- an empty record reads as one empty key, which is then left out
    by_cases hnil : (inherited.keys.filter fun k =>
        !(ownerLabels template.name number).contains k) = []
    · rw [hnil] at hkey
      have hempty : key = "" := List.mem_singleton.mp hkey
      exact absurd hempty (of_decide_eq_true hne)
    · have hpieces := Text.pieces_join hnil fun x hx =>
        h x (List.mem_filter.mp hx).1
      exact (List.mem_filter.mp (hpieces ▸ hkey)).1
  obtain ⟨value, hvalue⟩ := SortedMap.mem_keys_iff.mp hmem
  rw [SortedMap.contains, get?_labels_metadata, hvalue, Option.or_some, Option.isSome_some]

/-! ## Verdicts -/

/-- The pair of a verdict. -/
def Verdict.pair? : Verdict → Option DesiredPair
  | .mirrored pair => some pair
  | _ => none

/-- What a verdict skips. -/
def Verdict.skipped? : Verdict → Option Skipped
  | .skipped why => some why
  | _ => none

theorem foldl_record (verdicts : List Verdict) (state : DesiredState) :
    verdicts.foldl record state
      = { pairs := state.pairs.insertAll
            ((verdicts.filterMap Verdict.pair?).map fun p => (p.branchId, p))
          skipped := state.skipped ++ verdicts.filterMap Verdict.skipped? } := by
  induction verdicts generalizing state with
  | nil => rw [List.filterMap_nil, List.filterMap_nil, List.append_nil]; rfl
  | cons v vs ih =>
    rw [List.foldl_cons, ih]
    cases v with
    | ignored => rfl
    | skipped why =>
      rw [List.filterMap_cons, List.filterMap_cons]
      simp only [record, Verdict.pair?, Verdict.skipped?, List.append_assoc, List.singleton_append]
    | mirrored pair => rfl

theorem verdict_pair? {template : Terraform} {source : GitRepository} {tracked : String}
    {pr : PullRequest} {pair : DesiredPair} :
    (verdict template source tracked pr).pair? = some pair
      ↔ pr.baseBranch = tracked ∧ badName? template source pr.branchId = none
        ∧ pair = pairFor template source pr := by
  unfold verdict
  by_cases hbase : pr.baseBranch = tracked
  · rw [if_neg (fun h => h hbase)]
    cases hbad : badName? template source pr.branchId with
    | none => simp [Verdict.pair?, hbase, eq_comm]
    | some bad => simp [Verdict.pair?]
  · rw [if_pos hbase]
    simp [Verdict.pair?, hbase]

theorem verdict_skipped? {template : Terraform} {source : GitRepository} {tracked : String}
    {pr : PullRequest} {why : Skipped} :
    (verdict template source tracked pr).skipped? = some why
      ↔ pr.baseBranch = tracked
        ∧ ∃ bad, badName? template source pr.branchId = some bad ∧ why = ⟨pr.branchId, bad⟩ := by
  unfold verdict
  by_cases hbase : pr.baseBranch = tracked
  · rw [if_neg (fun h => h hbase)]
    cases hbad : badName? template source pr.branchId with
    | none => simp [Verdict.skipped?]
    | some bad => simp [Verdict.skipped?, hbase, eq_comm]
  · rw [if_pos hbase]
    simp [Verdict.skipped?, hbase]

end DesiredState

/-! ## What a pass is given -/

/-- The half of a pair that is of a kind. -/
def DesiredPair.half (p : DesiredPair) : (k : Kind) → Object k
  | .terraform => p.terraform
  | .gitRepository => p.source

/-- **What a pass is given**: a template, its source, and the open pull
requests of its repository. -/
structure Pass.Input where
  template : Terraform
  source : GitRepository
  pullRequests : List PullRequest

namespace Pass.Input

variable (i : Input) {k : Kind} {id : BranchId} {wanted : DesiredState} {pair : DesiredPair}

/-- What objects of a kind are derived from. -/
def origin : (k : Kind) → Object k
  | .terraform => i.template
  | .gitRepository => i.source

/-- The key of the object of a kind that is derived for a branch. -/
def derivedKey (k : Kind) (id : BranchId) : ObjectKey :=
  ⟨k, i.template.namespaceName, id.nameFrom (i.origin k).name⟩

/-- What should exist; none if the source follows no branch. -/
def derive? : Option DesiredState := DesiredState.derive? i.template i.source i.pullRequests

theorem derivedKey_injective {i : Input} {k k' : Kind} {id id' : BranchId}
    (h : i.derivedKey k id = i.derivedKey k' id') : k = k' ∧ id = id' := by
  obtain rfl : k = k' := congrArg ObjectKey.kind h
  exact ⟨rfl, BranchId.nameFrom_injective (congrArg ObjectKey.name h)⟩

/-- The names that are derived for a branch are both valid. -/
def namesValid (i : Input) (id : BranchId) : Bool :=
  ObjectName.isValid (i.derivedKey .terraform id).name
    && ObjectName.isValid (i.derivedKey .gitRepository id).name

/-- The first of them that is not, if one is not. -/
def badName (i : Input) (id : BranchId) : String :=
  if ObjectName.isValid (i.derivedKey .terraform id).name then
    (i.derivedKey .gitRepository id).name
  else (i.derivedKey .terraform id).name

theorem isValid_of_namesValid {i : Input} {id : BranchId} (h : i.namesValid id = true) (k : Kind) :
    ObjectName.isValid (i.derivedKey k id).name = true := by
  cases k with
  | terraform => exact (Bool.and_eq_true_iff.mp h).1
  | gitRepository => exact (Bool.and_eq_true_iff.mp h).2

/-- **A name is bad** exactly if not both are valid. -/
theorem badName?_eq (i : Input) (id : BranchId) :
    DesiredState.badName? i.template i.source id
      = if i.namesValid id then none else some (i.badName id) := by
  show List.find? _ [(i.derivedKey .terraform id).name, (i.derivedKey .gitRepository id).name] = _
  rw [namesValid, badName, List.find?_cons, List.find?_cons, List.find?_nil]
  cases ObjectName.isValid (i.derivedKey .terraform id).name <;>
    cases ObjectName.isValid (i.derivedKey .gitRepository id).name <;> rfl

theorem badName?_eq_none_iff {i : Input} {id : BranchId} :
    DesiredState.badName? i.template i.source id = none ↔ i.namesValid id = true := by
  rw [badName?_eq]
  cases i.namesValid id with
  | true => exact ⟨fun _ => rfl, fun _ => rfl⟩
  | false => exact ⟨fun h => (by cases h), fun h => (by cases h)⟩

/-- A pull request asks to merge into the branch that the source follows. -/
def Targets (pr : PullRequest) : Prop :=
  pr ∈ i.pullRequests ∧ i.source.trackedBranch = some pr.baseBranch

variable {i}

/-- **Nothing is derived** exactly if the source follows no branch. -/
theorem derive?_eq_none_iff : i.derive? = none ↔ i.source.trackedBranch = none :=
  Option.map_eq_none_iff

theorem exists_derive? {tracked : String} (h : i.source.trackedBranch = some tracked) :
    ∃ wanted, i.derive? = some wanted := ⟨_, Option.map_eq_some_iff.mpr ⟨tracked, h, rfl⟩⟩

theorem derive?_eq (h : i.derive? = some wanted) :
    ∃ tracked, i.source.trackedBranch = some tracked
      ∧ wanted = (i.pullRequests.map (DesiredState.verdict i.template i.source tracked)).foldl
          DesiredState.record {} := by
  obtain ⟨tracked, htracked, rfl⟩ := Option.map_eq_some_iff.mp h
  exact ⟨tracked, htracked, List.foldl_map.symm⟩

/-- **A pair comes from a pull request** that targets the tracked branch and
whose derived names are valid. -/
theorem of_get?_pairs (h : i.derive? = some wanted) (hp : wanted.pairs.get? id = some pair) :
    ∃ pr, i.Targets pr ∧ pr.branchId = id
      ∧ DesiredState.badName? i.template i.source id = none
      ∧ pair = DesiredState.pairFor i.template i.source pr := by
  obtain ⟨tracked, htracked, rfl⟩ := derive?_eq h
  rw [DesiredState.foldl_record, SortedMap.get?_insertAll, SortedMap.get?_empty,
    Option.or_none] at hp
  obtain ⟨pair', hpair', he⟩ :=
    List.mem_map.mp (List.mem_reverse.mp (Entries.mem_of_lookup hp))
  cases he
  obtain ⟨v, hv, hpair⟩ := List.mem_filterMap.mp hpair'
  obtain ⟨pr, hpr, rfl⟩ := List.mem_map.mp hv
  obtain ⟨hbase, hbad, rfl⟩ := DesiredState.verdict_pair?.mp hpair
  exact ⟨pr, ⟨hpr, hbase ▸ htracked⟩, rfl, hbad, rfl⟩

/-- **Every pull request that targets the tracked branch has a pair**, if its
derived names are valid. -/
theorem exists_get?_pairs (h : i.derive? = some wanted) {pr : PullRequest} (hpr : i.Targets pr)
    (hbad : DesiredState.badName? i.template i.source pr.branchId = none) :
    ∃ pair, wanted.pairs.get? pr.branchId = some pair := by
  obtain ⟨tracked, htracked, rfl⟩ := derive?_eq h
  rw [← Option.ne_none_iff_exists', DesiredState.foldl_record, SortedMap.get?_insertAll,
    SortedMap.get?_empty, Option.or_none, ne_eq, Entries.lookup_eq_none_iff_not_mem, Decidable.not_not]
  have hbase : pr.baseBranch = tracked := Option.some.inj (hpr.2.symm.trans htracked)
  rw [List.map_reverse, List.mem_reverse, List.map_map]
  refine List.mem_map.mpr ⟨DesiredState.pairFor i.template i.source pr, ?_, rfl⟩
  exact List.mem_filterMap.mpr
    ⟨_, List.mem_map_of_mem hpr.1, DesiredState.verdict_pair?.mpr ⟨hbase, hbad, rfl⟩⟩

/-- The ids that are derived have pairs. -/
theorem exists_get?_of_keys {ids : List BranchId} (h : i.derive?.map (·.pairs.keys) = some ids)
    (hid : id ∈ ids) :
    ∃ wanted pair, i.derive? = some wanted ∧ wanted.pairs.get? id = some pair := by
  obtain ⟨wanted, hw, hkeys⟩ := Option.map_eq_some_iff.mp h
  obtain ⟨pair, hp⟩ := SortedMap.mem_keys_iff.mp (hkeys ▸ hid)
  exact ⟨wanted, pair, hw, hp⟩

/-- **What is skipped**: the pull requests that target the tracked branch and
have a derived name that is not valid. -/
theorem mem_skipped (h : i.derive? = some wanted) {why : Skipped} :
    why ∈ wanted.skipped ↔ ∃ pr, i.Targets pr ∧ ∃ bad,
      DesiredState.badName? i.template i.source pr.branchId = some bad
        ∧ why = ⟨pr.branchId, bad⟩ := by
  obtain ⟨tracked, htracked, rfl⟩ := derive?_eq h
  rw [DesiredState.foldl_record]
  show why ∈ [] ++ _ ↔ _
  rw [List.nil_append, List.mem_filterMap]
  constructor
  · rintro ⟨v, hv, hwhy⟩
    obtain ⟨pr, hpr, rfl⟩ := List.mem_map.mp hv
    obtain ⟨hbase, hbad⟩ := DesiredState.verdict_skipped?.mp hwhy
    exact ⟨pr, ⟨hpr, hbase ▸ htracked⟩, hbad⟩
  · rintro ⟨pr, hpr, hbad⟩
    have hbase : pr.baseBranch = tracked := Option.some.inj (hpr.2.symm.trans htracked)
    exact ⟨_, List.mem_map_of_mem hpr.1, DesiredState.verdict_skipped?.mpr ⟨hbase, hbad⟩⟩

/-- No id is both mirrored and skipped, for the verdict depends on the id. -/
theorem get?_pairs_of_skipped (h : i.derive? = some wanted) {why : Skipped}
    (hwhy : why ∈ wanted.skipped) : wanted.pairs.get? why.branchId = none := by
  obtain ⟨pr, -, bad, hbad, rfl⟩ := (mem_skipped h).mp hwhy
  refine Option.eq_none_iff_forall_ne_some.mpr fun pair hp => ?_
  obtain ⟨_, -, -, hbad', -⟩ := of_get?_pairs h hp
  cases hbad.symm.trans hbad'

/-! ## The halves of a pair -/

theorem metadata_half (i : Input) (pr : PullRequest) (k : Kind) :
    ((DesiredState.pairFor i.template i.source pr).half k).metadata
      = DesiredState.metadata i.template (pr.branchId.nameFrom (i.origin k).name)
          (i.origin k).labels pr.number := by
  cases k <;> rfl

/-- **Each half has the derived key.** -/
theorem key_half (h : i.derive? = some wanted) (hp : wanted.pairs.get? id = some pair)
    (k : Kind) : (pair.half k).key = i.derivedKey k id := by
  obtain ⟨pr, -, rfl, -, rfl⟩ := of_get?_pairs h hp
  unfold Object.key Object.namespaceName Object.name
  rw [metadata_half]
  rfl

/-! ### Labels -/

/-- **An object bears the owner labels** of a template: the owner marker and
the name of the template. -/
structure Bears (i : Input) {k : Kind} (o : Object k) : Prop where
  marker : o.labels.get? ownerLabel = some "true"
  template : o.labels.get? templateLabel = some i.template.name

theorem get?_labels_half (i : Input) (pr : PullRequest) (k : Kind) (key : String) :
    ((DesiredState.pairFor i.template i.source pr).half k).labels.get? key
      = ((ownerLabels i.template.name pr.number).get? key).or
          ((i.origin k).labels.get? key) := by
  rw [Object.labels, metadata_half, DesiredState.get?_labels_metadata]

/-- **Each half bears the owner labels.** -/
theorem bears_half (h : i.derive? = some wanted) (hp : wanted.pairs.get? id = some pair)
    (k : Kind) : i.Bears (pair.half k) := by
  obtain ⟨pr, -, rfl, -, rfl⟩ := of_get?_pairs h hp
  constructor
  · rw [get?_labels_half, get?_ownerLabels, if_pos rfl, Option.some_or]
  · rw [get?_labels_half, get?_ownerLabels, if_neg (by decide), if_neg (by decide), if_pos rfl,
      Option.some_or]

/-- **Each half names a pull request with its id.** -/
theorem pullRequestLabel_half (h : i.derive? = some wanted)
    (hp : wanted.pairs.get? id = some pair) (k : Kind) :
    ∃ pr, i.Targets pr ∧ pr.branchId = id
      ∧ (pair.half k).labels.get? pullRequestLabel = some (Text.decimal pr.number) := by
  obtain ⟨pr, hpr, rfl, -, rfl⟩ := of_get?_pairs h hp
  refine ⟨pr, hpr, rfl, ?_⟩
  rw [get?_labels_half, get?_ownerLabels, if_neg (by decide), if_pos rfl, Option.some_or]

/-- **No label key of what is copied holds a comma**, which would make the
record of labels taken over ambiguous. -/
def CommaFree (i : Input) : Prop := ∀ k, ∀ key ∈ (i.origin k).labels.keys, ',' ∉ key.toList

/-- **Each half has the labels that it records as taken over.** -/
theorem recorded_half (hcomma : i.CommaFree) (h : i.derive? = some wanted)
    (hp : wanted.pairs.get? id = some pair) (k : Kind) : (pair.half k).metadata.Recorded := by
  obtain ⟨pr, -, rfl, -, rfl⟩ := of_get?_pairs h hp
  rw [metadata_half]
  exact DesiredState.recorded_metadata (hcomma k)

/-! ### Specs -/

/-- **Template and source are objects that reading can give.** -/
structure Readable (i : Input) : Prop where
  template : i.template.Readable
  source : i.source.Readable

theorem tidy_terraformSpec {template : Terraform} (h : template.Tidy) (sourceName : String)
    (id : BranchId) : (DesiredState.terraformSpec template sourceName id).Tidy := h.spec

theorem tidy_sourceSpec {source : GitRepository} (h : source.Tidy) (headBranch : String) :
    (DesiredState.sourceSpec source headBranch).Tidy := by
  have hspec : GitRepositorySpec.Tidy source.spec := h.spec
  refine ⟨hspec.1, fun r hr => ?_⟩
  cases hr
  -- only the branch of the reference changes
  cases hreference : GitRepositorySpec.reference source.spec with
  | none => exact fun _ _ hj => (by cases hj)
  | some r => exact hspec.2 r hreference

/-- **What is derived reads back from a store unchanged.** -/
theorem tidy_pairFor (hi : i.Readable) (pr : PullRequest) (k : Kind) :
    ((DesiredState.pairFor i.template i.source pr).half k).Tidy := by
  cases k with
  | terraform =>
    refine ⟨tidy_terraformSpec (Object.tidy_of_readable hi.template) _ _, fun j hj => ?_⟩
    cases hj
  | gitRepository =>
    refine ⟨tidy_sourceSpec (Object.tidy_of_readable hi.source) _, fun j hj => ?_⟩
    cases hj

theorem tidy_half (hi : i.Readable) (h : i.derive? = some wanted)
    (hp : wanted.pairs.get? id = some pair) (k : Kind) : (pair.half k).Tidy := by
  obtain ⟨pr, -, rfl, -, rfl⟩ := of_get?_pairs h hp
  exact tidy_pairFor hi pr k

end Pass.Input

end PlanSync
