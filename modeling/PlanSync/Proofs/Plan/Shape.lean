import PlanSync.Proofs.Pass.Census
import PlanSync.Proofs.Pass.Creation

/-!
# The shape of a plan

A plan is put together from two maps in the order of their keys, the branches that
should exist and those that are owned, and from a list of strays. What comes out can be
told without the way it is computed (`Plan.Shape`): branches stand in order before the
strays, every branch is listed once, as changed or as unchanged, and the steps for a
branch depend on its two halves alone. Whatever a store lists, the plan for it has this
shape (`Plan.shape_of_listed`).

A branch that is not desired has a step only because no pair that is listed is without
both halves. Nothing else is asked of what is owned, and nothing of what is desired.

Steps are counted by their place: a branch has one step at most for each of its halves,
so the steps of the branches are told apart by branch and kind (`Plan.placedSteps`).
-/

namespace PlanSync

/-- **A number counts** what has a property: it is the length of a list that holds each
such thing once, and nothing else. -/
def Counts {α : Type} (n : Nat) (p : α → Prop) : Prop :=
  ∃ xs : List α, xs.Nodup ∧ (∀ x, x ∈ xs ↔ p x) ∧ xs.length = n

theorem Counts.congr {α : Type} {m n : Nat} {p q : α → Prop} (h : Counts n p) (hm : m = n)
    (hpq : ∀ x, p x ↔ q x) : Counts m q := by
  obtain ⟨xs, hnodup, hmem, hlength⟩ := h
  exact ⟨xs, hnodup, fun x => (hmem x).trans (hpq x), hlength.trans hm.symm⟩

/-- **What is listed** was sorted from lists of objects of both kinds. -/
theorem OwnedObjects.exists_ofListed {σ : Type} {store : Store σ} {s : σ} {template : Terraform}
    {source : GitRepository} {owned : OwnedObjects}
    (h : (listIn store template source s).result = .ok owned) :
    ∃ ts ss, owned = ofListed template source ts ss := by
  simp only [listIn, bind, Action.andThen] at h
  split at h
  · cases h
  · next ts _ =>
    simp only at h
    split at h
    · cases h
    · next ss _ =>
      cases h
      exact ⟨ts, ss, rfl⟩

namespace Plan

variable {k : Kind} {wanted : DesiredState} {owned : OwnedObjects} {id : BranchId} {s : Step}

/-! ## Branches -/

/-- **Branches come in order**, each once. -/
theorem sorted_branchSteps (wanted : DesiredState) (owned : OwnedObjects) :
    ((branchSteps wanted owned).mergeSort fun a b => a.1 ≤ b.1).Pairwise
      fun a b => a.1 < b.1 := by
  refine (pairwise_mergeSort_by Prod.fst _).imp₂
    (fun _ _ hle hne => Std.lt_of_le_of_ne hle hne) (List.pairwise_map.mp ?_)
  exact ((List.mergeSort_perm _ _).map Prod.fst).nodup_iff.mpr (nodup_branchSteps wanted owned)

theorem branches_changed (wanted : DesiredState) (owned : OwnedObjects) :
    (compute wanted owned).changes.filterMap BranchChange.branchId
      = ((branchSteps wanted owned).mergeSort fun a b => a.1 ≤ b.1).map Prod.fst := by
  have hstrays : (owned.strays.map fun key => (⟨none, [.delete key]⟩ : BranchChange)).filterMap
      BranchChange.branchId = [] := by
    rw [List.filterMap_map]
    exact List.filterMap_eq_nil_iff.mpr fun _ _ => rfl
  rw [changes_eq, List.filterMap_append, hstrays, List.append_nil, branchChanges,
    List.filterMap_map]
  exact congrFun List.filterMap_eq_map _

/-- **A change is for a branch or for a stray.** -/
theorem length_changes (wanted : DesiredState) (owned : OwnedObjects) :
    (compute wanted owned).changes.length
      = ((compute wanted owned).changes.filterMap BranchChange.branchId).length
        + owned.strays.length := by
  rw [branches_changed, changes_eq, branchChanges, List.length_append, List.length_map,
    List.length_map, List.length_map]

/-- **Every branch is changed or unchanged**: the branches that a plan names are those
with steps to consider. -/
theorem branches_perm (wanted : DesiredState) (owned : OwnedObjects) :
    ((compute wanted owned).changes.filterMap BranchChange.branchId
        ++ (compute wanted owned).unchanged).Perm
      ((desiredSteps wanted owned ++ obsoleteSteps wanted owned).map Prod.fst) := by
  have hfilter := List.filter_append_perm (fun e : BranchId × List Step => !e.2.isEmpty)
    (desiredSteps wanted owned)
  simp only [Bool.not_not] at hfilter
  rw [branches_changed, unchanged_eq, ← List.map_append]
  refine List.Perm.map _ (((List.mergeSort_perm _ _).append_right _).trans ?_)
  -- the unchanged branches go back to where they were left out
  rw [branchSteps, List.append_assoc]
  exact (List.perm_append_comm.append_left _).trans
    ((List.append_assoc _ _ _).symm ▸ hfilter.append_right _)

theorem mem_unchanged : id ∈ (compute wanted owned).unchanged
    ↔ ∃ pair, wanted.pairs.get? id = some pair ∧ convergeSteps (owned.pairOf id) pair = [] := by
  rw [unchanged_eq, List.mem_map]
  simp only [List.mem_filter, List.isEmpty_iff]
  constructor
  · rintro ⟨e, ⟨hmem, hnil⟩, rfl⟩
    obtain ⟨pair, hp, hsteps⟩ := mem_desiredSteps.mp hmem
    exact ⟨pair, hp, hsteps ▸ hnil⟩
  · rintro ⟨pair, hp, hnil⟩
    exact ⟨(id, []), ⟨mem_desiredSteps.mpr ⟨pair, hp, hnil.symm⟩, rfl⟩, rfl⟩

/-- **A branch needs no step** exactly if neither half is missing or differs. -/
theorem convergeSteps_eq_nil_iff {current : OwnedPair} {desired : DesiredPair} :
    convergeSteps current desired = []
      ↔ ∀ k, ∃ o, current.half k = some o ∧ o.differsFrom (desired.half k) = false := by
  simp only [List.eq_nil_iff_forall_not_mem, mem_convergeSteps, not_exists,
    ← converge?_eq_none_iff, Option.eq_none_iff_forall_ne_some]
  exact ⟨fun h k s => h s k, fun h s k => h k s⟩

/-! ## Steps for a branch -/

/-- **A half is brought to what it should be**: it is created if it is missing, and
updated if it differs. -/
def Converges (current : Option (Object k)) (desired : Object k) (s : Step) : Prop :=
  (current = none ∧ s = .create k desired)
    ∨ ∃ o, current = some o ∧ o.differsFrom desired = true
      ∧ s = .update k o (o.overwrite desired)

theorem converge?_eq_some_iff {current : Option (Object k)} {desired : Object k} :
    converge? current desired = some s ↔ Converges current desired s := by
  unfold Converges
  cases current with
  | none =>
    refine ⟨fun h => .inl ⟨rfl, (Option.some.inj h).symm⟩, ?_⟩
    rintro (⟨-, rfl⟩ | ⟨_, h, -⟩)
    · rfl
    · cases h
  | some o =>
    cases hd : o.differsFrom desired with
    | true =>
      rw [converge?_some_of_differs hd, Option.some.injEq]
      constructor
      · rintro rfl
        exact .inr ⟨o, rfl, hd, rfl⟩
      · rintro (⟨h, -⟩ | ⟨_, ho, -, rfl⟩)
        · cases h
        · cases ho
          rfl
    | false =>
      rw [converge?_some_of_not_differs hd]
      refine ⟨fun h => (by cases h), ?_⟩
      rintro (⟨h, -⟩ | ⟨_, ho, hd', -⟩)
      · cases h
      · cases ho
        cases hd.symm.trans hd'

/-- **The configuration comes before the source.** -/
theorem pairwise_removeSteps (current : OwnedPair) :
    (removeSteps current).Pairwise fun a b =>
      a.key.kind = .terraform ∧ b.key.kind = .gitRepository := by
  rw [removeSteps_eq]
  refine List.pairwise_flatMap.mpr ⟨fun k _ => ?_, List.pairwise_pair.mpr fun a ha b hb => ?_⟩
  · cases current.half k with
    | none => exact .nil
    | some o => exact List.pairwise_singleton _ _
  · obtain ⟨_, -, rfl⟩ := List.mem_map.mp ha
    obtain ⟨_, -, rfl⟩ := List.mem_map.mp hb
    exact ⟨rfl, rfl⟩

/-- A branch that has a half has a step, if it is to be removed. -/
theorem removeSteps_ne_nil {p : OwnedPair} {o : Object k} (ho : p.half k = some o) :
    removeSteps p ≠ [] :=
  List.ne_nil_of_mem (mem_removeSteps.mpr ⟨k, o, ho, rfl⟩)

/-! ## Counting steps -/

/-- The steps of all branches, each with its branch and the kind of its object. -/
def placedSteps (wanted : DesiredState) (owned : OwnedObjects) :
    List ((BranchId × Kind) × Step) :=
  (branchSteps wanted owned).flatMap fun e => e.2.map fun s => ((e.1, s.key.kind), s)

/-- **A place has one step at most.** -/
theorem nodup_placedSteps (wanted : DesiredState) (owned : OwnedObjects) :
    ((placedSteps wanted owned).map Prod.fst).Nodup := by
  -- the two kinds of a branch differ, whichever comes first
  have hkinds : ∀ {steps : List Step} {a b : Kind}, a ≠ b →
      (steps.Pairwise fun s t => s.key.kind = a ∧ t.key.kind = b) →
      steps.Pairwise fun s t => s.key.kind ≠ t.key.kind := fun hne h =>
    h.imp fun hst => hst.1 ▸ hst.2 ▸ hne
  rw [placedSteps, List.map_flatMap]
  simp only [List.map_map]
  refine List.pairwise_flatMap.mpr ⟨fun e he => List.pairwise_map.mpr ?_, ?_⟩
  · have hne : e.2.Pairwise fun s t => s.key.kind ≠ t.key.kind := by
      rcases List.mem_append.mp he with he | he
      · obtain ⟨pair, -, hsteps⟩ := mem_desiredSteps.mp (List.mem_filter.mp he).1
        exact hsteps ▸ hkinds (by decide) (pairwise_convergeSteps _ pair)
      · obtain ⟨-, p, -, hsteps⟩ := mem_obsoleteSteps.mp he
        exact hsteps ▸ hkinds (by decide) (pairwise_removeSteps p)
    exact hne.imp fun hne heq => hne (congrArg (fun place : BranchId × Kind => place.2) heq)
  · refine (List.pairwise_map.mp (nodup_branchSteps wanted owned)).imp
      fun {e f} hne a ha b hb heq => ?_
    obtain ⟨_, -, rfl⟩ := List.mem_map.mp ha
    obtain ⟨_, -, rfl⟩ := List.mem_map.mp hb
    exact hne (congrArg (fun place : BranchId × Kind => place.1) heq)

theorem mem_placedSteps {place : BranchId × Kind} :
    (place, s) ∈ placedSteps wanted owned
      ↔ s.key.kind = place.2
        ∧ ((∃ pair, wanted.pairs.get? place.1 = some pair
              ∧ s ∈ convergeSteps (owned.pairOf place.1) pair)
          ∨ wanted.pairs.get? place.1 = none ∧ s ∈ removeSteps (owned.pairOf place.1)) := by
  obtain ⟨id, k⟩ := place
  simp only [placedSteps, branchSteps, List.mem_flatMap, List.mem_append, List.mem_filter,
    List.mem_map, mem_desiredSteps, mem_obsoleteSteps, Prod.mk.injEq]
  constructor
  · rintro ⟨e, he, _, hs, ⟨rfl, rfl⟩, rfl⟩
    refine ⟨rfl, ?_⟩
    rcases he with ⟨⟨pair, hp, hsteps⟩, -⟩ | ⟨hw, p, hp, hsteps⟩
    · exact .inl ⟨pair, hp, hsteps ▸ hs⟩
    · exact .inr ⟨hw, by rwa [pairOf_of_get? hp, ← hsteps]⟩
  · rintro ⟨rfl, ⟨pair, hp, hs⟩ | ⟨hw, hs⟩⟩
    · refine ⟨(id, _), .inl ⟨⟨pair, hp, rfl⟩, ?_⟩, s, hs, ⟨rfl, rfl⟩, rfl⟩
      rw [Bool.not_eq_true', List.isEmpty_eq_false_iff]
      exact List.ne_nil_of_mem hs
    · obtain ⟨k, o, ho, -⟩ := mem_removeSteps.mp hs
      exact ⟨(id, _), .inr ⟨hw, _, OwnedObjects.get?_pairs_of_half ho, rfl⟩, s, hs, ⟨rfl, rfl⟩,
        rfl⟩

/-- **The steps of a sort are counted by their places**, and a stray is one deletion. -/
theorem count_eq (wanted : DesiredState) (owned : OwnedObjects) (op : Operation) :
    (compute wanted owned).count op
      = ((placedSteps wanted owned).filter fun e => e.2.operation = op).length
        + if op = .delete then owned.strays.length else 0 := by
  have hplaced : (placedSteps wanted owned).map Prod.snd
      = (branchSteps wanted owned).flatMap Prod.snd := by
    rw [placedSteps, List.map_flatMap]
    simp only [List.map_map]
    exact List.flatMap_congr fun e _ => List.map_id _
  have hperm : (compute wanted owned).steps.Perm
      ((placedSteps wanted owned).map Prod.snd ++ owned.strays.map .delete) := by
    rw [hplaced]
    refine ((changes_perm wanted owned).flatMap_right _).trans (List.Perm.of_eq ?_)
    rw [List.flatMap_append, List.flatMap_map, List.flatMap_map]
    exact congrArg _ List.map_eq_flatMap.symm
  rw [count, hperm.countP_eq, List.countP_append, List.countP_map, List.countP_map,
    List.countP_eq_length_filter]
  refine congrArg₂ _ rfl ?_
  by_cases hop : op = .delete
  · rw [if_pos hop, hop]
    exact List.countP_eq_length.mpr fun _ _ => rfl
  · rw [if_neg hop]
    exact List.countP_eq_zero.mpr fun _ _ h => hop (of_decide_eq_true h).symm

/-- **How many branches have a step of a sort for one of their halves.** -/
theorem counts_placed (wanted : DesiredState) (owned : OwnedObjects) (op : Operation) :
    Counts ((placedSteps wanted owned).filter fun e => e.2.operation = op).length
      fun place : BranchId × Kind =>
        ∃ s, s.operation = op ∧ (place, s) ∈ placedSteps wanted owned := by
  refine ⟨((placedSteps wanted owned).filter fun e => e.2.operation = op).map Prod.fst,
    (List.filter_sublist.map Prod.fst).nodup (nodup_placedSteps wanted owned), fun place => ?_,
    List.length_map _⟩
  simp only [List.mem_map, List.mem_filter, decide_eq_true_eq]
  constructor
  · rintro ⟨⟨_, s⟩, ⟨hmem, hop⟩, rfl⟩
    exact ⟨s, hop, hmem⟩
  · rintro ⟨s, hop, hmem⟩
    exact ⟨(place, s), ⟨hmem, hop⟩, rfl⟩

/-! ## The shape -/

/-- **The shape of a plan** for what should exist and what is owned. -/
structure Shape (wanted : DesiredState) (owned : OwnedObjects) (p : Plan) : Prop where
  /-- Branches come in order, and after them the strays as they are listed, with a
  deletion for each. -/
  order : ∃ branches : List (BranchId × List Step), branches.Pairwise (fun a b => a.1 < b.1)
    ∧ p.changes = branches.map (fun e => ⟨some e.1, e.2⟩)
        ++ owned.strays.map fun key => ⟨none, [.delete key]⟩
  /-- No branch is named twice, as changed or as unchanged. -/
  once : (p.changes.filterMap BranchChange.branchId ++ p.unchanged).Nodup
  /-- The branches that are named are those that are desired or owned. -/
  complete : ∀ id, id ∈ p.changes.filterMap BranchChange.branchId ++ p.unchanged
    ↔ id ∈ wanted.pairs.keys ∨ id ∈ owned.pairs.keys
  /-- Unchanged is what is desired and has two halves that do not differ. -/
  unchanged : ∀ id, id ∈ p.unchanged ↔ ∃ pair, wanted.pairs.get? id = some pair
    ∧ ∀ k, ∃ o, (owned.pairOf id).half k = some o ∧ o.differsFrom (pair.half k) = false
  /-- A desired branch has one step at most for each half, for the source first. -/
  converges : ∀ id pair steps, wanted.pairs.get? id = some pair →
    ⟨some id, steps⟩ ∈ p.changes →
      (steps.Pairwise fun a b => a.key.kind = .gitRepository ∧ b.key.kind = .terraform)
        ∧ ∀ s, s ∈ steps ↔ ∃ k, Converges ((owned.pairOf id).half k) (pair.half k) s
  /-- A branch that is not desired loses the halves that it has, the source last. -/
  removes : ∀ id steps, wanted.pairs.get? id = none → ⟨some id, steps⟩ ∈ p.changes →
    (steps.Pairwise fun a b => a.key.kind = .terraform ∧ b.key.kind = .gitRepository)
      ∧ ∀ s, s ∈ steps ↔ ∃ k o, (owned.pairOf id).half k = some o ∧ s = .delete o.key
  /-- No change is without a step. -/
  hasSteps : ∀ c ∈ p.changes, c.steps ≠ []
  creates : Counts p.summary.creates fun place : BranchId × Kind =>
    place.1 ∈ wanted.pairs.keys ∧ (owned.pairOf place.1).half place.2 = none
  updates : Counts p.summary.updates fun place : BranchId × Kind =>
    ∃ pair o, wanted.pairs.get? place.1 = some pair
      ∧ (owned.pairOf place.1).half place.2 = some o
      ∧ o.differsFrom (pair.half place.2) = true
  deletes : ∃ n, p.summary.deletes = n + owned.strays.length
    ∧ Counts n fun place : BranchId × Kind =>
        place.1 ∉ wanted.pairs.keys ∧ (owned.pairOf place.1).half place.2 ≠ none
  branches : ∃ n, p.summary.branches = n + owned.strays.length
    ∧ Counts n fun id => (id ∈ wanted.pairs.keys ∨ id ∈ owned.pairs.keys) ∧ id ∉ p.unchanged
  hasChanges : p.summary.hasChanges = true ↔ p.isEmpty = false

theorem placed_create_iff {place : BranchId × Kind} :
    (∃ s, s.operation = .create ∧ (place, s) ∈ placedSteps wanted owned)
      ↔ place.1 ∈ wanted.pairs.keys ∧ (owned.pairOf place.1).half place.2 = none := by
  obtain ⟨id, k⟩ := place
  simp only [mem_placedSteps, mem_convergeSteps, converge?_eq_some_iff, mem_removeSteps,
    SortedMap.mem_keys_iff]
  constructor
  · rintro ⟨s, hop, rfl, ⟨pair, hp, k, ⟨hnone, rfl⟩ | ⟨o, -, -, rfl⟩⟩ | ⟨-, k, o, -, rfl⟩⟩
    · exact ⟨⟨pair, hp⟩, hnone⟩
    · cases hop
    · cases hop
  · rintro ⟨⟨pair, hp⟩, hnone⟩
    exact ⟨.create k (pair.half k), rfl, rfl, .inl ⟨pair, hp, k, .inl ⟨hnone, rfl⟩⟩⟩

theorem placed_update_iff {place : BranchId × Kind} :
    (∃ s, s.operation = .update ∧ (place, s) ∈ placedSteps wanted owned)
      ↔ ∃ pair o, wanted.pairs.get? place.1 = some pair
        ∧ (owned.pairOf place.1).half place.2 = some o
        ∧ o.differsFrom (pair.half place.2) = true := by
  obtain ⟨id, k⟩ := place
  simp only [mem_placedSteps, mem_convergeSteps, converge?_eq_some_iff, mem_removeSteps]
  constructor
  · rintro ⟨s, hop, rfl, ⟨pair, hp, k, ⟨-, rfl⟩ | ⟨o, ho, hd, rfl⟩⟩ | ⟨-, k, o, -, rfl⟩⟩
    · cases hop
    · exact ⟨pair, o, hp, ho, hd⟩
    · cases hop
  · rintro ⟨pair, o, hp, ho, hd⟩
    exact ⟨.update k o (o.overwrite (pair.half k)), rfl, rfl,
      .inl ⟨pair, hp, k, .inr ⟨o, ho, hd, rfl⟩⟩⟩

theorem placed_delete_iff {place : BranchId × Kind} :
    (∃ s, s.operation = .delete ∧ (place, s) ∈ placedSteps wanted owned)
      ↔ place.1 ∉ wanted.pairs.keys ∧ (owned.pairOf place.1).half place.2 ≠ none := by
  obtain ⟨id, k⟩ := place
  simp only [mem_placedSteps, mem_convergeSteps, converge?_eq_some_iff, mem_removeSteps,
    ← SortedMap.get?_eq_none_iff, Option.ne_none_iff_exists']
  constructor
  · rintro ⟨s, hop, rfl, ⟨pair, -, k, ⟨-, rfl⟩ | ⟨o, -, -, rfl⟩⟩ | ⟨hw, k, o, ho, rfl⟩⟩
    · cases hop
    · cases hop
    · exact ⟨hw, o, ho⟩
  · rintro ⟨hw, o, ho⟩
    exact ⟨.delete o.key, rfl, rfl, .inr ⟨hw, k, o, ho, rfl⟩⟩

/-- **A change has a step**, as long as no pair that is owned is without both halves. -/
theorem steps_ne_nil_of_changes (h : Pass.Input.NoHollowPair owned) {c : BranchChange}
    (hc : Changes wanted owned c) : c.steps ≠ [] := by
  cases hc with
  | converge _ hsteps => exact hsteps
  | remove _ hp =>
    obtain ⟨k, o, ho⟩ := h _ _ hp
    rw [pairOf_of_get? hp]
    exact removeSteps_ne_nil ho
  | clear _ => exact List.cons_ne_nil _ _

theorem total_summary (p : Plan) : p.summary.total = p.steps.length := by
  unfold PlanSummary.total summary count
  induction p.steps with
  | nil => rfl
  | cons s ss ih =>
    rw [List.countP_cons, List.countP_cons, List.countP_cons, List.length_cons, ← ih]
    cases s.operation <;> simp <;> omega

/-- **There are changes if the plan is not empty**, for each of them has a step. -/
theorem hasChanges_iff {p : Plan} (h : ∀ c ∈ p.changes, c.steps ≠ []) :
    p.summary.hasChanges = true ↔ p.isEmpty = false := by
  rw [PlanSummary.hasChanges, decide_eq_true_eq, total_summary, isEmpty,
    List.isEmpty_eq_false_iff, List.length_pos_iff, not_iff_not, steps, List.flatMap_eq_nil_iff]
  refine ⟨fun hnil => List.eq_nil_iff_forall_not_mem.mpr fun c hc => h c hc (hnil c hc), ?_⟩
  rintro hnil c hc
  rw [hnil] at hc
  cases hc

/-- **Whatever is desired and owned, the plan for it has its shape**, as long as no pair
that is owned is without both halves. -/
theorem shape_compute (h : Pass.Input.NoHollowPair owned) (wanted : DesiredState) :
    Shape wanted owned (compute wanted owned) := by
  have hbranches := branches_perm wanted owned
  have hsteps : ∀ c ∈ (compute wanted owned).changes, c.steps ≠ [] := fun c hc =>
    steps_ne_nil_of_changes h (mem_changes.mp hc)
  have honce := hbranches.nodup_iff.mpr (nodup_allSteps wanted owned)
  have hcomplete : ∀ id, id ∈ (compute wanted owned).changes.filterMap BranchChange.branchId
      ++ (compute wanted owned).unchanged ↔ id ∈ wanted.pairs.keys ∨ id ∈ owned.pairs.keys := by
    intro id
    rw [hbranches.mem_iff, List.map_append, List.mem_append, map_fst_desiredSteps, List.mem_map]
    constructor
    · rintro (hid | ⟨e, he, rfl⟩)
      · exact .inl hid
      · obtain ⟨-, p, hp, -⟩ := mem_obsoleteSteps.mp he
        exact .inr (SortedMap.mem_keys_iff.mpr ⟨p, hp⟩)
    · rintro (hid | hid)
      · exact .inl hid
      · by_cases hw : id ∈ wanted.pairs.keys
        · exact .inl hw
        · obtain ⟨p, hp⟩ := SortedMap.mem_keys_iff.mp hid
          exact .inr ⟨(id, removeSteps p),
            mem_obsoleteSteps.mpr ⟨SortedMap.get?_eq_none_iff.mpr hw, p, hp, rfl⟩, rfl⟩
  refine { order := ⟨_, sorted_branchSteps wanted owned, changes_eq wanted owned⟩
           once := honce
           complete := hcomplete
           unchanged := fun id => ?_
           converges := fun id pair steps hp hc => ?_
           removes := fun id steps hw hc => ?_
           hasSteps := hsteps
           creates := ?_
           updates := ?_
           deletes := ?_
           branches := ?_
           hasChanges := hasChanges_iff hsteps }
  · simp only [mem_unchanged, convergeSteps_eq_nil_iff]
  · have hsteps : steps = convergeSteps (owned.pairOf id) pair := by
      cases mem_changes.mp hc with
      | converge hp' _ => rw [Option.some.inj (hp.symm.trans hp')]
      | remove hw _ => cases hp.symm.trans hw
    subst hsteps
    exact ⟨pairwise_convergeSteps _ pair,
      fun s => mem_convergeSteps.trans (exists_congr fun k => converge?_eq_some_iff)⟩
  · have hsteps : steps = removeSteps (owned.pairOf id) := by
      cases mem_changes.mp hc with
      | converge hp _ => cases hp.symm.trans hw
      | remove _ _ => rfl
    subst hsteps
    exact ⟨pairwise_removeSteps _, fun s => mem_removeSteps⟩
  · exact (counts_placed wanted owned .create).congr (count_eq wanted owned .create)
      fun _ => placed_create_iff
  · exact (counts_placed wanted owned .update).congr (count_eq wanted owned .update)
      fun _ => placed_update_iff
  · exact ⟨_, count_eq wanted owned .delete,
      (counts_placed wanted owned .delete).congr rfl fun _ => placed_delete_iff⟩
  -- what is named and not unchanged is changed
  · refine ⟨_, length_changes wanted owned, _, honce.of_append_left, fun id => ?_, rfl⟩
    have hdisjoint := List.disjoint_of_nodup_append honce
    simp only [← hcomplete, List.mem_append]
    exact ⟨fun hid => ⟨.inl hid, hdisjoint hid⟩, fun hid => hid.1.resolve_right hid.2⟩

/-- **Whatever a store lists, the plan for it has its shape.** -/
theorem shape_of_listed {σ : Type} {store : Store σ} {s : σ} {template : Terraform}
    {source : GitRepository} {owned : OwnedObjects}
    (h : (OwnedObjects.listIn store template source s).result = .ok owned)
    (wanted : DesiredState) : Shape wanted owned (compute wanted owned) := by
  obtain ⟨ts, ss, rfl⟩ := OwnedObjects.exists_ofListed h
  exact shape_compute (Pass.Input.noHollowPair_ofListed ⟨template, source, []⟩ ts ss) wanted

/-- A configuration that was derived for a pull request that is closed by now. -/
def outdatedPlan : Terraform :=
  { Pass.ownedPlan with
    metadata :=
      { name := "plan-old-3", namespaceName := "team", labels := ownerLabels "plan" 3 } }

/-- A store with an outdated configuration, one without its source, and a stray. -/
def untidyMemory : Memory :=
  [Memory.Edit.create .terraform outdatedPlan, .create .terraform Pass.ownedPlan,
    .create .gitRepository Pass.sampleStray].foldl (Memory.Edit.apply Pass.stoppedClock) {}

/-- There a source is created, a configuration is updated, and another is deleted with
the stray, in two branches and for the stray. -/
theorem shape_when_untidy :
    ∃ wanted owned, Pass.sampleInput.derive? = some wanted
      ∧ (OwnedObjects.listIn (Memory.store Pass.stoppedClock) Pass.sampleInput.template
          Pass.sampleInput.source untidyMemory).result = .ok owned
      ∧ Shape wanted owned (compute wanted owned)
      ∧ (compute wanted owned).summary
          = { creates := 1, updates := 1, deletes := 2, branches := 3 } := by
  have hplaced : (Pass.survey? Pass.sampleInput untidyMemory).map (fun found =>
      ([Operation.create, .update, .delete].map fun op =>
          ((placedSteps found.1 found.2).filter fun e => e.2.operation = op).length,
        (branchSteps found.1 found.2).length, found.2.strays.length))
      = some ([1, 1, 1], 2, 1) := by decide +kernel
  obtain ⟨⟨wanted, owned⟩, hsurvey, hplaced⟩ := Option.map_eq_some_iff.mp hplaced
  simp only [List.map_cons, List.map_nil, Prod.mk.injEq, List.cons.injEq, and_true] at hplaced
  obtain ⟨⟨hcreate, hupdate, hdelete⟩, hbranches, hstrays⟩ := hplaced
  have hs := Pass.surveyed_of_survey? hsurvey
  have hlisted : (OwnedObjects.listIn (Memory.store Pass.stoppedClock) Pass.sampleInput.template
      Pass.sampleInput.source untidyMemory).result = .ok owned := hs.listIn_result
  refine ⟨wanted, owned, hs.derived, hlisted, shape_of_listed hlisted wanted, ?_⟩
  have hlength := (changes_perm wanted owned).length_eq
  rw [List.length_append, List.length_map, List.length_map, hbranches, hstrays] at hlength
  rw [summary, count_eq, count_eq, count_eq, hcreate, hupdate, hdelete, hstrays, hlength]
  rfl

end Plan

end PlanSync
