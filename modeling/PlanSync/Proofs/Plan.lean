import PlanSync.Proofs.Owned

/-!
# The steps of a plan

A plan is read off a survey: what should exist and what is owned. Its changes
are of three sorts (`Plan.Changes`), and so its steps are of four
(`Plan.Planned`): a missing half is created, a half that differs is updated, a
half of a branch that is not desired is deleted, and so is a stray.

Two steps of one plan are *apart* (`Plan.pairwise_steps`): they are about
different objects, unless one of them deletes a stray that bears the derived
name of a branch, and the other creates the object that should have the name.
-/

namespace PlanSync

/-! ## Steps -/

namespace Step

/-- **Two steps are apart**: if they are about one object, then one creates and
the other deletes it. -/
def Apart (a b : Step) : Prop :=
  a.key = b.key → (a.operation = .create ∧ b.operation = .delete)
    ∨ (a.operation = .delete ∧ b.operation = .create)

theorem Apart.symm {a b : Step} (h : a.Apart b) : b.Apart a :=
  fun hkey => (h hkey.symm).symm.imp And.symm And.symm

theorem apart_of_ne {a b : Step} (h : a.key ≠ b.key) : a.Apart b := fun hkey => absurd hkey h

end Step

namespace Plan

variable {k : Kind} {wanted : DesiredState} {owned : OwnedObjects}

/-! ## Converging one half -/

theorem converge?_some_of_differs {o desired : Object k} (h : o.differsFrom desired = true) :
    converge? (some o) desired = some (.update k o (o.overwrite desired)) := if_pos h

theorem converge?_some_of_not_differs {o desired : Object k} (h : o.differsFrom desired = false) :
    converge? (some o) desired = none := by
  rw [converge?, h, if_neg Bool.false_ne_true]

/-- **Nothing is to be done** exactly for a half that does not differ. -/
theorem converge?_eq_none_iff {current : Option (Object k)} {desired : Object k} :
    converge? current desired = none ↔ ∃ o, current = some o ∧ o.differsFrom desired = false := by
  cases current with
  | none => exact ⟨fun h => (by cases h), fun ⟨_, h, _⟩ => (by cases h)⟩
  | some o =>
    cases hd : o.differsFrom desired with
    | true =>
      rw [converge?_some_of_differs hd]
      refine ⟨fun h => (by cases h), fun ⟨o', ho, hd'⟩ => ?_⟩
      cases ho
      cases hd.symm.trans hd'
    | false => exact ⟨fun _ => ⟨o, rfl, hd⟩, fun _ => converge?_some_of_not_differs hd⟩

/-- A step for a half is about an object of its kind. -/
theorem kind_of_converge? {current : Option (Object k)} {desired : Object k} {s : Step}
    (h : converge? current desired = some s) : s.key.kind = k ∧ s.operation ≠ .delete := by
  cases current with
  | none =>
    cases h
    exact ⟨rfl, fun hop => by cases hop⟩
  | some o =>
    rw [converge?] at h
    split at h
    · cases h
      exact ⟨rfl, fun hop => by cases hop⟩
    · cases h

/-- The steps that converge a pair, kind by kind. -/
theorem convergeSteps_eq (current : OwnedPair) (desired : DesiredPair) :
    convergeSteps current desired
      = [Kind.gitRepository, Kind.terraform].flatMap fun k =>
          (converge? (current.half k) (desired.half k)).toList := by
  rw [List.flatMap_cons, List.flatMap_singleton]
  rfl

/-- The steps that remove a pair, kind by kind. -/
theorem removeSteps_eq (current : OwnedPair) :
    removeSteps current
      = [Kind.terraform, Kind.gitRepository].flatMap fun k =>
          (current.half k).toList.map fun o => .delete o.key := by
  rw [List.flatMap_cons, List.flatMap_singleton]
  rfl

theorem mem_convergeSteps {current : OwnedPair} {desired : DesiredPair} {s : Step} :
    s ∈ convergeSteps current desired
      ↔ ∃ k, converge? (current.half k) (desired.half k) = some s := by
  rw [convergeSteps_eq, List.mem_flatMap]
  constructor
  · rintro ⟨k, -, hs⟩
    exact ⟨k, Option.mem_toList.mp hs⟩
  · rintro ⟨k, hs⟩
    exact ⟨k, by cases k <;> simp, Option.mem_toList.mpr hs⟩

/-- **The source comes before the configuration.** -/
theorem pairwise_convergeSteps (current : OwnedPair) (desired : DesiredPair) :
    (convergeSteps current desired).Pairwise fun a b =>
      a.key.kind = .gitRepository ∧ b.key.kind = .terraform := by
  rw [convergeSteps_eq]
  refine List.pairwise_flatMap.mpr ⟨fun k _ => ?_, ?_⟩
  · cases converge? (current.half k) (desired.half k) with
    | none => exact .nil
    | some s => exact List.pairwise_singleton _ s
  · refine List.pairwise_pair.mpr fun a ha b hb => ?_
    exact ⟨(kind_of_converge? (Option.mem_toList.mp ha)).1,
      (kind_of_converge? (Option.mem_toList.mp hb)).1⟩

theorem mem_removeSteps {current : OwnedPair} {s : Step} :
    s ∈ removeSteps current ↔ ∃ k, ∃ o : Object k, current.half k = some o ∧ s = .delete o.key := by
  rw [removeSteps_eq, List.mem_flatMap]
  constructor
  · rintro ⟨k, -, hs⟩
    obtain ⟨o, ho, rfl⟩ := List.mem_map.mp hs
    exact ⟨k, o, Option.mem_toList.mp ho, rfl⟩
  · rintro ⟨k, o, ho, rfl⟩
    exact ⟨k, by cases k <;> simp, List.mem_map.mpr ⟨o, Option.mem_toList.mpr ho, rfl⟩⟩

/-! ## Changes -/

/-- **The changes of a plan**: a desired branch that needs steps converges, a
branch that is not desired is removed, and a stray is cleared away. -/
inductive Changes (wanted : DesiredState) (owned : OwnedObjects) : BranchChange → Prop
  | converge {id : BranchId} {pair : DesiredPair} (hp : wanted.pairs.get? id = some pair)
      (hsteps : convergeSteps (owned.pairOf id) pair ≠ []) :
    Changes wanted owned ⟨some id, convergeSteps (owned.pairOf id) pair⟩
  | remove {id : BranchId} {p : OwnedPair} (hw : wanted.pairs.get? id = none)
      (hp : owned.pairs.get? id = some p) :
    Changes wanted owned ⟨some id, removeSteps (owned.pairOf id)⟩
  | clear {key : ObjectKey} (hkey : key ∈ owned.strays) :
    Changes wanted owned ⟨none, [.delete key]⟩

/-- The steps of branches, before they are brought into order. -/
def branchSteps (wanted : DesiredState) (owned : OwnedObjects) : List (BranchId × List Step) :=
  ((desiredSteps wanted owned).filter fun e => !e.2.isEmpty) ++ obsoleteSteps wanted owned

/-- The changes of branches, in their order. -/
def branchChanges (wanted : DesiredState) (owned : OwnedObjects) : List BranchChange :=
  ((branchSteps wanted owned).mergeSort fun a b => a.1 ≤ b.1).map fun e => ⟨some e.1, e.2⟩

/-- **Branches come before strays.** -/
theorem changes_eq (wanted : DesiredState) (owned : OwnedObjects) :
    (compute wanted owned).changes
      = branchChanges wanted owned ++ owned.strays.map fun key => ⟨none, [.delete key]⟩ := rfl

theorem mem_desiredSteps {e : BranchId × List Step} :
    e ∈ desiredSteps wanted owned ↔ ∃ pair, wanted.pairs.get? e.1 = some pair
      ∧ e.2 = convergeSteps (owned.pairOf e.1) pair := by
  rw [desiredSteps, List.mem_map]
  constructor
  · rintro ⟨⟨id, pair⟩, hmem, rfl⟩
    exact ⟨pair, SortedMap.mem_entries_iff.mp hmem, rfl⟩
  · rintro ⟨pair, hp, he⟩
    exact ⟨(e.1, pair), SortedMap.mem_entries_iff.mpr hp, Prod.ext rfl he.symm⟩

theorem map_fst_desiredSteps (wanted : DesiredState) (owned : OwnedObjects) :
    (desiredSteps wanted owned).map Prod.fst = wanted.pairs.keys := by
  rw [desiredSteps, List.map_map]
  rfl

theorem mem_obsoleteSteps {e : BranchId × List Step} :
    e ∈ obsoleteSteps wanted owned ↔ wanted.pairs.get? e.1 = none
      ∧ ∃ p, owned.pairs.get? e.1 = some p ∧ e.2 = removeSteps p := by
  rw [obsoleteSteps, List.mem_map]
  constructor
  · rintro ⟨⟨id, p⟩, hmem, rfl⟩
    obtain ⟨hmem, hw⟩ := List.mem_filter.mp hmem
    rw [Bool.not_eq_true', SortedMap.contains_eq_false_iff] at hw
    exact ⟨hw, p, SortedMap.mem_entries_iff.mp hmem, rfl⟩
  · rintro ⟨hw, p, hp, he⟩
    refine ⟨(e.1, p), List.mem_filter.mpr ⟨SortedMap.mem_entries_iff.mpr hp, ?_⟩,
      Prod.ext rfl he.symm⟩
    rw [Bool.not_eq_true', SortedMap.contains_eq_false_iff]
    exact hw

/-- **A branch is desired or it is not**, so no branch has steps twice. -/
theorem nodup_allSteps (wanted : DesiredState) (owned : OwnedObjects) :
    ((desiredSteps wanted owned ++ obsoleteSteps wanted owned).map Prod.fst).Nodup := by
  have hobsolete : (obsoleteSteps wanted owned).map Prod.fst
      = (owned.pairs.entries.filter fun e => !wanted.pairs.contains e.1).map Prod.fst := by
    rw [obsoleteSteps, List.map_map]
    rfl
  rw [List.map_append, List.nodup_append, map_fst_desiredSteps]
  refine ⟨wanted.pairs.nodup_keys, ?_, fun id hid id' hid' heq => ?_⟩
  · rw [hobsolete]
    exact (List.filter_sublist.map Prod.fst).nodup owned.pairs.nodup_keys
  · subst heq
    obtain ⟨e, he, rfl⟩ := List.mem_map.mp hid'
    exact SortedMap.get?_eq_none_iff.mp (mem_obsoleteSteps.mp he).1 hid

theorem pairOf_of_get? {id : BranchId} {p : OwnedPair} (h : owned.pairs.get? id = some p) :
    owned.pairOf id = p := by
  rw [OwnedObjects.pairOf, h, Option.getD_some]

theorem changes_perm (wanted : DesiredState) (owned : OwnedObjects) :
    (compute wanted owned).changes.Perm
      ((branchSteps wanted owned).map (fun e => ⟨some e.1, e.2⟩)
        ++ owned.strays.map fun key => ⟨none, [.delete key]⟩) :=
  ((List.mergeSort_perm _ _).map _).append_right _

/-- **What a plan changes.** -/
theorem mem_changes {c : BranchChange} :
    c ∈ (compute wanted owned).changes ↔ Changes wanted owned c := by
  rw [(changes_perm wanted owned).mem_iff, List.mem_append, List.mem_map, List.mem_map, branchSteps]
  constructor
  · rintro (⟨e, he, rfl⟩ | ⟨key, hkey, rfl⟩)
    · rcases List.mem_append.mp he with he | he
      · obtain ⟨hmem, hsteps⟩ := List.mem_filter.mp he
        obtain ⟨pair, hp, hdef⟩ := mem_desiredSteps.mp hmem
        rw [hdef] at hsteps ⊢
        refine .converge hp fun hnil => ?_
        rw [hnil] at hsteps
        cases hsteps
      · obtain ⟨hw, p, hp, hdef⟩ := mem_obsoleteSteps.mp he
        rw [hdef, ← pairOf_of_get? hp]
        exact .remove hw hp
    · exact .clear hkey
  · rintro (⟨hp, hsteps⟩ | ⟨hw, hp⟩ | ⟨hkey⟩)
    · refine .inl ⟨(_, _), List.mem_append_left _ (List.mem_filter.mpr
        ⟨mem_desiredSteps.mpr ⟨_, hp, rfl⟩, ?_⟩), rfl⟩
      rw [Bool.not_eq_true', List.isEmpty_eq_false_iff]
      exact hsteps
    · exact .inl ⟨(_, _), List.mem_append_right _ (mem_obsoleteSteps.mpr
        ⟨hw, _, hp, congrArg removeSteps (pairOf_of_get? hp)⟩), rfl⟩
    · exact .inr ⟨_, hkey, rfl⟩

/-- **A branch is unchanged** exactly if it is desired and needs no step. -/
theorem unchanged_eq (wanted : DesiredState) (owned : OwnedObjects) :
    (compute wanted owned).unchanged
      = ((desiredSteps wanted owned).filter fun e => e.2.isEmpty).map Prod.fst := rfl

/-! ## Steps of a plan -/

/-- **The steps of a plan**, and why each is there. -/
inductive Planned (wanted : DesiredState) (owned : OwnedObjects) : Step → Prop
  | create {id : BranchId} {pair : DesiredPair} (k : Kind)
      (hp : wanted.pairs.get? id = some pair) (hnone : (owned.pairOf id).half k = none) :
    Planned wanted owned (.create k (pair.half k))
  | update {id : BranchId} {pair : DesiredPair} (k : Kind) {o : Object k}
      (hp : wanted.pairs.get? id = some pair) (ho : (owned.pairOf id).half k = some o)
      (hd : o.differsFrom (pair.half k) = true) :
    Planned wanted owned (.update k o (o.overwrite (pair.half k)))
  | remove {id : BranchId} (k : Kind) {o : Object k} (hw : wanted.pairs.get? id = none)
      (ho : (owned.pairOf id).half k = some o) : Planned wanted owned (.delete o.key)
  | clear {key : ObjectKey} (hkey : key ∈ owned.strays) : Planned wanted owned (.delete key)

theorem planned_of_converge? {id : BranchId} {pair : DesiredPair} {s : Step}
    (hp : wanted.pairs.get? id = some pair)
    (hs : converge? ((owned.pairOf id).half k) (pair.half k) = some s) :
    Planned wanted owned s := by
  cases ho : (owned.pairOf id).half k with
  | none =>
    rw [ho] at hs
    cases hs
    exact .create k hp ho
  | some o =>
    rw [ho] at hs
    cases hd : o.differsFrom (pair.half k) with
    | true =>
      rw [converge?_some_of_differs hd] at hs
      cases hs
      exact .update k hp ho hd
    | false =>
      rw [converge?_some_of_not_differs hd] at hs
      cases hs

/-- A change is made of steps of the plan. -/
theorem planned_of_changes {c : BranchChange} {s : Step} (hc : Changes wanted owned c)
    (hs : s ∈ c.steps) : Planned wanted owned s := by
  cases hc with
  | converge hp _ =>
    obtain ⟨k, hs⟩ := mem_convergeSteps.mp hs
    exact planned_of_converge? hp hs
  | remove hw _ =>
    obtain ⟨k, o, ho, rfl⟩ := mem_removeSteps.mp hs
    exact .remove k hw ho
  | clear hkey =>
    cases List.mem_singleton.mp hs
    exact .clear hkey

/-- **Every step that is called for is in the plan**, and no other. -/
theorem mem_steps {s : Step} :
    s ∈ (compute wanted owned).steps ↔ Planned wanted owned s := by
  rw [steps, List.mem_flatMap]
  constructor
  · rintro ⟨c, hc, hs⟩
    exact planned_of_changes (mem_changes.mp hc) hs
  · intro hs
    have converging : ∀ {id pair k}, wanted.pairs.get? id = some pair →
        converge? ((owned.pairOf id).half k) (pair.half k) = some s →
        ∃ c ∈ (compute wanted owned).changes, s ∈ c.steps := by
      intro id pair k hp hs
      have hmem := mem_convergeSteps.mpr ⟨k, hs⟩
      exact ⟨_, mem_changes.mpr (.converge hp (List.ne_nil_of_mem hmem)), hmem⟩
    cases hs with
    | create k hp hnone => exact converging hp (congrArg (converge? · _) hnone)
    | update k hp ho hd =>
      exact converging hp ((congrArg (converge? · _) ho).trans (converge?_some_of_differs hd))
    | remove k hw ho =>
      exact ⟨_, mem_changes.mpr (.remove hw (OwnedObjects.get?_pairs_of_half ho)),
        mem_removeSteps.mpr ⟨k, _, ho, rfl⟩⟩
    | clear hkey => exact ⟨_, mem_changes.mpr (.clear hkey), List.mem_singleton.mpr rfl⟩

/-! ### Keys -/

section Surveyed

open Pass

variable {i : Input} {m : Memory}

/-- A step for a half has the derived key of the branch. -/
theorem key_of_converge? (hm : m.Sound) (h : Surveyed i m wanted owned) {id : BranchId}
    {pair : DesiredPair} {s : Step} (hp : wanted.pairs.get? id = some pair)
    (hs : converge? ((owned.pairOf id).half k) (pair.half k) = some s) :
    s.key = i.derivedKey k id := by
  cases ho : (owned.pairOf id).half k with
  | none =>
    rw [ho] at hs
    cases hs
    exact Input.key_half h.derived hp k
  | some o =>
    rw [ho, converge?] at hs
    split at hs
    · cases hs
      show o.key = _
      exact h.key_half hm ho
    · cases hs

/-- Every step for a branch has a derived key of the branch. -/
theorem key_of_branchSteps (hm : m.Sound) (h : Surveyed i m wanted owned)
    {e : BranchId × List Step} (he : e ∈ branchSteps wanted owned) {s : Step} (hs : s ∈ e.2) :
    ∃ k, s.key = i.derivedKey k e.1 := by
  rcases List.mem_append.mp he with he | he
  · obtain ⟨pair, hp, hdef⟩ := mem_desiredSteps.mp (List.mem_filter.mp he).1
    rw [hdef] at hs
    obtain ⟨k, hs⟩ := mem_convergeSteps.mp hs
    exact ⟨k, key_of_converge? hm h hp hs⟩
  · obtain ⟨-, p, hp, hdef⟩ := mem_obsoleteSteps.mp he
    rw [hdef, ← pairOf_of_get? hp] at hs
    obtain ⟨k, o, ho, rfl⟩ := mem_removeSteps.mp hs
    exact ⟨k, h.key_half hm ho⟩

/-- **No branch has two changes.** -/
theorem nodup_branchSteps (wanted : DesiredState) (owned : OwnedObjects) :
    ((branchSteps wanted owned).map Prod.fst).Nodup :=
  ((List.filter_sublist.append_right _).map Prod.fst).nodup (nodup_allSteps wanted owned)

/-- The steps for one branch are about different objects. -/
theorem pairwise_branchSteps (hm : m.Sound) (h : Surveyed i m wanted owned)
    {e : BranchId × List Step} (he : e ∈ branchSteps wanted owned) :
    e.2.Pairwise fun a b => a.key ≠ b.key := by
  -- one step at most for each kind
  have hkinds : ∀ {ks : List Kind} {f : Kind → List Step}, ks.Nodup →
      (∀ k, (f k).length ≤ 1) → (∀ k, ∀ s ∈ f k, s.key.kind = k) →
      (ks.flatMap f).Pairwise fun a b => a.key ≠ b.key := by
    intro ks f hks hlength hkind
    refine List.pairwise_flatMap.mpr ⟨fun k _ => ?_, hks.imp fun hne a ha b hb hkey => ?_⟩
    · rcases hf : f k with _ | ⟨s, _ | ⟨s', ss⟩⟩
      · exact .nil
      · exact List.pairwise_singleton _ _
      · have hlength := hlength k
        rw [hf, List.length_cons, List.length_cons] at hlength
        omega
    · exact hne ((hkind _ a ha).symm.trans ((congrArg _ hkey).trans (hkind _ b hb)))
  rcases List.mem_append.mp he with he | he
  · obtain ⟨pair, hp, hdef⟩ := mem_desiredSteps.mp (List.mem_filter.mp he).1
    rw [hdef, convergeSteps_eq]
    refine hkinds (by decide) (fun k => ?_) fun k s hs => ?_
    · exact Option.length_toList_le
    · exact congrArg ObjectKey.kind (key_of_converge? hm h hp (Option.mem_toList.mp hs))
  · obtain ⟨-, p, hp, hdef⟩ := mem_obsoleteSteps.mp he
    rw [hdef, removeSteps_eq]
    refine hkinds (by decide) (fun k => ?_) fun k s hs => ?_
    · rw [List.length_map]
      exact Option.length_toList_le
    · obtain ⟨o, -, rfl⟩ := List.mem_map.mp hs
      rfl

/-- The steps of all branches are about different objects. -/
theorem pairwise_allBranchSteps (hm : m.Sound) (h : Surveyed i m wanted owned) :
    ((branchSteps wanted owned).flatMap Prod.snd).Pairwise fun a b => a.key ≠ b.key := by
  refine List.pairwise_flatMap.mpr ⟨fun e he => pairwise_branchSteps hm h he, ?_⟩
  refine (List.pairwise_map.mp (nodup_branchSteps wanted owned)).imp_of_mem ?_
  intro e e' he he' hne a ha b hb hkey
  obtain ⟨k, ha⟩ := key_of_branchSteps hm h he ha
  obtain ⟨k', hb⟩ := key_of_branchSteps hm h he' hb
  exact hne (Input.derivedKey_injective (ha.symm.trans (hkey.trans hb))).2

/-- **A stray is no half of a pair.** -/
theorem stray_ne_half (hm : m.Sound) (h : Surveyed i m wanted owned) {id : BranchId}
    {o : Object k} (ho : (owned.pairOf id).half k = some o) {key : ObjectKey}
    (hkey : key ∈ owned.strays) : o.key ≠ key := by
  rintro rfl
  obtain ⟨o', hholds', -, hstray, hkey'⟩ := (h.mem_strays_iff hm).mp hkey
  obtain ⟨hholds, -, hstanding⟩ := (h.half_iff hm).mp ho
  have heq : o' = o := hholds'.unique hholds hkey'
  have hstanding' : OwnedObjects.standing (i.origin k) o' = .ofBranch id := by
    rw [heq]
    exact hstanding
  cases hstray.symm.trans hstanding'

/-- A step for a branch and the deletion of a stray are apart. -/
theorem apart_clear (hm : m.Sound) (h : Surveyed i m wanted owned)
    {e : BranchId × List Step} (he : e ∈ branchSteps wanted owned) {s : Step} (hs : s ∈ e.2)
    {key : ObjectKey} (hkey : key ∈ owned.strays) : s.Apart (.delete key) := by
  rcases List.mem_append.mp he with he | he
  · obtain ⟨pair, hp, hdef⟩ := mem_desiredSteps.mp (List.mem_filter.mp he).1
    rw [hdef] at hs
    obtain ⟨k, hs⟩ := mem_convergeSteps.mp hs
    cases ho : (owned.pairOf e.1).half k with
    | none =>
      rw [ho] at hs
      cases hs
      exact fun _ => .inl ⟨rfl, rfl⟩
    | some o =>
      rw [ho, converge?] at hs
      split at hs
      · cases hs
        refine Step.apart_of_ne ?_
        show o.key ≠ key
        exact stray_ne_half hm h ho hkey
      · cases hs
  · obtain ⟨-, p, hp, hdef⟩ := mem_obsoleteSteps.mp he
    rw [hdef, ← pairOf_of_get? hp] at hs
    obtain ⟨k, o, ho, rfl⟩ := mem_removeSteps.mp hs
    exact Step.apart_of_ne (stray_ne_half hm h ho hkey)

/-- **The steps of a plan are apart.** -/
theorem pairwise_steps (hm : m.Sound) (h : Surveyed i m wanted owned) :
    (compute wanted owned).steps.Pairwise Step.Apart := by
  have hperm : (compute wanted owned).steps.Perm
      ((branchSteps wanted owned).flatMap Prod.snd
        ++ owned.strays.map fun key => .delete key) := by
    refine ((changes_perm wanted owned).flatMap_right _).trans (List.Perm.of_eq ?_)
    rw [List.flatMap_append, List.flatMap_map, List.flatMap_map]
    exact congrArg _ List.map_eq_flatMap.symm
  -- steps for branches among themselves, strays among themselves, and one of each
  refine (hperm.pairwise_iff Step.Apart.symm).mpr (List.pairwise_append.mpr ⟨?_, ?_, ?_⟩)
  · exact (pairwise_allBranchSteps hm h).imp Step.apart_of_ne
  · exact List.pairwise_map.mpr ((h.nodup_strays hm).imp fun {a b} hne =>
      Step.apart_of_ne (a := .delete a) (b := .delete b) hne)
  · intro s hs d hd
    obtain ⟨e, he, hs⟩ := List.mem_flatMap.mp hs
    obtain ⟨key, hkey, rfl⟩ := List.mem_map.mp hd
    exact apart_clear hm h he hs hkey

/-- **What is to be deleted is held** when the plan is made. -/
theorem holds_of_delete (hm : m.Sound) (h : Surveyed i m wanted owned) {key : ObjectKey}
    (hs : Planned wanted owned (.delete key)) :
    ∃ o : Object key.kind, m.Holds o ∧ i.Owns o ∧ o.key = key := by
  cases hs with
  | remove k hw ho =>
    obtain ⟨hholds, howns, -⟩ := (h.half_iff hm).mp ho
    exact ⟨_, hholds, howns, rfl⟩
  | clear hkey =>
    obtain ⟨o, hholds, howns, -, hkey⟩ := (h.mem_strays_iff hm).mp hkey
    exact ⟨o, hholds, howns, hkey⟩

theorem cell_of_delete (hm : m.Sound) (h : Surveyed i m wanted owned) {s : Step}
    (hs : Planned wanted owned s) (hop : s.operation = .delete) : m.cell s.key ≠ none := by
  cases s with
  | create k o => cases hop
  | update k o o' => cases hop
  | delete key =>
    obtain ⟨o, ⟨j, hj, -⟩, -, hkey⟩ := holds_of_delete hm h hs
    intro hnone
    rw [hkey] at hj
    cases hnone.symm.trans hj

end Surveyed

end Plan

end PlanSync
