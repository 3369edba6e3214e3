import PlanSync.Proofs.Action
import PlanSync.Proofs.Pass.Course

/-!
# Derived objects are recognised again

What derivation writes into an object, a listing has to read out of it: a derived
object carries the owner labels and the number of its pull request, and its name
ends in its branch id. From these a listing tells the pair that the object is a half
of. It does, whatever the names and the base are, exactly if the head branch of the
pull request is not empty (`Pass.recognised_iff`).

An id is told from a name only if something stands before its last dash, so for an
empty head branch the objects of the pair are strays from the beginning
(`Pass.nameless_pair_astray`). Derivation makes pairs for such pull requests all the
same.

All that is asked of the store is that it can list the namespace.
-/

namespace PlanSync

/-! ## Stores that can list a namespace -/

/-- **A store shows a namespace**: every listing gives the objects that the store
holds there and that the selector accepts, and changes nothing. Under one key it holds
one object at most. -/
structure Store.Shows {σ : Type} (store : Store σ) (s : σ) (namespaceName : String)
    (holds : {k : Kind} → Object k → Prop) : Prop where
  list : ∀ k selector, ∃ os : List (Object k),
    (store.list k namespaceName selector).Leaves s (.ok os) s
      ∧ ∀ o, o ∈ os ↔ holds o ∧ selector.accepts o.labels = true
  here : ∀ {k : Kind} {o : Object k}, holds o → o.namespaceName = namespaceName
  unique : ∀ {k : Kind} {o o' : Object k}, holds o → holds o' → o.key = o'.key → o = o'

/-- **A store in memory shows what it holds**, if all cells of the namespace can be
read. -/
theorem Memory.Sound.shows (clock : Nat → Timestamp) {m : Memory} (hm : m.Sound)
    {namespaceName : String} (hread : ∀ k, m.ReadableIn k namespaceName) :
    (store clock).Shows m namespaceName
      fun o => m.Holds o ∧ o.namespaceName = namespaceName where
  list k selector := by
    have hlist : ∃ os, m.list k namespaceName selector = .ok os := list_eq_ok_iff.mpr (hread k)
    obtain ⟨os, hos⟩ := hlist
    exact ⟨os, ⟨hos, rfl⟩, fun o => (mem_list hm hos o).trans and_assoc.symm⟩
  here h := h.2
  unique h h' hkey := h.1.unique h'.1 hkey

/-! ## Names with nothing before the number -/

/-- **No id is told from a name with an empty head branch.** -/
theorem BranchId.ofName?_nameFrom_empty (base : String) (number : Nat) :
    ofName? ((of "" number).nameFrom base) base (Text.decimal number) = none := by
  refine Option.eq_none_iff_forall_ne_some.mpr fun id h => ?_
  obtain rfl := nameFrom_injective (eq_nameFrom_of_ofName? h)
  exact (ofName?_eq_some_of_iff.mp h).2.1 rfl

namespace Pass

open OwnedObjects

variable {i : Input} {wanted : DesiredState} {id : BranchId} {pair : DesiredPair} {k : Kind}

/-- **How an object with a derived name stands**, if it has the number of the pull
request: it is of its branch, unless the head branch is empty. -/
theorem standing_of_number (hw : i.derive? = some wanted) (hp : wanted.pairs.get? id = some pair)
    (hnumber : pair.pullRequest.number < Text.wordBound) {o : Object k}
    (hkey : o.key = i.derivedKey k id)
    (hlabel : o.labels.get? pullRequestLabel = (pair.half k).labels.get? pullRequestLabel) :
    standing (i.origin k) o
      = if pair.pullRequest.headBranch = "" then .stray else .ofBranch id := by
  obtain ⟨pr, -, rfl, -, rfl⟩ := Input.of_get?_pairs hw hp
  have hnumber : pr.number < Text.wordBound := hnumber
  rw [Input.get?_labels_half, get?_ownerLabels, if_neg (by decide), if_pos rfl,
    Option.some_or] at hlabel
  show standing (i.origin k) o = if pr.headBranch = "" then .stray else .ofBranch pr.branchId
  by_cases hhead : pr.headBranch = ""
  · have hname : o.name = (BranchId.of "" pr.number).nameFrom (i.origin k).name := by
      rw [← hhead]
      exact congrArg ObjectKey.name hkey
    have hnone : branchIdOf? o (i.origin k).name = none := by
      rw [branchIdOf?, hlabel, hname]
      exact BranchId.ofName?_nameFrom_empty _ _
    rw [if_pos hhead, standing, if_neg (Input.not_itself_of_key hkey), hnone]
  · rw [if_neg hhead]
    exact Input.standing_of_key hkey hlabel hhead hnumber

/-- **How a derived object stands**, whatever was added to it since. -/
theorem standing_derived (hw : i.derive? = some wanted) (hp : wanted.pairs.get? id = some pair)
    (hnumber : pair.pullRequest.number < Text.wordBound) {o : Object k}
    (hkey : o.key = (pair.half k).key) (hcovers : o.Covers (pair.half k)) :
    standing (i.origin k) o
      = if pair.pullRequest.headBranch = "" then .stray else .ofBranch id := by
  obtain ⟨_, -, -, hlabel⟩ := Input.pullRequestLabel_half hw hp k
  exact standing_of_number hw hp hnumber (hkey.trans (Input.key_half hw hp k))
    ((hcovers.labels _ _ hlabel).trans hlabel.symm)

theorem bears_of_covers (hw : i.derive? = some wanted) (hp : wanted.pairs.get? id = some pair)
    {o : Object k} (hcovers : o.Covers (pair.half k)) : i.Bears o :=
  have hbears := Input.bears_half hw hp k
  ⟨hcovers.labels _ _ hbears.marker, hcovers.labels _ _ hbears.template⟩

/-- **What a template is found to own**, in a namespace that is shown. -/
theorem exists_lists (i : Input) {σ : Type} {store : Store σ} {s : σ}
    {holds : {k : Kind} → Object k → Prop} (h : store.Shows s i.template.namespaceName holds) :
    ∃ ts ss, (listIn store i.template i.source).Leaves s (.ok (ofListed i.template i.source ts ss)) s
      ∧ ∀ (k : Kind) (o : Object k), o ∈ Input.listed ts ss k ↔ holds o ∧ i.Bears o := by
  obtain ⟨ts, hts, hmem⟩ := h.list .terraform (ownerSelector i.template.name)
  obtain ⟨ss, hss, hmem'⟩ := h.list .gitRepository (ownerSelector i.template.name)
  have hbears : ∀ (k : Kind) (o : Object k),
      (ownerSelector i.template.name).accepts o.labels = true ↔ i.Bears o := fun k o =>
    accepts_ownerSelector.trans ⟨fun h => ⟨h.1, h.2⟩, fun h => ⟨h.1, h.2⟩⟩
  refine ⟨ts, ss, hts.bind <| hss.bind <|
    (Action.leaves_report _ s).bind (Action.leaves_done _ s), fun k o => ?_⟩
  rw [← hbears]
  cases k with
  | terraform => exact hmem o
  | gitRepository => exact hmem' o

/-- **What is listed is found where it stands**: as the half of the pair of its branch,
or among the strays. -/
theorem found_by_standing {σ : Type} {store : Store σ} {s : σ}
    {holds : {k : Kind} → Object k → Prop} (h : store.Shows s i.template.namespaceName holds)
    {ts : List Terraform} {ss : List GitRepository}
    (hlisted : ∀ (k : Kind) (o : Object k), o ∈ Input.listed ts ss k ↔ holds o ∧ i.Bears o)
    {o : Object k} (ho : o ∈ Input.listed ts ss k) :
    (∀ id, ((ofListed i.template i.source ts ss).pairOf id).half k = some o
        ↔ standing (i.origin k) o = .ofBranch id)
      ∧ (o.key ∈ (ofListed i.template i.source ts ss).strays
        ↔ standing (i.origin k) o = .stray) := by
  have hholds : ∀ (l : Kind) (o' : Object l), o' ∈ Input.listed ts ss l → holds o' :=
    fun l o' ho' => ((hlisted l o').mp ho').1
  refine ⟨fun id => ?_, ?_⟩
  · rw [Input.half_ofListed]
    refine ⟨fun hfind => by simpa using List.find?_some hfind, fun hbranch => ?_⟩
    cases hfind : (Input.listed ts ss k).reverse.find?
        fun o => standing (i.origin k) o = .ofBranch id with
    | none =>
      exact absurd (decide_eq_true hbranch)
        (List.find?_eq_none.mp hfind _ (List.mem_reverse.mpr ho))
    -- whatever is of the branch has the derived name, and names are not shared
    | some o' =>
      have ho' := hholds k o' (List.mem_reverse.mp (List.mem_of_find?_eq_some hfind))
      have hbranch' : standing (i.origin k) o' = .ofBranch id := by
        simpa using List.find?_some hfind
      refine congrArg some (h.unique ho' (hholds k o ho) ?_)
      rw [Input.key_of_standing (h.here ho') hbranch',
        Input.key_of_standing (h.here (hholds k o ho)) hbranch]
  · rw [Input.mem_strays_ofListed]
    constructor
    · rintro ⟨o', ho', hstray, hsame⟩
      have heq : o' = o := h.unique (hholds _ o' ho') (hholds k o ho) hsame
      exact heq ▸ hstray
    · exact fun hstray => ⟨o, ho, hstray, rfl⟩

/-- **A derived pair is recognised exactly if its head branch is not empty.** Let a
store hold, in the namespace of the template, the two objects of a pair as derivation
makes them, whatever else is there, and whatever was added to their labels since. What
the template is found to own then has both objects as the halves of the pair of that
id and neither among the strays, if the head branch of the pull request is not empty;
if it is, both are strays and neither is a half. -/
theorem recognised_iff (hw : i.derive? = some wanted) (hp : wanted.pairs.get? id = some pair)
    (hnumber : pair.pullRequest.number < Text.wordBound) {σ : Type} {store : Store σ} {s : σ}
    {holds : {k : Kind} → Object k → Prop} (h : store.Shows s i.template.namespaceName holds)
    {o : (k : Kind) → Object k} (ho : ∀ k, holds (o k)) (hkey : ∀ k, (o k).key = (pair.half k).key)
    (hcovers : ∀ k, (o k).Covers (pair.half k)) :
    ∃ owned, (listIn store i.template i.source).Leaves s (.ok owned) s
      ∧ ∀ k, ((owned.pairOf id).half k = some (o k) ↔ pair.pullRequest.headBranch ≠ "")
        ∧ ((o k).key ∈ owned.strays ↔ pair.pullRequest.headBranch = "") := by
  obtain ⟨ts, ss, hleaves, hlisted⟩ := exists_lists i h
  refine ⟨_, hleaves, fun k => ?_⟩
  obtain ⟨hhalf, hstray⟩ := found_by_standing h hlisted
    ((hlisted k _).mpr ⟨ho k, bears_of_covers hw hp (hcovers k)⟩)
  rw [hhalf, hstray, standing_derived hw hp hnumber (hkey k) (hcovers k)]
  by_cases hhead : pair.pullRequest.headBranch = "" <;> simp [hhead]

/-! ## A pull request with a head branch, and one without -/

/-- The sample with one pull request, from a head branch of the given name. -/
def headedInput (head : String) : Input :=
  { sampleInput with
    pullRequests :=
      [{ repository := { org := "org", name := "repo" }, number := 7, baseBranch := "main",
         headBranch := head }] }

/-- The pair that is derived for its pull request. -/
def headedPair (head : String) : DesiredPair :=
  DesiredState.pairFor sampleInput.template sampleInput.source
    { repository := { org := "org", name := "repo" }, number := 7, baseBranch := "main",
      headBranch := head }

/-- A store with the two objects of that pair. -/
def headedMemory (head : String) : Memory :=
  ((Memory.store stoppedClock).create .terraform (headedPair head).terraform
    ((Memory.store stoppedClock).create .gitRepository (headedPair head).source {}).state).state

theorem reachable_headedMemory (head : String) :
    Memory.Reachable stoppedClock (headedMemory head) := .create (.create .empty _ _) _ _

theorem exists_headedPair (head : String)
    (h : (headedInput head).derive?.map (·.pairs.keys) = some [.of head 7]) :
    ∃ wanted, (headedInput head).derive? = some wanted
      ∧ wanted.pairs.get? (.of head 7) = some (headedPair head) := by
  obtain ⟨wanted, pair, hw, hp⟩ := Input.exists_get?_of_keys h (List.mem_singleton_self _)
  obtain ⟨pr, hpr, -, -, rfl⟩ := Input.of_get?_pairs hw hp
  obtain rfl := List.mem_singleton.mp hpr.1
  exact ⟨wanted, hw, hp⟩

/-- The two objects of the pair, as the store holds them. -/
theorem exists_headed (head : String)
    (h : ∀ k, ((headedMemory head).get k "team" ((headedPair head).half k).name).toOption.map
      (fun o => o.differsFrom ((headedPair head).half k)) = some false) :
    ∃ o : (k : Kind) → Object k, ∀ k, (headedMemory head).Holds (o k)
      ∧ (o k).key = ((headedPair head).half k).key ∧ (o k).Covers ((headedPair head).half k) := by
  have hsound := (reachable_headedMemory head).sound readsBack_stoppedClock
  have hheld : ∀ k, ∃ o : Object k, (headedMemory head).Holds o
      ∧ o.key = ((headedPair head).half k).key ∧ o.Covers ((headedPair head).half k) := fun k => ?_
  · exact Classical.skolem.mp hheld
  obtain ⟨o, hholds, hkey, hsame⟩ := hsound.exists_of_get (h k)
  refine ⟨o, hholds, hkey.trans ?_, Object.covers_of_not_differsFrom hsame⟩
  cases k <;> rfl

/-- The store can be listed. -/
theorem shows_headedMemory (head : String)
    (h : ∀ k, ((headedMemory head).list k "team" {}).toOption.isSome = true) :
    (Memory.store stoppedClock).Shows (headedMemory head) "team"
      fun o => (headedMemory head).Holds o ∧ o.namespaceName = "team" := by
  refine ((reachable_headedMemory head).sound readsBack_stoppedClock).shows stoppedClock fun k => ?_
  obtain ⟨os, hos⟩ := Option.isSome_iff_exists.mp (h k)
  exact Memory.list_eq_ok_iff.mp ⟨os, Option.some.inj (Answer.eq_ok_of_toOption (x := some _) hos)⟩

/-- A pair with a head branch is recognised. -/
theorem recognised_when_headed :
    ∃ o : (k : Kind) → Object k, (∀ k, (headedMemory "topic").Holds (o k)
        ∧ (o k).key = ((headedPair "topic").half k).key)
      ∧ ∃ owned, (listIn (Memory.store stoppedClock) sampleInput.template sampleInput.source).Leaves
          (headedMemory "topic") (.ok owned) (headedMemory "topic")
        ∧ ∀ k, (owned.pairOf (.of "topic" 7)).half k = some (o k) ∧ (o k).key ∉ owned.strays := by
  obtain ⟨wanted, hw, hp⟩ := exists_headedPair "topic" (by decide +kernel)
  obtain ⟨o, ho⟩ := exists_headed "topic" (by intro k; cases k <;> decide +kernel)
  have hshows := shows_headedMemory "topic" (by intro k; cases k <;> decide +kernel)
  have hhere : ∀ k, (o k).namespaceName = "team" := fun k =>
    (congrArg ObjectKey.namespaceName (ho k).2.1).trans (by cases k <;> rfl)
  obtain ⟨owned, hleaves, howned⟩ := recognised_iff hw hp (by decide) hshows
    (fun k => ⟨(ho k).1, hhere k⟩) (fun k => (ho k).2.1) fun k => (ho k).2.2
  refine ⟨o, fun k => ⟨(ho k).1, (ho k).2.1⟩, owned, hleaves, fun k => ?_⟩
  have hhead : "topic" ≠ "" := by decide
  exact ⟨(howned k).1.mpr hhead, fun hstray => hhead ((howned k).2.mp hstray)⟩

/-- Without one, a pair is derived and its objects can be stored, but then both are
strays, and there is no such pair. -/
theorem nameless_pair_astray :
    (∃ wanted, (headedInput "").derive? = some wanted
        ∧ wanted.pairs.get? ⟨"-7"⟩ = some (headedPair ""))
      ∧ ∃ o : (k : Kind) → Object k, (∀ k, (headedMemory "").Holds (o k)
          ∧ (o k).key = ((headedPair "").half k).key ∧ (o k).Covers ((headedPair "").half k))
        ∧ ∃ owned, (listIn (Memory.store stoppedClock) sampleInput.template sampleInput.source).Leaves
            (headedMemory "") (.ok owned) (headedMemory "")
          ∧ owned.pairs.get? ⟨"-7"⟩ = none ∧ ∀ k, (o k).key ∈ owned.strays := by
  obtain ⟨wanted, hw, hp⟩ := exists_headedPair "" (by decide +kernel)
  obtain ⟨o, ho⟩ := exists_headed "" (by intro k; cases k <;> decide +kernel)
  have hshows := shows_headedMemory "" (by intro k; cases k <;> decide +kernel)
  have hhere : ∀ k, (o k).namespaceName = "team" := fun k =>
    (congrArg ObjectKey.namespaceName (ho k).2.1).trans (by cases k <;> rfl)
  obtain ⟨ts, ss, hleaves, hlisted⟩ := exists_lists (headedInput "") hshows
  refine ⟨⟨wanted, hw, hp⟩, o, ho, _, hleaves, ?_, fun k => ?_⟩
  · have hkeys : (listIn (Memory.store stoppedClock) sampleInput.template sampleInput.source
        (headedMemory "")).result.toOption.map (·.pairs.keys) = some [] := by decide +kernel
    obtain ⟨owned, hresult, hkeys⟩ := Option.map_eq_some_iff.mp hkeys
    have heq := Option.some.inj ((congrArg Except.toOption hleaves.1).symm.trans hresult)
    rw [heq, SortedMap.get?_eq_none_iff, hkeys]
    exact List.not_mem_nil
  · have hmem : o k ∈ Input.listed ts ss k := (hlisted k _).mpr
      ⟨⟨(ho k).1, hhere k⟩, bears_of_covers hw hp (ho k).2.2⟩
    refine (found_by_standing hshows hlisted hmem).2.mpr ?_
    rw [standing_derived hw hp (by decide) (ho k).2.1 (ho k).2.2]
    rfl

end Pass

end PlanSync
