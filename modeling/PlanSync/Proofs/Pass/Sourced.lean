import PlanSync.Proofs.Pass.Convergence
import PlanSync.Proofs.Pass.Truthful

/-!
# No configuration without its source

A configuration reads the source of its branch, so the source is created before
it and deleted after it. That keeps every derived configuration in company, not
only when a pass has ended but between any two of its calls, whichever calls
fail and whenever the pass is cancelled (`Pass.sourced_at_every_moment`).

Two facts carry this. If a pass has written a configuration, then the source is
there (`Pass.Accounted.source_of_written`), for it was written before, or it was
found as it should be. And if a pass has deleted the source of a branch, then it
has deleted the configuration before (`Pass.Accounted.removed_before_source`).
What is not told to be of a branch can be deleted on its own, so strays have to
be absent from the start.
-/

namespace PlanSync

namespace Plan

open Pass

variable {i : Input} {m : Memory} {wanted : DesiredState} {owned : OwnedObjects} {k : Kind}
  {id : BranchId}

/-- **What can be planned about a derived name**: a step that converges the half of
a desired branch, the deletion of the half of another one, or that of a stray. -/
theorem Planned.of_derivedKey (hm : m.Sound) (h : Surveyed i m wanted owned) {s : Step}
    (hs : Planned wanted owned s) (hkey : s.key = i.derivedKey k id) :
    (∃ pair, wanted.pairs.get? id = some pair
        ∧ converge? ((owned.pairOf id).half k) (pair.half k) = some s)
      ∨ (wanted.pairs.get? id = none ∧ ∃ o, (owned.pairOf id).half k = some o ∧ s = .delete o.key)
      ∨ (s.operation = .delete ∧ s.key ∈ owned.strays) := by
  cases hs with
  | @create id' pair l hp hnone =>
    obtain ⟨rfl, rfl⟩ := Input.derivedKey_injective ((Input.key_half h.derived hp l).symm.trans hkey)
    exact .inl ⟨pair, hp, congrArg (converge? · _) hnone⟩
  | @update id' pair l o hp ho hd =>
    obtain ⟨rfl, rfl⟩ := Input.derivedKey_injective ((h.key_half hm ho).symm.trans hkey)
    exact .inl ⟨pair, hp, (congrArg (converge? · _) ho).trans (converge?_some_of_differs hd)⟩
  | @remove id' l o hw ho =>
    obtain ⟨rfl, rfl⟩ := Input.derivedKey_injective ((h.key_half hm ho).symm.trans hkey)
    exact .inr (.inl ⟨hw, o, ho, rfl⟩)
  | clear hstray => exact .inr (.inr ⟨rfl, hstray⟩)

end Plan

namespace Pass

variable {clock : Nat → Timestamp} {i : Input} {m₀ m : Memory} {wanted : DesiredState}
  {owned : OwnedObjects} {units : List UnitRun} {done : List Step} {events : List Event}
  {id : BranchId} {pair : DesiredPair}

/-! ## Source and configuration of one branch -/

namespace Accounted

variable (h : Accounted i m₀ wanted owned units done m)
include h

/-- **The source is written before the configuration.** -/
theorem written_after_source (hp : wanted.pairs.get? id = some pair) {s t : Step}
    (hs : Plan.converge? (owned.pairOf id).source pair.source = some s)
    (ht : Plan.converge? (owned.pairOf id).terraform pair.terraform = some t) (hdone : t ∈ done) :
    s ∈ done := by
  have hsteps : Plan.convergeSteps (owned.pairOf id) pair = [s] ++ [t] := by
    unfold Plan.convergeSteps
    rw [hs, ht]
    rfl
  refine h.done_of_before (.converge hp ?_) hsteps (List.mem_singleton_self t) hdone
    (List.mem_singleton_self s)
  rw [hsteps]
  exact List.cons_ne_nil s [t]

/-- **The configuration is deleted before the source.** -/
theorem removed_before_source (hw : wanted.pairs.get? id = none) {o : Terraform}
    {source : GitRepository} (ho : (owned.pairOf id).terraform = some o)
    (hsource : (owned.pairOf id).source = some source) (hdone : .delete source.key ∈ done) :
    .delete o.key ∈ done := by
  have hpair := OwnedObjects.get?_pairs_of_half (k := .terraform) ho
  have hsteps : Plan.removeSteps (owned.pairOf id) = [.delete o.key] ++ [.delete source.key] := by
    unfold Plan.removeSteps
    rw [ho, hsource]
    rfl
  exact h.done_of_before (.remove hw hpair) hsteps (List.mem_singleton_self _) hdone
    (List.mem_singleton_self _)

/-- **If a configuration has been written, its source is there.** -/
theorem source_of_written (hp : wanted.pairs.get? id = some pair) {t : Step}
    (ht : Plan.converge? (owned.pairOf id).terraform pair.terraform = some t) (hdone : t ∈ done) :
    m.cell (i.derivedKey .gitRepository id) ≠ none := by
  cases hs : Plan.converge? (owned.pairOf id).source pair.source with
  | some s =>
    have hkey : s.key = i.derivedKey .gitRepository id :=
      Plan.key_of_converge? (k := .gitRepository) h.before h.surveyed hp hs
    have hleaves := h.applied.leaves (h.written_after_source hp hs ht hdone)
      (Plan.kind_of_converge? hs).2
    intro hnone
    rw [hkey, hnone] at hleaves
    exact (Plan.kind_of_converge? hs).2 (operation_of_leaves_none hleaves)
  | none =>
    -- the source was found as it should be, and no step is about it
    obtain ⟨source, hsource, hsettled⟩ := Plan.converge?_eq_none_iff.mp hs
    obtain ⟨⟨j, hj, -⟩, -, -⟩ := (h.surveyed.half_iff (k := .gitRepository) h.before).mp hsource
    have hkey : source.key = i.derivedKey .gitRepository id :=
      h.surveyed.key_half (k := .gitRepository) h.before hsource
    rw [← hkey, h.applied.frame source.key fun s hs =>
      h.surveyed.key_ne_of_settled (k := .gitRepository) h.before hp hsource hsettled (h.planned hs),
      hj]
    exact Option.some_ne_none j

/-- **What a step has left under a derived name** is a half of a desired branch, and
the step has converged it. -/
theorem exists_converge_of_leaves {k : Kind} {s : Step} (hs : s ∈ done)
    (hkey : s.key = i.derivedKey k id) {j : Json} (hj : m.cell (i.derivedKey k id) = some j)
    (hleaves : s.Leaves (m.cell (i.derivedKey k id))) :
    ∃ pair, wanted.pairs.get? id = some pair
      ∧ Plan.converge? ((owned.pairOf id).half k) (pair.half k) = some s := by
  have hop : s.operation ≠ .delete := Step.Leaves.ne_delete (hj ▸ hleaves)
  rcases (h.planned hs).of_derivedKey h.before h.surveyed hkey with
    hconverge | ⟨-, o, -, rfl⟩ | ⟨hdelete, -⟩
  · exact hconverge
  · exact absurd rfl hop
  · exact absurd hdelete hop

end Accounted

/-! ## Every configuration in company -/

/-- **Every configuration has its source**: where an owned configuration has the
derived name of a branch, there is something under the name that is derived for the
source of that branch. -/
def Sourced (i : Input) (m : Memory) : Prop :=
  ∀ id, ∀ o : Terraform, m.Holds o → i.Owns o → o.key = i.derivedKey .terraform id →
    m.cell (i.derivedKey .gitRepository id) ≠ none

/-- What is owned does not depend on the pull requests. -/
theorem Sourced.of_same {i' : Input} (h : Sourced i m) (htemplate : i'.template = i.template)
    (hsource : i'.source = i.source) : Sourced i' m := by
  obtain ⟨template, source, prs⟩ := i
  obtain ⟨template', source', prs'⟩ := i'
  obtain rfl : template' = template := htemplate
  obtain rfl : source' = source := hsource
  exact fun id o ho howns => h id o ho ⟨howns.here, ⟨howns.bears.marker, howns.bears.template⟩,
    howns.other⟩

/-- **Without strays every owned object is a half of a pair.** -/
theorem Surveyed.half_of_owns {k : Kind} (hm : m.Sound) (h : Surveyed i m wanted owned)
    (hstrays : owned.strays = []) {o : Object k} (ho : m.Holds o) (howns : i.Owns o)
    (hkey : o.key = i.derivedKey k id) : (owned.pairOf id).half k = some o := by
  cases hstanding : OwnedObjects.standing (i.origin k) o with
  | itself => exact absurd (Input.standing_eq_itself_iff.mp hstanding) howns.other
  | stray =>
    have hmem : o.key ∈ owned.strays := (h.mem_strays_iff hm).mpr ⟨o, ho, howns, hstanding, rfl⟩
    rw [hstrays] at hmem
    cases hmem
  | ofBranch id' =>
    obtain ⟨-, rfl⟩ := Input.derivedKey_injective
      ((Input.key_of_standing howns.here hstanding).symm.trans hkey)
    exact (h.half_iff hm).mpr ⟨ho, howns, hstanding⟩

/-- **The steps that have been done leave every configuration in company.** -/
theorem Accounted.sourced (h : Accounted i m₀ wanted owned units done m)
    (hstrays : owned.strays = []) (hsourced : Sourced i m₀) : Sourced i m := by
  intro id o ho howns hkey
  rcases h.applied.cell_cases (i.derivedKey .terraform id) with
    ⟨hnone, hsame⟩ | ⟨t, ht, hkeyt, hleaves⟩
  · -- nothing was done about the configuration, so its source was there
    have ho : m₀.Holds o := ho.of_cell_eq (hkey ▸ hsame.symm)
    have hcell := hsourced id o ho howns hkey
    rcases h.applied.cell_cases (i.derivedKey .gitRepository id) with
      ⟨-, hsame⟩ | ⟨s, hs, hkeys, hleaves⟩
    · rw [hsame]
      exact hcell
    · intro hgone
      rw [hgone] at hleaves
      have hdelete := operation_of_leaves_none hleaves
      rcases (h.planned hs).of_derivedKey h.before h.surveyed hkeys with
        ⟨pair, -, hconverge⟩ | ⟨hw, source, hsource, rfl⟩ | ⟨-, hstray⟩
      · exact (Plan.kind_of_converge? hconverge).2 hdelete
      · have hhalf := h.surveyed.half_of_owns h.before hstrays ho howns hkey
        exact hnone _ (h.removed_before_source hw hhalf hsource hs) hkey
      · rw [hstrays] at hstray
        cases hstray
  · obtain ⟨j, hj, -⟩ := ho
    obtain ⟨pair, hp, hconverge⟩ := h.exists_converge_of_leaves ht hkeyt (hkey ▸ hj) hleaves
    exact h.source_of_written hp hconverge ht

/-- **No configuration is ever without its source**, if none was when the pass began
and there were no strays: at every moment, in whatever order the calls of the pass
come, whichever of them fail, and whenever it is cancelled, as long as no failing call
says of an object that is there that it is not. -/
theorem sourced_at_every_moment (hclock : ∀ n, (clock n).ReadsBack) {m : Memory}
    (hm : Memory.Reachable clock m) {i : Input} {owned : OwnedObjects}
    (hlist : (OwnedObjects.listIn (Memory.store clock) i.template i.source m).result = .ok owned)
    (hstrays : owned.strays = []) (hsourced : Sourced i m) {events : List Event}
    (htruthful : Truthful clock i m events) :
    Sourced i (Run.inMemory clock i m events).state := by
  rcases accounted_inMemory hclock (hm.sound hclock) htruthful with
    hsame | ⟨wanted, owned', units, done, h⟩
  · rw [hsame]
    exact hsourced
  · obtain rfl : owned' = owned := Except.ok.inj (h.surveyed.listIn_result.symm.trans hlist)
    exact h.sourced hstrays hsourced

/-- The sample without its pull request. -/
def closedInput : Input := { sampleInput with pullRequests := [] }

/-- A store in which a pass has made the pair of the sample. -/
def pairedMemory : Memory :=
  (Run.inMemory stoppedClock sampleInput {} ([0, 0, 0, 0].map .turn)).state

theorem reachable_pairedMemory : Memory.Reachable stoppedClock pairedMemory :=
  reachable_inMemory .empty _ _

/-- What is listed without strays, worked out. -/
theorem exists_listIn (i : Input) (m : Memory)
    (h : ((OwnedObjects.listIn (Memory.store stoppedClock) i.template i.source m).result.toOption.map
      OwnedObjects.strays) = some []) :
    ∃ owned, (OwnedObjects.listIn (Memory.store stoppedClock) i.template i.source m).result
      = .ok owned ∧ owned.strays = [] := by
  obtain ⟨owned, hlist, hstrays⟩ := Option.map_eq_some_iff.mp h
  exact ⟨owned, Option.some.inj (Answer.eq_ok_of_toOption (x := some _) hlist), hstrays⟩

/-- The pair is made, and then its configuration cannot be deleted: the pass that
finds no pull request leaves the source, too. -/
theorem sourced_when_deletion_fails :
    let m := (Run.inMemory stoppedClock closedInput pairedMemory
      [.turn 0, .turn 0, .fault 0 (.transient "busy"), .turn 0, .cancel, .turn 0]).state
    Sourced closedInput m ∧ m.cell (closedInput.derivedKey .terraform ⟨"topic-7"⟩) ≠ none := by
  have hpaired : Sourced sampleInput pairedMemory := by
    obtain ⟨owned, hlist, hstrays⟩ := exists_listIn sampleInput {} (by decide +kernel)
    refine sourced_at_every_moment readsBack_stoppedClock .empty hlist hstrays ?_
      (truthful_of_faultless (calm_turns _).faultless)
    rintro id o ⟨j, hj, -⟩
    cases hj
  obtain ⟨owned, hlist, hstrays⟩ := exists_listIn closedInput pairedMemory (by decide +kernel)
  refine ⟨sourced_at_every_moment readsBack_stoppedClock reachable_pairedMemory hlist hstrays
    (hpaired.of_same rfl rfl) (truthful_of_causes fun place cause hmem => ?_), ?_⟩
  · obtain ⟨-, rfl⟩ : place = 0 ∧ cause = .transient "busy" := by simpa using hmem
    rfl
  · exact Option.isSome_iff_ne_none.mp (by decide +kernel)

end Pass

end PlanSync
