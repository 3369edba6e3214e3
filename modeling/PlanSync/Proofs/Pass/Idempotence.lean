import PlanSync.Proofs.Pass.Completeness

/-!
# Passes that leave nothing to do

If no step of a pass fails, the next pass with the same inputs finds nothing to
do (`Pass.settled_of_no_step_failed`). What has to be shown is that a pass
recognises its own work: that every half it has written is listed under the
branch it was written for, and shows no difference from what derivation asks
for (`Pass.Aftermath.settled`). Recognising needs head branches that are not
empty, and showing no difference needs label keys without commas.
-/

namespace PlanSync

/-! ## Settled plans -/

namespace Plan

/-- **Nothing is left to do**: every half of a desired pair is there and does not
differ, and nothing else is owned. -/
structure Settled (wanted : DesiredState) (owned : OwnedObjects) : Prop where
  halves : ∀ id pair, wanted.pairs.get? id = some pair → ∀ k,
    ∃ o, (owned.pairOf id).half k = some o ∧ o.differsFrom (pair.half k) = false
  pairs : ∀ id p, owned.pairs.get? id = some p → ∃ pair, wanted.pairs.get? id = some pair
  strays : owned.strays = []

variable {wanted : DesiredState} {owned : OwnedObjects}

theorem Settled.convergeSteps_eq_nil (h : Settled wanted owned) {id : BranchId}
    {pair : DesiredPair} (hp : wanted.pairs.get? id = some pair) :
    convergeSteps (owned.pairOf id) pair = [] := by
  refine List.eq_nil_iff_forall_not_mem.mpr fun s hs => ?_
  obtain ⟨k, hs⟩ := mem_convergeSteps.mp hs
  rw [converge?_eq_none_iff.mpr (h.halves id pair hp k)] at hs
  cases hs

/-- **A settled plan changes nothing**, and every desired branch is unchanged. -/
theorem Settled.compute_eq (h : Settled wanted owned) :
    (compute wanted owned).changes = [] ∧ (compute wanted owned).unchanged = wanted.pairs.keys := by
  constructor
  · refine List.eq_nil_iff_forall_not_mem.mpr fun c hc => ?_
    cases mem_changes.mp hc with
    | converge hp hsteps => exact hsteps (h.convergeSteps_eq_nil hp)
    | remove hw hp =>
      obtain ⟨pair, hp'⟩ := h.pairs _ _ hp
      cases hw.symm.trans hp'
    | clear hkey =>
      rw [h.strays] at hkey
      cases hkey
  · rw [unchanged_eq, List.filter_eq_self.mpr fun e he => ?_, map_fst_desiredSteps]
    obtain ⟨pair, hp, hdef⟩ := mem_desiredSteps.mp he
    rw [hdef, h.convergeSteps_eq_nil hp]
    rfl

/-- **Only the change of a desired branch writes.** -/
theorem Changes.of_ne_delete {c : BranchChange} {s : Step} (hc : Changes wanted owned c)
    (hs : s ∈ c.steps) (hop : s.operation ≠ .delete) :
    ∃ id pair, wanted.pairs.get? id = some pair
      ∧ c = ⟨some id, convergeSteps (owned.pairOf id) pair⟩ := by
  cases hc with
  | @converge id pair hp _ => exact ⟨id, pair, hp, rfl⟩
  | remove _ _ =>
    obtain ⟨k, o, -, rfl⟩ := mem_removeSteps.mp hs
    exact absurd rfl hop
  | clear _ =>
    cases List.mem_singleton.mp hs
    exact absurd rfl hop

end Plan

namespace Pass

variable {clock : Nat → Timestamp} {i : Input} {m₀ m : Memory} {wanted wanted' : DesiredState}
  {owned owned' : OwnedObjects} {units : List UnitRun} {events : List Event} {k : Kind}

/-- **What is listed** is what the survey says. -/
theorem Surveyed.listIn_result (h : Surveyed i m wanted owned) :
    (OwnedObjects.listIn (Memory.store clock) i.template i.source m).result = .ok owned := by
  obtain ⟨ts, ss, hts, hss, rfl⟩ := h.listed
  have hterraforms : ((Memory.store clock).list .terraform i.template.namespaceName
      (ownerSelector i.template.name) m) = { result := .ok ts, state := m } :=
    congrArg (Outcome.mk · m []) hts
  have hsources : ((Memory.store clock).list .gitRepository i.template.namespaceName
      (ownerSelector i.template.name) m) = { result := .ok ss, state := m } :=
    congrArg (Outcome.mk · m []) hss
  simp only [OwnedObjects.listIn, bind, Action.andThen, Action.report, pure, Action.done,
    hterraforms, hsources]

/-- **What is planned** is what the survey calls for. -/
theorem Surveyed.plan_result (h : Surveyed i m wanted owned) :
    (Pass.plan (Memory.store clock) i.template i.source i.pullRequests m).result
      = .ok (.compute wanted owned) := by
  have hwanted : desired i.template i.source i.pullRequests = .ok wanted := by
    rw [desired_eq, h.derived]
  simp only [Pass.plan, Pass.owned, bind, Action.andThen, Action.ofExcept, Action.report,
    Action.mapError, pure, Action.done, hwanted, h.listIn_result]
  rfl

/-! ## Recognising one's own work -/

namespace Aftermath

variable {id : BranchId} {pair : DesiredPair}

/-- **What a pass has written it finds again**, under the branch it was written
for and without a difference. -/
theorem half_found {done : List Step} (h : Aftermath i m₀ wanted owned done m) (hm : m.Sound)
    (hcomma : i.CommaFree) (htell : i.Telling) (hs : Surveyed i m wanted owned')
    (hp : wanted.pairs.get? id = some pair) {o : Object k} (ho : m.Holds o)
    (hkey : o.key = i.derivedKey k id) (hconverged : Converged o (pair.half k)) :
    (owned'.pairOf id).half k = some o ∧ o.differsFrom (pair.half k) = false := by
  have hw := h.surveyed.derived
  refine ⟨(hs.half_iff hm).mpr ⟨ho, ?_, ?_⟩, hconverged.settled ?_⟩
  · exact owns_of_covers hw hp hkey hconverged.covers
  · exact standing_of_covers htell hw hp hkey hconverged.covers
  · exact Input.recorded_half hcomma hw hp k

/-- **When all steps have been applied, nothing is left to do.** -/
theorem settled (h : Aftermath i m₀ wanted owned (Plan.compute wanted owned).steps m)
    (hm : m.Sound) (hcomma : i.CommaFree) (htell : i.Telling)
    (hs : Surveyed i m wanted owned') : Plan.Settled wanted owned' := by
  have hall : ∀ s, Plan.Planned wanted owned s → s.operation = .delete →
      s ∈ (Plan.compute wanted owned).steps := fun s hs _ => Plan.mem_steps.mpr hs
  refine ⟨fun id pair hp k => ?_, fun id p hpair => ?_, ?_⟩
  · obtain ⟨o, ho, hkey, hconverged⟩ := h.exists_half_of_all hp k
    exact ⟨o, h.half_found hm hcomma htell hs hp ho hkey hconverged⟩
  · obtain ⟨k, o, ho⟩ := hs.exists_half hpair
    obtain ⟨hholds, howns, hstanding⟩ := (hs.half_iff hm).mp ho
    obtain ⟨id', pair, hp, hkey⟩ := h.exists_pair_of_owned hall hholds howns
    obtain ⟨-, rfl⟩ := Input.derivedKey_injective
      (hkey.symm.trans (Input.key_of_standing howns.here hstanding))
    exact ⟨pair, hp⟩
  · refine List.eq_nil_iff_forall_not_mem.mpr fun key hkey => ?_
    obtain ⟨o, hholds, howns, hstray, -⟩ := (hs.mem_strays_iff hm).mp hkey
    obtain ⟨id, pair, hp, hkey⟩ := h.exists_pair_of_owned hall hholds howns
    obtain ⟨o', hholds', hkey', hconverged⟩ := h.exists_half_of_all hp key.kind
    obtain rfl : o' = o := hholds'.unique hholds (hkey'.trans hkey.symm)
    have hstanding := standing_of_covers htell h.surveyed.derived hp hkey' hconverged.covers
    cases hstray.symm.trans hstanding

end Aftermath

/-! ## No step failed -/

/-- **No step failed**: the pass succeeded, or it reports nothing but pull
requests that it skipped. -/
def NoStepFailed (i : Input) : Except PassError ApplySummary → Prop
  | .ok _ => True
  | .error (.apply failures) => ∀ f ∈ failures, ∃ wanted, i.derive? = some wanted
    ∧ ∃ why ∈ wanted.skipped, f = skippedFailure i.template why
  | .error _ => False

/-- **The failure of a step is never taken for a skipped pull request.** A
skipped pull request is reported like a creation for its branch, but creations
are for branches that are not skipped. -/
theorem failure_ne_skipped (h : Applying i m₀ events wanted owned units m) {u : UnitRun}
    (hu : u ∈ units) {f : ApplyFailure} (hf : u.failure = some f) {why : Skipped}
    (hwhy : why ∈ wanted.skipped) : f ≠ skippedFailure i.template why := by
  obtain ⟨step, rest, cause, hnext, rfl⟩ := (h.follows.orderly u hu).failed f hf
  have hstep : step ∈ u.change.steps :=
    h.follows.mem_change_steps hu (hnext ▸ List.mem_cons_self)
  have hchange := Plan.mem_changes.mp (h.follows.mem_changes hu)
  intro heq
  -- skipping is reported like a creation, so the step would be one for the
  -- branch that was skipped
  have hcreate : step.operation = .create := congrArg ApplyFailure.operation heq
  obtain ⟨id, pair, hp, hid⟩ := hchange.of_ne_delete hstep fun hdelete => by
    cases hcreate.symm.trans hdelete
  have hbranch : u.change.branchId = some why.branchId := congrArg ApplyFailure.branchId heq
  rw [hid] at hbranch
  obtain rfl : id = why.branchId := Option.some.inj hbranch
  cases hp.symm.trans (Input.get?_pairs_of_skipped h.surveyed.derived hwhy)

/-- **If no step failed, no unit has a step left.** -/
theorem Applying.remaining_eq_nil (h : Applying i m₀ events wanted owned units m)
    {outcome : Except PassError ApplySummary}
    (hresult : (Stage.applying (.compute wanted owned) units).result? i = some outcome)
    (hno : NoStepFailed i outcome) : ∀ u ∈ units, u.remaining = [] := by
  obtain ⟨hfinished, failures, hfailures, hcases⟩ := result?_applying hresult
  intro u hu
  refine remaining_of_isFinished (hfinished u hu) ?_
  refine Option.eq_none_iff_forall_ne_some.mpr fun f hf => ?_
  have hmem : f ∈ failures := (hfailures f).mpr (.inl ⟨u, hu, hf⟩)
  rcases hcases with ⟨_, -, rfl⟩ | ⟨rfl, -⟩
  · cases hmem
  · obtain ⟨wanted', hwanted, why, hwhy, hf'⟩ := hno f hmem
    cases hwanted.symm.trans h.surveyed.derived
    exact failure_ne_skipped h hu hf hwhy hf'

theorem Reached.of_noStepFailed {r : Run Memory} (h : Reached i m₀ events r)
    {outcome : Except PassError ApplySummary} (hresult : r.stage.result? i = some outcome)
    (hno : NoStepFailed i outcome) :
    ∃ wanted owned units, r.stage = .applying (.compute wanted owned) units
      ∧ Applying i m₀ events wanted owned units r.state ∧ ∀ u ∈ units, u.remaining = [] := by
  cases h with
  | begun => cases hresult
  | listing => cases hresult
  | @refused cause _ hcause =>
    cases hresult
    cases cause with
    | apply failures => exact absurd rfl (hcause failures)
    | _ => exact hno.elim
  | @applying wanted owned units m _ h =>
    exact ⟨wanted, owned, units, rfl, h, h.remaining_eq_nil hresult hno⟩

/-- **Nothing is left to do**: when a pass is planned, the changes are none and
every desired branch is unchanged. -/
def UpToDate (clock : Nat → Timestamp) (i : Input) (m : Memory) : Prop :=
  ∃ wanted plan, i.derive? = some wanted
    ∧ (Pass.plan (Memory.store clock) i.template i.source i.pullRequests m).result = .ok plan
    ∧ plan.changes = [] ∧ plan.unchanged = wanted.pairs.keys

/-- **A pass without a failed step leaves nothing to do**, and a second pass with
the same inputs does not change the store, in whatever order the calls of either
come. -/
theorem settled_of_no_step_failed (hclock : ∀ n, (clock n).ReadsBack) {m : Memory}
    (hm : Memory.Reachable clock m) {i : Input} (hi : i.Readable) (hcomma : i.CommaFree)
    (htell : i.Telling) {events : List Event} (hfaultless : Faultless events)
    {outcome : Except PassError ApplySummary}
    (hresult : (Run.inMemory clock i m events).stage.result? i = some outcome)
    (hno : NoStepFailed i outcome) :
    let m' := (Run.inMemory clock i m events).state
    UpToDate clock i m' ∧ ∀ events', (Run.inMemory clock i m' events').state = m' := by
  have hsound := hm.sound hclock
  obtain ⟨wanted, owned, units, -, h, hdone⟩ :=
    (Reached.inMemory hclock hsound i events).of_noStepFailed hresult hno
  have haftermath := h.aftermath hsound hi hfaultless hdone
  obtain ⟨owned', hs⟩ := haftermath.exists_surveyed
  constructor
  · exact ⟨wanted, _, h.surveyed.derived, hs.plan_result,
      (haftermath.settled h.sound hcomma htell hs).compute_eq⟩
  · intro events'
    refine (Reached.inMemory hclock h.sound i events').state_of_stable fun wanted' owned' hs' => ?_
    cases hs'.derived.symm.trans h.surveyed.derived
    rw [(haftermath.settled h.sound hcomma htell hs').compute_eq.1]
    exact fun c hc => by cases hc

/-- A pass whose first unit waits until the stray is gone leaves nothing to do. -/
theorem settled_once_stray_is_gone :
    let m := (Run.inMemory stoppedClock sampleInput strayedMemory ([0, 0, 1, 0, 0].map .turn)).state
    UpToDate stoppedClock sampleInput m
      ∧ ∀ events, (Run.inMemory stoppedClock sampleInput m events).state = m := by
  have hok : (Run.inMemory stoppedClock sampleInput strayedMemory
      ([0, 0, 1, 0, 0].map .turn)).stage.result? sampleInput
        = some (.ok { created := 2, deleted := 1 }) :=
    Answer.eq_ok_of_toOption (by decide +kernel)
  exact settled_of_no_step_failed readsBack_stoppedClock reachable_strayedMemory
    readable_sampleInput commaFree_sampleInput telling_sampleInput (calm_turns _).faultless hok
    trivial

end Pass

end PlanSync
