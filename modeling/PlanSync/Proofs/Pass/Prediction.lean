import PlanSync.Proofs.ObjectName
import PlanSync.Proofs.Pass.Accounting
import PlanSync.Proofs.Pass.Reference

/-!
# What a plan predicts

A plan tells how its pass will go, if no call is made to fail, the pass is not
cancelled and nobody else writes to the store. Every step that is issued succeeds
and changes the store once, with one exception: a creation is refused if its name
was taken when the plan was made (`Pass.AsPlanned`). So an update or a deletion is
never answered that its object is not there or has changed.

What is reported at the end can therefore be read off the plan and the store that
it was made for, and the counts that are reported are those of the calls that
changed the store (`Pass.goes_as_planned`). A creation that is refused stops its
unit, though, and what comes behind it there is not issued. That can be an update,
but not a deletion (`Pass.update_not_issued`).
-/

namespace PlanSync

variable {clock : Nat → Timestamp}

/-! ## Derived names can be stored -/

namespace ObjectName

/-- **A valid name can be stored.** -/
theorem isStorable_of_isValid {s : String} (h : isValid s = true) : Naming.isStorable s = true := by
  have hne : ∀ t : String, isValid t = false → s ≠ t := by
    rintro t ht rfl
    cases ht.symm.trans h
  have hslash : '/' ∉ s.toList := not_mem_of_isValid h (by decide) (by decide)
  have hbackslash : '\\' ∉ s.toList := not_mem_of_isValid h (by decide) (by decide)
  simp only [Naming.isStorable, Bool.and_eq_true, decide_eq_true_eq, Bool.not_eq_true',
    List.contains_eq_mem, decide_eq_false_iff_not]
  exact ⟨⟨⟨⟨hne "" rfl, hslash⟩, hbackslash⟩, hne "." rfl⟩, hne ".." rfl⟩

end ObjectName

theorem Naming.checkKey_of_isStorable {key : ObjectKey}
    (hnamespace : isStorable key.namespaceName = true) (hname : isStorable key.name = true) :
    checkKey key = .ok () := by
  show (checkPart _ _ key.namespaceName >>= fun _ => checkPart _ _ key.name) = _
  unfold checkPart
  rw [if_pos hnamespace, if_pos hname]
  rfl

/-- **Derived keys can be stored**, if the namespace of the template can. -/
theorem Pass.Input.checkKey_half {i : Input} {wanted : DesiredState} {id : BranchId}
    {pair : DesiredPair} (hnamespace : Naming.isStorable i.template.namespaceName = true)
    (h : i.derive? = some wanted) (hp : wanted.pairs.get? id = some pair) (k : Kind) :
    Naming.checkKey (pair.half k).key = .ok () := by
  rw [key_half h hp k]
  obtain ⟨_, -, rfl, hbad, -⟩ := of_get?_pairs h hp
  exact Naming.checkKey_of_isStorable hnamespace
    (ObjectName.isStorable_of_isValid (isValid_of_namesValid (badName?_eq_none_iff.mp hbad) k))

/-! ## Counting -/

namespace ApplySummary

theorem total_addStep (s : ApplySummary) (op : Operation) : (s.addStep op).total = s.total + 1 := by
  cases op <;> simp only [addStep, total] <;> omega

theorem total_merge (s t : ApplySummary) : (s.merge t).total = s.total + t.total := by
  simp only [merge, total]
  omega

/-- The counts of a list of steps. -/
def ofSteps (steps : List Step) : ApplySummary :=
  steps.foldl (fun s step => s.addStep step.operation) {}

theorem ofSteps_append_singleton (steps : List Step) (step : Step) :
    ofSteps (steps ++ [step]) = (ofSteps steps).addStep step.operation := List.foldl_append

end ApplySummary

/-- **The counts that are reported** are those of the units. -/
theorem ApplyReport.total_ofUnits (units : List UnitRun) :
    (ofUnits units).summary.total = (units.map fun u => u.summary.total).sum := by
  rw [sum_ofUnits ApplySummary.total rfl ApplySummary.total_merge]
  refine congrArg List.sum (List.map_congr_left fun u _ => ?_)
  unfold UnitRun.finalSummary
  split <;> rfl

namespace Pass

variable {i : Input} {m₀ m : Memory} {wanted : DesiredState} {owned : OwnedObjects}
  {units : List UnitRun} {events : List Event}

/-! ## One step -/

/-- **A step goes as planned**: the store accepts it, and changes once. Or it is a
creation whose name was taken when the plan was made; then it is refused for that,
and the store does not change. -/
def AsPlanned (m₀ : Memory) (step : Step) (m : Memory) (r : Outcome Memory StoreError Unit) :
    Prop :=
  (r.result = .ok () ∧ r.state.mutations = m.mutations + 1)
    ∨ ∃ k, ∃ o : Object k, step = .create k o ∧ m₀.cell o.key ≠ none
      ∧ r.result = .error (.alreadyExists o.key) ∧ r.state = m

/-- A step that goes as planned is not settled in another way. -/
theorem AsPlanned.settle_eq {step : Step} {r : Outcome Memory StoreError Unit}
    (h : AsPlanned m₀ step m r) : step.settle r = r := by
  rcases h with ⟨hok, -⟩ | ⟨k, o, rfl, -⟩
  · cases step with
    | create | update => rfl
    | delete key =>
      unfold Step.settle
      rw [hok]
  · rfl

/-- **A deletion finds its object**, for no other step is about it before. -/
theorem Progressed.cell_of_delete (hm₀ : m₀.Sound) (hs : Surveyed i m₀ wanted owned)
    {done : List Step} (happlied : Memory.Applied m₀ done m) {key : ObjectKey}
    (hstep : Plan.Planned wanted owned (.delete key))
    (hapart : ∀ t ∈ done, (Step.delete key).Apart t) : m.cell key ≠ none := by
  have hthere : m₀.cell key ≠ none := Plan.cell_of_delete hm₀ hs hstep rfl
  rw [happlied.frame key fun t ht hkey => ?_]
  · exact hthere
  -- only a creation can be about the object, and only after another deletion
  rcases hapart t ht hkey.symm with ⟨hop, -⟩ | ⟨-, hcreate⟩
  · cases hop
  · rcases happlied.order t ht hcreate with hnone | ⟨d, hd, hdelete, hkey'⟩
    · exact hthere (hkey ▸ hnone)
    · rcases hapart d hd (hkey'.trans hkey).symm with ⟨hop, -⟩ | ⟨-, hop⟩
      · cases hop
      · cases hop.symm.trans hdelete

/-- **The next step of a unit goes as planned.** -/
theorem Applying.asPlanned (clock : Nat → Timestamp) (hm₀ : m₀.Sound)
    (hnamespace : Naming.isStorable i.template.namespaceName = true) {before later : List UnitRun}
    {u : UnitRun} {step : Step} {rest : List Step} (hfaultless : Faultless events)
    (h : Applying i m₀ events wanted owned (before ++ u :: later) m)
    (hnext : u.remaining = step :: rest) :
    AsPlanned m₀ step m (step.issue (Memory.store clock) m) := by
  obtain ⟨done, hperm, happlied⟩ := h.progressed hfaultless
  obtain ⟨hstep, hapart⟩ := Progressed.apart_next hm₀ h.surveyed hperm hnext
  cases step with
  | create k o =>
    rcases Memory.create_cases clock m o with ⟨-, hcall⟩ | ⟨hcannot, e, hcall⟩
    · left
      rw [show (Step.create k o).issue (Memory.store clock) m = _ from Step.discard_ok hcall]
      exact ⟨rfl, rfl⟩
    · right
      have hissue : (Step.create k o).issue (Memory.store clock) m
        = { result := .error e, state := m } := Step.discard_error hcall
      have hkey : Naming.checkKey o.key = .ok () := by
        cases hstep with
        | create k hp hnone => exact Input.checkKey_half hnamespace h.surveyed.derived hp k
      have hcell : m₀.cell o.key ≠ none := fun hnone =>
        Progressed.not_admits_of_create hm₀ h.surveyed happlied (fun t ht => Plan.mem_steps.mp
          (hperm.mem_iff.mp (List.mem_append_left _ ht))) hapart hcannot ⟨hkey, hnone⟩
      refine ⟨k, o, rfl, hcell, ?_, by rw [hissue]⟩
      -- the key can be stored, so it is refused for the object that is there
      obtain ⟨j, hj⟩ := Option.ne_none_iff_exists'.mp fun hnone => hcannot ⟨hkey, hnone⟩
      have hrun : ((Step.create k o).run (Memory.store clock) (fun _ => false) m).result
          = .error e := by
        rw [Step.run_of_not_cancelled _ rfl, Step.settle_of_ne_delete fun h => (by cases h), hissue]
      have hanswer : (Step.create k o).answer (m.cell o.key) = .error e := Step.answer_of_error hrun
      rw [hj, Step.answer_create_of_some hkey] at hanswer
      rw [hissue, ← hanswer]
  | update k current o =>
    obtain ⟨stored, hr⟩ := Progressed.can_update hm₀ h.surveyed happlied hstep hapart
    rcases Memory.update_cases clock m o with ⟨stored, -, hcall⟩ | ⟨hcannot, -⟩
    · left
      rw [show (Step.update k current o).issue (Memory.store clock) m = _ from
        Step.discard_ok hcall]
      exact ⟨rfl, rfl⟩
    · exact absurd hr (hcannot stored)
  | delete key =>
    have hthere := Progressed.cell_of_delete hm₀ h.surveyed happlied hstep hapart
    rcases Memory.delete_cases clock m key with ⟨-, hcall⟩ | ⟨hnone, -⟩
    · left
      rw [show (Step.delete key).issue (Memory.store clock) m = _ from hcall]
      exact ⟨rfl, rfl⟩
    · exact absurd hnone hthere

/-! ## One unit -/

/-- **A unit that has gone as planned**: it has counted the steps that are no longer
to come; and if it has failed, then at a creation whose name was taken when the plan
was made. -/
structure UnitAsPlanned (m₀ : Memory) (u : UnitRun) : Prop where
  counted : ∃ done, u.change.steps = done ++ u.remaining ∧ u.summary = .ofSteps done
  failed : ∀ f, u.failure = some f → ∃ k, ∃ o : Object k, ∃ rest,
    u.remaining = .create k o :: rest ∧ m₀.cell o.key ≠ none
      ∧ f = u.failureAt (.create k o) (.alreadyExists o.key)

theorem unitAsPlanned_start (m₀ : Memory) (c : BranchChange) : UnitAsPlanned m₀ (.start c) :=
  ⟨⟨[], rfl, rfl⟩, fun _ hf => by cases hf⟩

/-- **A unit stays as planned**, and counts one step for each change of the store. -/
theorem UnitAsPlanned.after {u : UnitRun} {step : Step} {rest : List Step}
    (h : UnitAsPlanned m₀ u) (hready : u.failure = none) (hnext : u.remaining = step :: rest)
    {r : Outcome Memory StoreError Unit} (hr : AsPlanned m₀ step m r) :
    UnitAsPlanned m₀ (u.after step rest r.result)
      ∧ r.state.mutations + u.summary.total
        = m.mutations + (u.after step rest r.result).summary.total := by
  obtain ⟨done, hdone, hsummary⟩ := h.counted
  rcases hr with ⟨hok, hmutations⟩ | ⟨k, o, rfl, hcell, herror, hstate⟩
  · rw [hok, hmutations]
    refine ⟨⟨⟨done ++ [step], ?_, ?_⟩, fun f hf => ?_⟩, ?_⟩
    · show u.change.steps = (done ++ [step]) ++ rest
      rw [hdone, hnext, List.append_assoc, List.singleton_append]
    · show u.summary.addStep step.operation = _
      rw [hsummary, ApplySummary.ofSteps_append_singleton]
    · cases hready.symm.trans hf
    · show _ = m.mutations + (u.summary.addStep step.operation).total
      rw [ApplySummary.total_addStep]
      omega
  · rw [herror, hstate]
    refine ⟨⟨⟨done, hdone, hsummary⟩, fun f hf => ?_⟩, rfl⟩
    cases hf
    exact ⟨k, o, rest, hnext, hcell, rfl⟩

/-! ## A pass -/

/-- **A pass has counted as planned**: every unit has gone as planned, and together
they have counted the changes of the store. -/
def Tallied (m₀ : Memory) (units : List UnitRun) (m : Memory) : Prop :=
  (∀ u ∈ units, UnitAsPlanned m₀ u)
    ∧ m.mutations = m₀.mutations + (units.map fun u => u.summary.total).sum

theorem tallied_start (m₀ : Memory) (plan : Plan) : Tallied m₀ (plan.changes.map .start) m₀ := by
  refine ⟨fun u hu => ?_, ?_⟩
  · obtain ⟨c, -, rfl⟩ := List.mem_map.mp hu
    exact unitAsPlanned_start m₀ c
  · have hzero : (plan.changes.map UnitRun.start).map (fun u : UnitRun => u.summary.total)
        = plan.changes.map fun _ => 0 := List.map_map
    rw [hzero, List.map_const', List.sum_replicate_nat, Nat.mul_zero, Nat.add_zero]

/-- **One unit has moved on.** -/
theorem Tallied.after {before later : List UnitRun} {u : UnitRun} {step : Step} {rest : List Step}
    (h : Tallied m₀ (before ++ u :: later) m) (hready : u.failure = none)
    (hnext : u.remaining = step :: rest) {r : Outcome Memory StoreError Unit}
    (hr : AsPlanned m₀ step m r) :
    Tallied m₀ (before ++ u.after step rest r.result :: later) r.state := by
  obtain ⟨hunits, hmutations⟩ := h
  obtain ⟨hu, hcount⟩ := (hunits u List.mem_append_cons_self).after hready hnext hr
  refine ⟨forall_mem_split hunits hu, ?_⟩
  simp only [List.map_append, List.map_cons, List.sum_append, List.sum_cons] at hmutations ⊢
  omega

theorem calm_append_singleton {e : Event} :
    Calm (events ++ [e]) ↔ Calm events ∧ ∃ place, e = .turn place := by
  unfold Calm
  rw [List.forall_mem_append, List.forall_mem_singleton]

/-- A pass to which nothing happens but turns is not cancelled. -/
theorem cancelled_of_calm (clock : Nat → Timestamp) (i : Input) (m : Memory) (h : Calm events) :
    (Run.inMemory clock i m events).cancelled = false := by
  induction events using List.reverseRecOn with
  | nil => rfl
  | append_singleton events e ih =>
    rw [Run.inMemory_append_singleton,
      Reached.cancelled_next (List.mem_append_right _ (List.mem_singleton_self e)) h]
    exact ih (calm_append_singleton.mp h).1

/-- **At every moment of a pass that applies its plan**, its units have gone as planned
and have counted the changes of the store. -/
theorem tallied_inMemory (hclock : ∀ n, (clock n).ReadsBack) (hm₀ : m₀.Sound)
    (hnamespace : Naming.isStorable i.template.namespaceName = true) (hcalm : Calm events)
    {plan : Plan} (hstage : (Run.inMemory clock i m₀ events).stage = .applying plan units) :
    Tallied m₀ units (Run.inMemory clock i m₀ events).state := by
  induction events using List.reverseRecOn generalizing plan units with
  | nil => cases hstage
  | append_singleton events e ih =>
    obtain ⟨hbefore, place, rfl⟩ := calm_append_singleton.mp hcalm
    rw [Run.inMemory_append_singleton] at hstage ⊢
    have hreached := Reached.inMemory hclock hm₀ i events
    have hcancelled := cancelled_of_calm clock i m₀ hbefore
    have starting : (Run.inMemory clock i m₀ events).state = m₀ →
        (∀ plan units, (Run.inMemory clock i m₀ events).stage ≠ .applying plan units) →
        Tallied m₀ units
          ((Run.inMemory clock i m₀ events).next (Memory.store clock) i (.turn place)).state := by
      intro hstate hnot
      obtain ⟨rfl, hsame⟩ := Run.start_of_next hnot hstage
      rw [hsame, hstate]
      exact tallied_start m₀ plan
    generalize Run.inMemory clock i m₀ events = r at *
    cases hreached with
    | begun | listing | refused => exact starting rfl fun _ _ h => by cases h
    | @applying wanted owned units' m cancelled h =>
      cases hcancelled
      have htallied := ih hbefore rfl
      simp only [Run.next] at hstage ⊢
      rcases advance_applying (Memory.store clock) i false (.compute wanted owned) units' place m
        with hidle | ⟨before, later, u, step, rest, rfl, hready, hnext, hadvance⟩
      · rw [hidle] at hstage ⊢
        cases hstage
        exact htallied
      · rw [hadvance, Step.run_of_not_cancelled step rfl] at hstage ⊢
        have hr := h.asPlanned clock hm₀ hnamespace hbefore.faultless hnext
        rw [hr.settle_eq] at hstage ⊢
        cases hstage
        exact htallied.after hready hnext hr

/-- The step that is issued next is the first that is to come of a unit that has not
failed. -/
theorem Run.exists_of_issued {plan : Plan} {cancelled : Bool} {place : Nat} {step : Step}
    (h : (⟨.applying plan units, cancelled, m⟩ : Run Memory).issued? place = some step) :
    ∃ before later u rest, units = before ++ u :: later ∧ u.remaining = step :: rest := by
  have h : (if cancelled = true then none else units[place]?.bind UnitRun.next?) = some step := h
  split at h
  · cases h
  · obtain ⟨u, hu, hnext⟩ := Option.bind_eq_some_iff.mp h
    obtain ⟨before, later, hunits, -⟩ := exists_split hu
    unfold UnitRun.next? at hnext
    split at hnext
    · cases hnext
    · obtain ⟨rest, hrest⟩ := List.head?_eq_some_iff.mp hnext
      exact ⟨before, later, u, rest, hunits, hrest⟩

/-- **No deletion is left** of a unit that has ended, for deletions do not come behind
creations. -/
theorem UnitAsPlanned.operation_ne_delete {u : UnitRun} (h : UnitAsPlanned m₀ u)
    (hchange : Plan.Changes wanted owned u.change) (hfinished : u.isFinished = true) {step : Step}
    (hstep : step ∈ u.remaining) : step.operation ≠ .delete := by
  cases hf : u.failure with
  | none =>
    rw [remaining_of_isFinished hfinished hf] at hstep
    cases hstep
  | some f =>
    obtain ⟨k, o, rest, hremaining, -⟩ := h.failed f hf
    obtain ⟨done, hdone, -⟩ := h.counted
    have hmem : ∀ s ∈ u.remaining, s ∈ u.change.steps := fun s hs =>
      hdone ▸ List.mem_append_right done hs
    have hcreate : .create k o ∈ u.change.steps := hmem _ (hremaining ▸ List.mem_cons_self)
    obtain ⟨id, pair, -, heq⟩ := hchange.of_ne_delete hcreate fun hop => by cases hop
    have hconverge : step ∈ Plan.convergeSteps (owned.pairOf id) pair := by
      have := hmem step hstep
      rw [heq] at this
      exact this
    obtain ⟨k', hs⟩ := Plan.mem_convergeSteps.mp hconverge
    exact (Plan.kind_of_converge? hs).2

/-- **A pass goes as planned.** Every step that is issued goes as planned, and so has
every unit; the counts that are reported are those of the changes of the store; and no
failure is reported but creations whose name was taken when the plan was made, and pull
requests that were skipped. -/
structure GoesAsPlanned (clock : Nat → Timestamp) (i : Input) (m₀ : Memory) (r : Run Memory) :
    Prop where
  issued : ∀ place step, r.issued? place = some step →
    AsPlanned m₀ step r.state (step.issue (Memory.store clock) r.state)
  untouched : (∀ plan units, r.stage ≠ .applying plan units) → r.state = m₀
  counted : ∀ plan units, r.stage = .applying plan units →
    r.state.mutations = m₀.mutations + (ApplyReport.ofUnits units).summary.total
  units : ∀ plan units, r.stage = .applying plan units →
    units.map UnitRun.change = plan.changes ∧ ∀ u ∈ units, UnitAsPlanned m₀ u
  ended : ∀ plan units, r.stage = .applying plan units → ∀ u ∈ units, u.isFinished = true →
    (u.failure = none → u.remaining = []) ∧ ∀ step ∈ u.remaining, step.operation ≠ .delete
  reported : ∀ failures, r.stage.result? i = some (.error (.apply failures)) → ∀ f ∈ failures,
    (f.operation = .create ∧ ∃ key, key.kind = f.kind ∧ key.name = f.name
        ∧ f.error = .alreadyExists key ∧ m₀.cell key ≠ none)
      ∨ ∃ wanted, i.derive? = some wanted ∧ ∃ why ∈ wanted.skipped,
          f = skippedFailure i.template why

/-- What is reported by a pass whose units have gone as planned. -/
theorem Applying.reported (h : Applying i m₀ events wanted owned units m)
    (hunits : ∀ u ∈ units, UnitAsPlanned m₀ u) {failures : ApplyFailures}
    (hresult : (Stage.applying (.compute wanted owned) units).result? i
      = some (.error (.apply failures))) {f : ApplyFailure} (hf : f ∈ failures) :
    (f.operation = .create ∧ ∃ key, key.kind = f.kind ∧ key.name = f.name
        ∧ f.error = .alreadyExists key ∧ m₀.cell key ≠ none)
      ∨ ∃ wanted, i.derive? = some wanted ∧ ∃ why ∈ wanted.skipped,
          f = skippedFailure i.template why := by
  obtain ⟨-, failures', hfailures, ⟨_, hok, -⟩ | ⟨herror, -⟩⟩ := result?_applying hresult
  · cases hok
  · cases herror
    rcases (hfailures f).mp hf with ⟨u, hu, hfailed⟩ | hskipped
    · obtain ⟨k, o, rest, -, hcell, rfl⟩ := (hunits u hu).failed f hfailed
      exact .inl ⟨rfl, o.key, rfl, rfl, rfl, hcell⟩
    · obtain ⟨why, hwhy, rfl⟩ := List.mem_map.mp hskipped
      exact .inr ⟨wanted, h.surveyed.derived, why, hwhy, rfl⟩

/-- **Every pass goes as planned** if nothing happens to it but turns, in whatever order
they come, and the namespace of the template can be stored. -/
theorem goes_as_planned (hclock : ∀ n, (clock n).ReadsBack) {m : Memory}
    (hm : Memory.Reachable clock m) (i : Input)
    (hnamespace : Naming.isStorable i.template.namespaceName = true) {events : List Event}
    (hcalm : Calm events) : GoesAsPlanned clock i m (Run.inMemory clock i m events) := by
  have hsound := hm.sound hclock
  have hreached := Reached.inMemory hclock hsound i events
  have htallied : ∀ plan units, (Run.inMemory clock i m events).stage = .applying plan units →
      Tallied m units (Run.inMemory clock i m events).state :=
    fun _ _ => tallied_inMemory hclock hsound hnamespace hcalm
  generalize Run.inMemory clock i m events = r at *
  cases hreached with
  | begun | listing =>
    exact ⟨fun _ _ h => (by cases h), fun _ => rfl, fun _ _ h => (by cases h),
      fun _ _ h => (by cases h), fun _ _ h => (by cases h), fun _ h => by cases h⟩
  | refused _ hcause =>
    refine ⟨fun _ _ h => (by cases h), fun _ => rfl, fun _ _ h => (by cases h),
      fun _ _ h => (by cases h), fun _ _ h => (by cases h), fun failures h => ?_⟩
    cases h
    exact absurd rfl (hcause failures)
  | @applying wanted owned units _ _ h =>
    obtain ⟨hunits, hmutations⟩ := htallied _ _ rfl
    refine
      { issued := fun place step hissued => ?_
        untouched := fun hnot => absurd rfl (hnot _ _)
        counted := fun plan units' hstage => ?_
        units := fun plan units' hstage => ?_
        ended := fun plan units' hstage u hu hfinished => ?_
        reported := fun failures hresult f hf => h.reported hunits hresult hf }
    · obtain ⟨before, later, u, rest, rfl, hnext⟩ := Run.exists_of_issued hissued
      exact h.asPlanned clock hsound hnamespace hcalm.faultless hnext
    · cases hstage
      rw [ApplyReport.total_ofUnits]
      exact hmutations
    · cases hstage
      exact ⟨h.follows.changes, hunits⟩
    · cases hstage
      have hchange := Plan.mem_changes.mp (h.follows.mem_changes hu)
      exact ⟨remaining_of_isFinished hfinished, fun _ =>
        (hunits u hu).operation_ne_delete hchange hfinished⟩

/-- A creation is refused, for a stranger holds the name, and a stray is deleted: one
failure is reported, and one change is counted. -/
theorem goes_as_planned_beside_stranger :
    Calm ([0, 0, 0, 1].map .turn) ∧ Naming.isStorable "team" = true
      ∧ let r := Run.inMemory stoppedClock sampleInput clashingMemory ([0, 0, 0, 1].map .turn)
        GoesAsPlanned stoppedClock sampleInput clashingMemory r
          ∧ r.state.mutations = clashingMemory.mutations + 1
          ∧ Pass.reported (r.stage.result? sampleInput)
            = [(.create, .alreadyExists (usedSource "repo-topic-7" 7).key)] := by
  have hnamespace : Naming.isStorable sampleInput.template.namespaceName = true := by decide
  exact ⟨calm_turns _, hnamespace,
    goes_as_planned readsBack_stoppedClock (.create (reachable_usedMemory ..) _ _) sampleInput
      hnamespace (calm_turns _),
    by decide +kernel, by decide +kernel⟩

/-- A store with a configuration that is to be updated, and a stranger under the name
that is derived for its source. -/
def barredMemory : Memory :=
  ((Memory.store stoppedClock).create .terraform (usingTerraform "repo-topic-7" 7)
    takenMemory).state

/-- The operations that are left to a pass once all its units have ended. -/
def Stage.left : Stage → List Operation
  | applying _ units =>
    if units.all UnitRun.isFinished then (pending units).map Step.operation else []
  | _ => []

/-- **An update of the plan need not be issued.** The creation before it is refused; the
pass ends, the update is left, and nothing has changed. -/
theorem update_not_issued :
    let r := Run.inMemory stoppedClock sampleInput barredMemory ([0, 0, 0].map .turn)
    Memory.Reachable stoppedClock barredMemory ∧ Calm ([0, 0, 0].map .turn)
      ∧ r.state.mutations = barredMemory.mutations
      ∧ ∃ plan units, r.stage = .applying plan units ∧ (∀ u ∈ units, u.isFinished = true)
        ∧ ∃ step ∈ plan.steps, step.operation = .update ∧ ∃ u ∈ units, step ∈ u.remaining := by
  intro r
  have hm : Memory.Reachable stoppedClock barredMemory := .create (.create .empty _ _) _ _
  have hreached := Reached.inMemory readsBack_stoppedClock (hm.sound readsBack_stoppedClock)
    sampleInput ([0, 0, 0].map .turn)
  have hruns : r.state.mutations = barredMemory.mutations ∧ .update ∈ r.stage.left := by
    decide +kernel
  obtain ⟨hmutations, hleft⟩ := hruns
  refine ⟨hm, calm_turns _, hmutations, ?_⟩
  change Reached sampleInput barredMemory _ r at hreached
  generalize r = r at *
  cases hreached with
  | begun | listing | refused => cases hleft
  | @applying wanted owned units _ _ h =>
    refine ⟨_, units, rfl, ?_⟩
    by_cases hall : units.all UnitRun.isFinished = true
    · rw [Stage.left, if_pos hall] at hleft
      obtain ⟨step, hstep, hop⟩ := List.mem_map.mp hleft
      obtain ⟨u, hu, hremaining⟩ := List.mem_flatMap.mp hstep
      exact ⟨List.all_eq_true.mp hall, step, h.follows.mem_steps hu hremaining, hop, u, hu,
        hremaining⟩
    · rw [Stage.left, if_neg hall] at hleft
      cases hleft

end Pass

end PlanSync
