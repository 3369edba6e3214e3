import PlanSync.Proofs.Plan

/-!
# Passes that run interleaved

`Pass.reconcile` runs the units of a plan one after the other. A pass may run
them at the same time, so that their calls to the store come in any order; calls
may fail, and the pass may be cancelled at any moment. Here a pass is a machine
that issues one call to the store in each *turn*, and a run of the machine is
driven by a list of events: turns, faults and a cancellation. What holds of all
lists of events holds of every order of calls, however many units are allowed to
run at a time.

Running the units one after the other, under any flag, is one such list of events
(`Pass.leadsTo_reconcile`).
-/

namespace PlanSync

variable {σ : Type}

/-- A store none of whose calls gets through. -/
def Store.failing (e : StoreError) : Store σ where
  get _ _ _ := .fail e
  list _ _ _ := .fail e
  create _ _ := .fail e
  update _ _ := .fail e
  delete _ _ _ := .fail e

/-- A unit that has failed, or has no step left. -/
def UnitRun.isFinished (u : UnitRun) : Bool := u.failure.isSome || u.remaining.isEmpty

namespace Pass

/-- How far a pass has come. -/
inductive Stage where
  | begun
  /-- The configurations are listed, the sources are not. -/
  | listing (wanted : DesiredState) (terraforms : List Terraform)
  | applying (plan : Plan) (units : List UnitRun)
  /-- The pass failed before it changed anything. -/
  | refused (error : PassError)

namespace Stage

/-- **One call of a pass.** While a plan is applied, the unit at the given
place issues it. -/
def advance (store : Store σ) (cancelled : Bool) (i : Input) (place : Nat) :
    Stage → σ → Stage × σ
  | begun, s =>
    if cancelled then (refused .cancelled, s)
    else
      match desired i.template i.source i.pullRequests with
      | .error e => (refused e, s)
      | .ok wanted =>
        let r := store.list .terraform i.template.namespaceName (ownerSelector i.template.name) s
        match r.result with
        | .error e => (refused (.store e), r.state)
        | .ok ts => (listing wanted ts, r.state)
  | listing wanted ts, s =>
    let r := store.list .gitRepository i.template.namespaceName (ownerSelector i.template.name) s
    match r.result with
    | .error e => (refused (.store e), r.state)
    | .ok ss =>
      let plan := Plan.compute wanted (.ofListed i.template i.source ts ss)
      (applying plan (plan.changes.map .start), r.state)
  | applying plan units, s =>
    match units[place]? with
    | none => (applying plan units, s)
    | some u =>
      let (u, s, _) := u.advance store (fun _ => cancelled) s
      (applying plan (units.set place u), s)
  | refused e, s => (refused e, s)

/-- What a pass gives, once it has come to its end. -/
def result? (i : Input) : Stage → Option (Except PassError ApplySummary)
  | begun | listing .. => none
  | applying plan units =>
    if units.all UnitRun.isFinished then
      some (resultOf (addSkipped i.template plan.skipped (.ofUnits units)))
    else none
  | refused e => some (.error e)

/-- What is reported on the units of a plan. -/
def report : Stage → ApplyReport
  | applying _ units => .ofUnits units
  | _ => {}

/-- What the caller of a pass has been told, once the pass has come to its end. -/
def progress (stage : Stage) : List Progress := stage.report.progress

end Stage

/-- What happens next while a pass runs. -/
inductive Event where
  /-- The pass issues its next call; while a plan is applied, the unit at the
  given place does. -/
  | turn (place : Nat)
  /-- The same, but the call fails and has no effect. -/
  | fault (place : Nat) (error : StoreError)
  | cancel

/-- A pass that runs against a store. -/
structure Run (σ : Type) where
  stage : Stage := .begun
  cancelled : Bool := false
  state : σ

namespace Run

variable (store : Store σ) (i : Input)

/-- The pass after one more event. -/
def next (r : Run σ) : Event → Run σ
  | .turn place =>
    let (stage, s) := r.stage.advance store r.cancelled i place r.state
    { r with stage, state := s }
  | .fault place e =>
    let (stage, s) := r.stage.advance (Store.failing e) r.cancelled i place r.state
    { r with stage, state := s }
  | .cancel => { r with cancelled := true }

/-- The pass after a list of events. -/
def after (r : Run σ) (events : List Event) : Run σ := events.foldl (next store i) r

@[simp] theorem after_nil (r : Run σ) : r.after store i [] = r := rfl

theorem after_cons (r : Run σ) (e : Event) (events : List Event) :
    r.after store i (e :: events) = (r.next store i e).after store i events := rfl

theorem after_append (r : Run σ) (events events' : List Event) :
    r.after store i (events ++ events') = (r.after store i events).after store i events' :=
  List.foldl_append

variable {store i}

/-- **What every event of a run preserves, the run preserves.** -/
theorem after_induction {p : Run σ → Prop} {r : Run σ} {events : List Event} (h : p r)
    (hnext : ∀ r, ∀ e ∈ events, p r → p (r.next store i e)) : p (r.after store i events) := by
  induction events generalizing r with
  | nil => exact h
  | cons e events ih =>
    exact ih (hnext r e List.mem_cons_self h) fun r e he =>
      hnext r e (List.mem_cons_of_mem _ he)

end Run

/-! ## Results -/

theorem failures_ofUnits (units : List UnitRun) :
    (ApplyReport.ofUnits units).failures = units.filterMap UnitRun.failure := by
  cases units with
  | nil => rfl
  | cons u units => rfl

/-- Pull requests that are skipped are not told while the plan is applied. -/
theorem progress_addSkipped (template : Terraform) (skipped : List Skipped)
    (report : ApplyReport) : (addSkipped template skipped report).progress = report.progress := by
  unfold addSkipped
  split <;> rfl

/-- Pull requests that are skipped are reported as failures. -/
theorem failures_addSkipped_perm (template : Terraform) (skipped : List Skipped)
    (report : ApplyReport) : (addSkipped template skipped report).failures.Perm
      (report.failures ++ skipped.map (skippedFailure template)) := by
  unfold addSkipped
  cases skipped with
  | nil =>
    rw [List.map_nil, List.append_nil]
    exact .refl _
  | cons s skipped => exact List.mergeSort_perm _ _

/-- **The outcome of a pass that applied its plan** is that of the report on its units. -/
theorem result?_applying_eq {i : Input} {plan : Plan} {units : List UnitRun}
    {outcome : Except PassError ApplySummary}
    (h : (Stage.applying plan units).result? i = some outcome) :
    (∀ u ∈ units, u.isFinished = true)
      ∧ resultOf (addSkipped i.template plan.skipped (.ofUnits units)) = outcome := by
  rw [Stage.result?] at h
  split at h
  · next hall => exact ⟨List.all_eq_true.mp hall, Option.some.inj h⟩
  · cases h

/-- A report without failures is a summary, any other an error. -/
theorem resultOf_cases (report : ApplyReport) :
    (resultOf report = .ok report.summary ∧ report.failures = [])
      ∨ (resultOf report = .error (.apply report.failures) ∧ report.failures ≠ []) := by
  unfold resultOf
  split
  · next hempty => exact .inl ⟨rfl, List.isEmpty_iff.mp hempty⟩
  · next hempty => exact .inr ⟨rfl, fun hnil => hempty (List.isEmpty_iff.mpr hnil)⟩

/-- **What a pass that applied its plan reports as failed**: its units that
failed, and the pull requests that were skipped. -/
theorem result?_applying {i : Input} {plan : Plan} {units : List UnitRun}
    {outcome : Except PassError ApplySummary}
    (h : (Stage.applying plan units).result? i = some outcome) :
    (∀ u ∈ units, u.isFinished = true)
      ∧ ∃ failures, (∀ f, f ∈ failures ↔ (∃ u ∈ units, u.failure = some f)
            ∨ f ∈ plan.skipped.map (skippedFailure i.template))
        ∧ ((∃ summary, outcome = .ok summary ∧ failures = [])
          ∨ (outcome = .error (.apply failures) ∧ failures ≠ [])) := by
  obtain ⟨hfinished, rfl⟩ := result?_applying_eq h
  refine ⟨hfinished, (addSkipped i.template plan.skipped (.ofUnits units)).failures,
    fun f => ?_, ?_⟩
  · rw [(failures_addSkipped_perm ..).mem_iff, List.mem_append, failures_ofUnits,
      List.mem_filterMap]
  · rcases resultOf_cases (addSkipped i.template plan.skipped (.ofUnits units)) with
      ⟨hok, hempty⟩ | ⟨herror, hne⟩
    · exact .inl ⟨_, hok, hempty⟩
    · exact .inr ⟨herror, hne⟩

/-- A unit that is finished and has not failed has no step left. -/
theorem remaining_of_isFinished {u : UnitRun} (h : u.isFinished = true) (hf : u.failure = none) :
    u.remaining = [] := by
  unfold UnitRun.isFinished at h
  rw [hf] at h
  exact List.isEmpty_iff.mp h

/-- **A pass that succeeds has applied its plan**: no unit has a step left, and no pull
request was skipped. -/
theorem Stage.applying_of_ok {i : Input} {stage : Stage} {summary : ApplySummary}
    (hok : stage.result? i = some (.ok summary)) :
    ∃ plan units, stage = .applying plan units ∧ (∀ u ∈ units, u.remaining = [])
      ∧ plan.skipped = [] := by
  cases stage with
  | begun | listing | refused => cases hok
  | applying plan units =>
    obtain ⟨hfinished, failures, hfailures, hresult⟩ := result?_applying hok
    obtain ⟨_, -, rfl⟩ := hresult.resolve_right fun h => by cases h.1
    refine ⟨plan, units, rfl, fun u hu => ?_, List.eq_nil_iff_forall_not_mem.mpr ?_⟩
    · refine remaining_of_isFinished (hfinished u hu) ?_
      refine Option.eq_none_iff_forall_ne_some.mpr fun f hf => ?_
      exact List.not_mem_nil ((hfailures f).mpr (.inl ⟨u, hu, hf⟩))
    · intro s hs
      exact List.not_mem_nil ((hfailures _).mpr
        (.inr (List.mem_map_of_mem (f := skippedFailure i.template) hs)))

/-! ## Under a flag -/

/-- An event that a flag allows: a turn, or a cancellation if the flag can be set. -/
def Event.AllowedBy (flag : σ → Bool) : Event → Prop
  | turn _ => True
  | fault .. => False
  | cancel => ∃ s, flag s = true

/-- A flag that is never set allows nothing but turns. -/
theorem exists_places_of_allowedBy {flag : σ → Bool} (hflag : ∀ s, flag s = false)
    {events : List Event} (h : ∀ e ∈ events, e.AllowedBy flag) :
    ∃ places : List Nat, events = places.map .turn := by
  induction events with
  | nil => exact ⟨[], rfl⟩
  | cons e events ih =>
    rw [List.forall_mem_cons] at h
    obtain ⟨places, rfl⟩ := ih h.2
    cases e with
    | turn place => exact ⟨place :: places, rfl⟩
    | fault => exact h.1.elim
    | cancel =>
      obtain ⟨s, hs⟩ := h.1
      cases (hflag s).symm.trans hs

/-- **A run leads to another** by events that a flag allows. -/
def Run.LeadsTo (store : Store σ) (i : Input) (flag : σ → Bool) (r r' : Run σ) : Prop :=
  ∃ events : List Event, (∀ e ∈ events, e.AllowedBy flag) ∧ r.after store i events = r'

namespace Run.LeadsTo

variable {store : Store σ} {i : Input} {flag : σ → Bool} {r r' r'' : Run σ}

theorem refl (r : Run σ) : LeadsTo store i flag r r := ⟨[], fun _ he => (by cases he), rfl⟩

theorem trans (h : LeadsTo store i flag r r') (h' : LeadsTo store i flag r' r'') :
    LeadsTo store i flag r r'' := by
  obtain ⟨events, hevents, rfl⟩ := h
  obtain ⟨events', hevents', rfl⟩ := h'
  exact ⟨events ++ events', List.forall_mem_append.mpr ⟨hevents, hevents'⟩, Run.after_append ..⟩

end Run.LeadsTo

/-! ## One unit after the other -/

section Sequential

variable {store : Store σ} {i : Input} {plan : Plan} {cancelled : Bool} {flag : σ → Bool}

/-- A finished unit issues no call. -/
theorem advance_of_isFinished {u : UnitRun} (h : u.isFinished = true) (flag : σ → Bool) (s : σ) :
    u.advance store flag s = (u, s, []) := by
  unfold UnitRun.isFinished at h
  unfold UnitRun.advance
  split
  · next hf hr =>
    rw [hf, hr] at h
    cases h
  · rfl

theorem advanceBy_of_isFinished {u : UnitRun} (h : u.isFinished = true) (flag : σ → Bool)
    (n : Nat) (s : σ) : u.advanceBy store flag n s = (u, s, []) := by
  induction n with
  | zero => rfl
  | succ n ih => simp only [UnitRun.advanceBy, advance_of_isFinished h, ih, List.append_nil]

/-- A unit that gets as many turns as it has steps is finished. -/
theorem isFinished_advanceBy (flag : σ → Bool) {n : Nat} {u : UnitRun}
    (h : u.remaining.length ≤ n) (s : σ) : (u.advanceBy store flag n s).1.isFinished = true := by
  induction n generalizing u s with
  | zero =>
    rw [UnitRun.advanceBy, UnitRun.isFinished,
      List.length_eq_zero_iff.mp (Nat.le_zero.mp h)]
    exact Bool.or_true _
  | succ n ih =>
    by_cases hu : u.isFinished = true
    · rw [advanceBy_of_isFinished hu]
      exact hu
    · simp only [UnitRun.isFinished, Bool.or_eq_true, not_or, Bool.not_eq_true,
        Option.isSome_eq_false_iff, Option.isNone_iff_eq_none, List.isEmpty_eq_false_iff] at hu
      obtain ⟨step, rest, hr⟩ := List.exists_cons_of_ne_nil hu.2
      rw [hr, List.length_cons] at h
      simp only [UnitRun.advanceBy, UnitRun.advance, hu.1, hr]
      -- a turn takes the next step away, or the unit has failed
      cases (step.run store flag s).result with
      | ok _ => exact ih (Nat.le_of_succ_le_succ h) _
      | error e =>
        have hfailed : (u.after step rest (.error e)).isFinished = true := rfl
        rw [advanceBy_of_isFinished hfailed]
        exact hfailed

theorem isFinished_runUnits (flag : σ → Bool) (units : List UnitRun) (s : σ) :
    ∀ u ∈ (Plan.runUnits store flag units s).1, u.isFinished = true := by
  induction units generalizing s with
  | nil => exact fun _ hu => by cases hu
  | cons u units ih =>
    simp only [Plan.runUnits]
    rw [List.forall_mem_cons]
    exact ⟨isFinished_advanceBy flag (Nat.le_refl _) s, ih _⟩

/-- Once the flag is set, a unit leaves the store alone. -/
theorem state_advance_of_flag (u : UnitRun) {s : σ} (h : flag s = true) :
    (u.advance store flag s).2.1 = s := by
  unfold UnitRun.advance
  split
  · exact congrArg Outcome.state (if_pos h)
  · rfl

/-- A turn of one unit. The pass is cancelled before it, if the flag is set. -/
theorem leadsTo_advance (store : Store σ) (i : Input) (plan : Plan) (flag : σ → Bool)
    {place : Nat} {u : UnitRun} {units : List UnitRun} (hu : units[place]? = some u) {s : σ}
    (hflag : cancelled = true → flag s = true) :
    Run.LeadsTo store i flag ⟨.applying plan units, cancelled, s⟩
      ⟨.applying plan (units.set place (u.advance store flag s).1), flag s,
        (u.advance store flag s).2.1⟩ := by
  have hadvance : u.advance store flag s = u.advance store (fun _ => flag s) s := rfl
  cases hset : flag s with
  | true =>
    refine ⟨[.cancel, .turn place], ?_, ?_⟩
    · rw [List.forall_mem_cons, List.forall_mem_singleton]
      exact ⟨⟨s, hset⟩, trivial⟩
    · simp only [Run.after_cons, Run.after_nil, Run.next, Stage.advance, hu, hadvance, hset]
  | false =>
    obtain rfl : cancelled = false :=
      Bool.eq_false_iff.mpr fun h => by cases hset.symm.trans (hflag h)
    refine ⟨[.turn place], List.forall_mem_singleton.mpr trivial, ?_⟩
    simp only [Run.after_cons, Run.after_nil, Run.next, Stage.advance, hu, hadvance, hset]

/-- Turns of one unit. -/
theorem leadsTo_advanceBy (store : Store σ) (i : Input) (plan : Plan) (flag : σ → Bool)
    {place : Nat} {u : UnitRun} {units : List UnitRun} (hu : units[place]? = some u) (n : Nat)
    {s : σ} (hflag : cancelled = true → flag s = true) :
    ∃ cancelled', (cancelled' = true → flag (u.advanceBy store flag n s).2.1 = true)
      ∧ Run.LeadsTo store i flag ⟨.applying plan units, cancelled, s⟩
        ⟨.applying plan (units.set place (u.advanceBy store flag n s).1), cancelled',
          (u.advanceBy store flag n s).2.1⟩ := by
  induction n generalizing u units s cancelled with
  | zero =>
    obtain ⟨hplace, rfl⟩ := List.getElem?_eq_some_iff.mp hu
    refine ⟨cancelled, hflag, ?_⟩
    rw [UnitRun.advanceBy, List.set_getElem_self]
    exact .refl _
  | succ n ih =>
    have hplace : place < units.length := (List.getElem?_eq_some_iff.mp hu).1
    have hflag' : flag s = true → flag (u.advance store flag s).2.1 = true := fun h => by
      rw [state_advance_of_flag u h]
      exact h
    obtain ⟨cancelled', hcancelled', hleads⟩ := ih (List.getElem?_set_self hplace) hflag'
    rw [List.set_set] at hleads
    exact ⟨cancelled', hcancelled', (leadsTo_advance store i plan flag hu hflag).trans hleads⟩

/-- Turns of all units, one unit after the other. -/
theorem leadsTo_runUnits (store : Store σ) (i : Input) (plan : Plan) (flag : σ → Bool)
    (before units : List UnitRun) {s : σ} (hflag : cancelled = true → flag s = true) :
    ∃ cancelled', (cancelled' = true → flag (Plan.runUnits store flag units s).2.1 = true)
      ∧ Run.LeadsTo store i flag ⟨.applying plan (before ++ units), cancelled, s⟩
        ⟨.applying plan (before ++ (Plan.runUnits store flag units s).1), cancelled',
          (Plan.runUnits store flag units s).2.1⟩ := by
  induction units generalizing before s cancelled with
  | nil => exact ⟨cancelled, hflag, .refl _⟩
  | cons u units ih =>
    have hu : (before ++ u :: units)[before.length]? = some u := by
      rw [List.getElem?_append_right (Nat.le_refl _), Nat.sub_self]
      rfl
    -- the unit gets a turn for each of its steps, then the units after it get theirs
    obtain ⟨cancelled₁, hflag₁, hleads⟩ :=
      leadsTo_advanceBy store i plan flag hu u.remaining.length hflag
    obtain ⟨cancelled₂, hflag₂, hleads'⟩ := ih (before ++ [(u.finish store flag s).1]) hflag₁
    refine ⟨cancelled₂, hflag₂, hleads.trans ?_⟩
    rw [List.set_append_right _ _ (Nat.le_refl _), Nat.sub_self, List.set_cons_zero]
    rw [List.append_assoc, List.singleton_append, List.append_assoc] at hleads'
    exact hleads'

/-- **A plan is applied in one order of events.** -/
theorem leadsTo_apply (store : Store σ) (i : Input) (plan : Plan) (flag : σ → Bool) (s : σ) :
    let applied := plan.apply store flag s
    ∃ units cancelled, Run.LeadsTo store i flag
        ⟨.applying plan (plan.changes.map .start), false, s⟩
        ⟨.applying plan units, cancelled, applied.2.1⟩
      ∧ applied.1 = .ofUnits units ∧ ∀ u ∈ units, u.isFinished = true := by
  intro applied
  obtain ⟨cancelled, -, hleads⟩ := leadsTo_runUnits store i plan flag []
    (plan.changes.map .start) fun h : false = true => by cases h
  exact ⟨_, cancelled, hleads, rfl, isFinished_runUnits flag _ s⟩

/-- If the flag is never set, there are only turns. -/
theorem exists_turns_of_runUnits (store : Store σ) (i : Input) (plan : Plan)
    (before units : List UnitRun) (s : σ) :
    ∃ places : List Nat, Run.after store i ⟨.applying plan (before ++ units), false, s⟩
        (places.map .turn)
      = ⟨.applying plan
            (before ++ (Plan.runUnits store (fun _ => false) units s).1), false,
          (Plan.runUnits store (fun _ => false) units s).2.1⟩ := by
  obtain ⟨cancelled, hflag, events, hevents, hrun⟩ := leadsTo_runUnits store i plan
    (fun _ => false) before units fun h : false = true => by cases h
  obtain ⟨places, rfl⟩ := exists_places_of_allowedBy (fun _ => rfl) hevents
  obtain rfl : cancelled = false := Bool.eq_false_iff.mpr fun h => by cases hflag h
  exact ⟨places, hrun⟩

/-- **The first two turns make the plan**, unless the pass is refused. -/
theorem after_two_turns (store : Store σ) (i : Input) (s : σ) :
    (Run.after store i ⟨.begun, false, s⟩ [.turn 0, .turn 0]).state
        = (Pass.plan store i.template i.source i.pullRequests s).state
      ∧ (Run.after store i ⟨.begun, false, s⟩ [.turn 0, .turn 0]).cancelled = false
      ∧ (Run.after store i ⟨.begun, false, s⟩ [.turn 0, .turn 0]).stage
        = match (Pass.plan store i.template i.source i.pullRequests s).result with
          | .ok plan => .applying plan (plan.changes.map .start)
          | .error e => .refused e := by
  simp only [Run.after_cons, Run.after_nil, Run.next, Stage.advance, Bool.false_eq_true, if_false,
    Pass.plan, owned, OwnedObjects.listIn, bind, Action.andThen, Action.ofExcept, Action.report,
    Action.mapError, pure, Action.done]
  cases desired i.template i.source i.pullRequests with
  | error e => exact ⟨rfl, trivial, rfl⟩
  | ok wanted =>
    simp only
    cases hts : (store.list .terraform i.template.namespaceName
        (ownerSelector i.template.name) s).result with
    | error e => exact ⟨rfl, trivial, rfl⟩
    | ok ts =>
      simp only
      cases (store.list .gitRepository i.template.namespaceName (ownerSelector i.template.name)
          (store.list .terraform i.template.namespaceName
            (ownerSelector i.template.name) s).state).result with
      | error e => exact ⟨rfl, trivial, rfl⟩
      | ok ss => exact ⟨rfl, trivial, rfl⟩

/-- **A plan whose units run one after the other is applied in one order of
turns.** -/
theorem leadsTo_plan (store : Store σ) (i : Input) (flag : σ → Bool) (s : σ)
    (hplan : (Pass.plan store i.template i.source i.pullRequests s).result = .ok plan) :
    let r := Plan.runUnits store flag (plan.changes.map .start)
      (Pass.plan store i.template i.source i.pullRequests s).state
    ∃ cancelled, (cancelled = true → flag r.2.1 = true)
      ∧ Run.LeadsTo store i flag { state := s } ⟨.applying plan r.1, cancelled, r.2.1⟩ := by
  intro r
  obtain ⟨hstate, hcancelled, hstage⟩ := after_two_turns store i s
  rw [hplan] at hstage
  have hfirst : Run.LeadsTo store i flag { state := s }
      ⟨.applying plan (plan.changes.map .start), false,
        (Pass.plan store i.template i.source i.pullRequests s).state⟩ := by
    refine ⟨[.turn 0, .turn 0], ?_, ?_⟩
    · rw [List.forall_mem_cons, List.forall_mem_singleton]
      exact ⟨trivial, trivial⟩
    · generalize Run.after store i { state := s } [.turn 0, .turn 0] = r at *
      obtain ⟨stage, flag, state⟩ := r
      cases hcancelled
      cases hstage
      cases hstate
      rfl
  obtain ⟨cancelled, hflag, hleads⟩ := leadsTo_runUnits store i plan flag []
    (plan.changes.map .start) fun h : false = true => by cases h
  exact ⟨cancelled, hflag, hfirst.trans hleads⟩

/-- If the flag is never set, there are only turns. -/
theorem exists_turns_of_plan (store : Store σ) (i : Input) (s : σ)
    (hplan : (Pass.plan store i.template i.source i.pullRequests s).result = .ok plan) :
    ∃ places : List Nat, Run.after store i { state := s } (places.map .turn)
      = ⟨.applying plan (Plan.runUnits store (fun _ => false) (plan.changes.map .start)
            (Pass.plan store i.template i.source i.pullRequests s).state).1, false,
          (Plan.runUnits store (fun _ => false) (plan.changes.map .start)
            (Pass.plan store i.template i.source i.pullRequests s).state).2.1⟩ := by
  obtain ⟨cancelled, hflag, events, hevents, hrun⟩ := leadsTo_plan store i (fun _ => false) s hplan
  obtain ⟨places, rfl⟩ := exists_places_of_allowedBy (fun _ => rfl) hevents
  obtain rfl : cancelled = false := Bool.eq_false_iff.mpr fun h => by cases hflag h
  exact ⟨places, hrun⟩

/-- **What a pass comes to** whose units run one after the other. -/
theorem reconcile_of_plan (store : Store σ) (i : Input) (flag : σ → Bool) {s : σ}
    (hflag : flag s = false)
    (hplan : (Pass.plan store i.template i.source i.pullRequests s).result = .ok plan) :
    let r := Plan.runUnits store flag (plan.changes.map .start)
      (Pass.plan store i.template i.source i.pullRequests s).state
    (reconcile store flag i.template i.source i.pullRequests s).2.1 = r.2.1
      ∧ (Stage.applying plan r.1).result? i
        = some (reconcile store flag i.template i.source i.pullRequests s).1.outcome
      ∧ (ApplyReport.ofUnits r.1).progress
        = (reconcile store flag i.template i.source i.pullRequests s).1.progress := by
  intro r
  have hfinished : r.1.all UnitRun.isFinished = true :=
    List.all_eq_true.mpr (isFinished_runUnits _ _ _)
  rw [Stage.result?, if_pos hfinished]
  simp only [reconcile, hflag, Bool.false_eq_true, if_false, hplan, Plan.apply, progress_addSkipped]
  exact ⟨rfl, rfl, rfl⟩

/-- **Running the units one after the other is one order of events**, with the same end:
a turn for each call, and a cancellation before the turn at which the flag is found to be
set, if it ever is. -/
theorem leadsTo_reconcile (store : Store σ) (i : Input) (flag : σ → Bool) (s : σ) :
    let result := reconcile store flag i.template i.source i.pullRequests s
    ∃ r, Run.LeadsTo store i flag { state := s } r ∧ r.state = result.2.1
      ∧ r.stage.result? i = some result.1.outcome ∧ r.stage.progress = result.1.progress := by
  intro result
  cases hflag : flag s with
  | true =>
    have hresult : result = ({ outcome := .error .cancelled }, s, []) := if_pos hflag
    refine ⟨⟨.refused .cancelled, true, s⟩, ⟨[.cancel, .turn 0], ?_, rfl⟩, ?_⟩
    · rw [List.forall_mem_cons, List.forall_mem_singleton]
      exact ⟨⟨s, hflag⟩, trivial⟩
    · rw [hresult]
      exact ⟨rfl, rfl, rfl⟩
  | false =>
    cases hplan : (Pass.plan store i.template i.source i.pullRequests s).result with
    | error e =>
      obtain ⟨hstate, -, hstage⟩ := after_two_turns store i s
      rw [hplan] at hstage
      refine ⟨_, ⟨[.turn 0, .turn 0], ?_, rfl⟩, ?_⟩
      · rw [List.forall_mem_cons, List.forall_mem_singleton]
        exact ⟨trivial, trivial⟩
      · rw [hstate, hstage]
        simp only [result, reconcile, hflag, Bool.false_eq_true, if_false, hplan]
        exact ⟨trivial, rfl, rfl⟩
    | ok plan =>
      obtain ⟨cancelled, -, hleads⟩ := leadsTo_plan store i flag s hplan
      obtain ⟨hstate, hresult, hprogress⟩ := reconcile_of_plan store i flag hflag hplan
      exact ⟨_, hleads, hstate.symm, hresult, hprogress⟩

/-- If the flag is never set, there are only turns. -/
theorem exists_turns_of_reconcile (store : Store σ) (i : Input) (s : σ) :
    ∃ places : List Nat,
      (Run.after store i { state := s } (places.map .turn)).state
          = (reconcile store (fun _ => false) i.template i.source i.pullRequests s).2.1
        ∧ (Run.after store i { state := s } (places.map .turn)).stage.result? i
          = some (reconcile store (fun _ => false) i.template i.source
              i.pullRequests s).1.outcome := by
  obtain ⟨_, ⟨events, hevents, rfl⟩, hstate, hresult, -⟩ :=
    leadsTo_reconcile store i (fun _ => false) s
  obtain ⟨places, rfl⟩ := exists_places_of_allowedBy (fun _ => rfl) hevents
  exact ⟨places, hstate, hresult⟩

end Sequential

end Pass

end PlanSync
