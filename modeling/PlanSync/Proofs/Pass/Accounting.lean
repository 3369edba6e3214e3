import Mathlib.Algebra.GroupWithZero.Nat
import PlanSync.Proofs.Pass.Course
import PlanSync.Proofs.Store.Recording

/-!
# The calls of a plan and the report on them

Whatever a store answers, in whatever order the units of a plan get their turns, and
whenever the pass is cancelled, the report on the plan accounts for every call that was
issued (`Pass.apply_audited`). Nothing is assumed of the store or of the plan.

A unit issues its steps in order up to the first that fails, or up to the moment of the
cancellation (`Pass.Account`). The store sees the calls of all units and does not see
which unit issues a call, so the calls are told with the place of their unit
(`Pass.UnitCall`); what a unit has issued are the calls at its place.
-/

namespace PlanSync

variable {σ : Type}

namespace Step

/-- The request of a step. -/
def request : Step → Request
  | create k o => .create k o
  | update k _ o => .update k o
  | delete key => .delete key

/-- **The call of a step is recorded**, and no other. -/
theorem issue_recording (store : Store σ) (step : Step) :
    step.issue store.recording = recorded step.request (step.issue store) := by
  cases step with
  | create k o => exact recorded_discard (.create k o) (store.create k o) ()
  | update k current o => exact recorded_discard (.update k o) (store.update k o) ()
  | delete key => rfl

/-- **An answer counts as done** if it is no error, or if what was to be deleted is not
there. -/
def CountsAsDone (step : Step) : Option StoreError → Prop
  | none => True
  | some e => step.operation = .delete ∧ e.isNotFound = true

instance (step : Step) : (error : Option StoreError) → Decidable (step.CountsAsDone error)
  | none => isTrue trivial
  | some e => inferInstanceAs (Decidable (step.operation = .delete ∧ e.isNotFound = true))

/-- **How the answer to a step is settled**: it counts as done, or the step fails with the
error. -/
theorem settle_cases (step : Step) (r : Outcome σ StoreError Unit) :
    ((step.settle r).result = .ok () ∧ step.CountsAsDone (Answer.error? r.result))
      ∨ ∃ e, (step.settle r).result = .error e ∧ Answer.error? r.result = some e
        ∧ ¬ step.CountsAsDone (some e) := by
  obtain ⟨result, s, log⟩ := r
  cases result with
  | ok _ =>
    left
    cases step with
    | create | update | delete => exact ⟨rfl, trivial⟩
  | error e =>
    cases step with
    | create k o => exact .inr ⟨e, rfl, rfl, fun h => by cases h.1⟩
    | update k current o => exact .inr ⟨e, rfl, rfl, fun h => by cases h.1⟩
    | delete key =>
      by_cases he : e.isNotFound = true
      · exact .inl ⟨by simp only [settle, if_pos he], rfl, he⟩
      · exact .inr ⟨e, by simp only [settle, if_neg he], rfl, fun h => he h.2⟩

/-- Answers that are alike are settled alike. -/
theorem result_settle {τ : Type} (step : Step) {r : Outcome σ StoreError Unit}
    {r' : Outcome τ StoreError Unit} (h : r.result = r'.result) :
    (step.settle r).result = (step.settle r').result := by
  obtain ⟨result, s, log⟩ := r
  obtain ⟨result', s', log'⟩ := r'
  subst h
  cases step with
  | create | update => rfl
  | delete key =>
    cases result with
    | ok _ => rfl
    | error e =>
      simp only [settle]
      split <;> rfl

end Step

/-! ## Counting -/

namespace ApplySummary

/-- How many steps of a sort were applied. -/
def count (s : ApplySummary) : Operation → Nat
  | .create => s.created
  | .update => s.updated
  | .delete => s.deleted

theorem count_addStep (s : ApplySummary) (op op' : Operation) :
    (s.addStep op').count op = s.count op + if op' = op then 1 else 0 := by
  cases op <;> cases op' <;> rfl

theorem count_merge (s t : ApplySummary) (op : Operation) :
    (s.merge t).count op = s.count op + t.count op := by
  cases op <;> rfl

end ApplySummary

/-- The counts that are reported are those of the units together. -/
theorem ApplyReport.sum_ofUnits (f : ApplySummary → Nat) (hzero : f {} = 0)
    (hmerge : ∀ s t, f (s.merge t) = f s + f t) (units : List UnitRun) :
    f (ofUnits units).summary = (units.map fun u => f u.finalSummary).sum := by
  have hfold : ∀ (units : List UnitRun) (s : ApplySummary),
      f ((units.map UnitRun.finalSummary).foldl ApplySummary.merge s)
        = f s + (units.map fun u => f u.finalSummary).sum := by
    intro units
    induction units with
    | nil => exact fun s => rfl
    | cons u units ih =>
      intro s
      rw [List.map_cons, List.foldl_cons, ih, hmerge, List.map_cons, List.sum_cons, Nat.add_assoc]
  unfold ofUnits
  split
  · next hempty =>
    rw [List.isEmpty_iff.mp hempty]
    exact hzero
  · exact (hfold units {}).trans (by rw [hzero, Nat.zero_add])

namespace Pass

variable {i : Input} {plan : Plan} {units : List UnitRun} {cancelled : Bool}

/-! ## The calls of units -/

/-- **A call that a unit has issued**: the place of the unit in the plan, the step, and the
error of the answer, if it was one. -/
structure UnitCall where
  place : Nat
  step : Step
  error : Option StoreError

namespace UnitCall

/-- What the store sees of a call. -/
def exchange (c : UnitCall) : Exchange := ⟨c.step.request, c.error⟩

/-- The call counts as done. -/
def Done (c : UnitCall) : Prop := c.step.CountsAsDone c.error

instance (c : UnitCall) : Decidable c.Done := inferInstanceAs (Decidable (c.step.CountsAsDone _))

/-- The calls of the unit at a place. -/
def issuedBy (place : Nat) (calls : List UnitCall) : List UnitCall :=
  calls.filter fun c => c.place = place

/-- How many calls of a sort count as done. -/
def countDone (op : Operation) (calls : List UnitCall) : Nat :=
  calls.countP fun c => c.Done ∧ c.step.operation = op

variable {place p : Nat} {calls added : List UnitCall}

theorem issuedBy_append :
    issuedBy place (calls ++ added) = issuedBy place calls ++ issuedBy place added :=
  List.filter_append ..

theorem countDone_append (op : Operation) :
    countDone op (calls ++ added) = countDone op calls + countDone op added :=
  List.countP_append ..

theorem issuedBy_self (h : ∀ c ∈ calls, c.place = place) : issuedBy place calls = calls :=
  List.filter_eq_self.mpr fun c hc => decide_eq_true (h c hc)

theorem issuedBy_of_ne (h : ∀ c ∈ calls, c.place = place) (hne : place ≠ p) :
    issuedBy p calls = [] :=
  List.filter_eq_nil_iff.mpr fun c hc hc' => hne ((h c hc).symm.trans (of_decide_eq_true hc'))

end UnitCall

/-- **What a unit has issued**: its steps in order, and all but the last are done. If the
last is done too, the unit has not failed, and the other steps are still to come. If the
last is not done, the unit has failed with its error. And if the pass was cancelled, the
unit may have failed at the step that comes next, which it did not issue. -/
inductive Account (cancelled : Bool) (u : UnitRun) (calls : List UnitCall) : Prop
  | underway (hdone : ∀ c ∈ calls, c.Done)
      (hsteps : calls.map UnitCall.step ++ u.remaining = u.change.steps)
      (hfailure : u.failure = none)
  | stopped {before : List UnitCall} {c : UnitCall} {e : StoreError} {rest : List Step}
      (hcalls : calls = before ++ [c]) (hdone : ∀ b ∈ before, b.Done) (hanswer : c.error = some e)
      (hnot : ¬ c.Done) (hsteps : calls.map UnitCall.step ++ rest = u.change.steps)
      (hfailure : u.failure = some (u.failureAt c.step e))
  | cutOff {step : Step} {rest : List Step} (hcancelled : cancelled = true)
      (hdone : ∀ c ∈ calls, c.Done)
      (hsteps : calls.map UnitCall.step ++ step :: rest = u.change.steps)
      (hfailure : u.failure = some (u.failureAt step .cancelled))

namespace Account

variable {u : UnitRun} {calls : List UnitCall}

theorem start (cancelled : Bool) (change : BranchChange) :
    Account cancelled (.start change) [] :=
  .underway (fun _ h => by cases h) rfl rfl

/-- A cancellation alone changes nothing. -/
theorem cancel (h : Account cancelled u calls) : Account true u calls := by
  cases h with
  | underway hdone hsteps hfailure => exact .underway hdone hsteps hfailure
  | stopped hcalls hdone hanswer hnot hsteps hfailure =>
    exact .stopped hcalls hdone hanswer hnot hsteps hfailure
  | cutOff _ hdone hsteps hfailure => exact .cutOff rfl hdone hsteps hfailure

theorem of_ready (h : Account cancelled u calls) (hready : u.failure = none) :
    (∀ c ∈ calls, c.Done) ∧ calls.map UnitCall.step ++ u.remaining = u.change.steps := by
  cases h with
  | underway hdone hsteps _ => exact ⟨hdone, hsteps⟩
  | stopped _ _ _ _ _ hfailure => cases hready.symm.trans hfailure
  | cutOff _ _ _ hfailure => cases hready.symm.trans hfailure

variable {step : Step} {rest : List Step}

/-- **The next step is issued.** -/
theorem issue (h : Account cancelled u calls) (hready : u.failure = none)
    (hnext : u.remaining = step :: rest) (place : Nat) {r : Outcome σ StoreError Unit} :
    Account cancelled (u.after step rest (step.settle r).result)
      (calls ++ [⟨place, step, Answer.error? r.result⟩]) := by
  obtain ⟨hdone, hsteps⟩ := h.of_ready hready
  have hsteps' : ∀ c : UnitCall, c.step = step →
      (calls ++ [c]).map UnitCall.step ++ rest = u.change.steps := by
    rintro c rfl
    rw [List.map_append, List.append_assoc, ← hsteps, hnext]
    rfl
  rcases step.settle_cases r with ⟨hok, hcounts⟩ | ⟨e, herror, hanswer, hnot⟩
  · rw [hok]
    refine .underway ?_ (hsteps' _ rfl) hready
    rw [List.forall_mem_append, List.forall_mem_singleton]
    exact ⟨hdone, hcounts⟩
  · rw [herror]
    exact .stopped rfl hdone hanswer (hanswer ▸ hnot) (hsteps' _ rfl) rfl

/-- **The next step is not issued**, for the pass has been cancelled. -/
theorem cutOff_next (h : Account true u calls) (hready : u.failure = none)
    (hnext : u.remaining = step :: rest) :
    Account true (u.after step rest (.error .cancelled)) calls := by
  obtain ⟨hdone, hsteps⟩ := h.of_ready hready
  exact .cutOff rfl hdone (hnext ▸ hsteps) rfl

end Account

/-! ## A plan under way -/

/-- **Calls account for a plan under way**: they are those of its units, what each unit has
issued accounts for how far it has come, and the calls that are done are those that the
units have counted. -/
structure Audited (plan : Plan) (cancelled : Bool) (units : List UnitRun)
    (calls : List UnitCall) : Prop where
  changes : units.map UnitRun.change = plan.changes
  placed : ∀ c ∈ calls, c.place < units.length
  account : ∀ place u, units[place]? = some u → Account cancelled u (UnitCall.issuedBy place calls)
  counted : ∀ op, (units.map fun u => u.summary.count op).sum = UnitCall.countDone op calls
  unfailed : ∀ u ∈ units, u.summary.failed = 0

namespace Audited

variable {calls : List UnitCall}

theorem start (plan : Plan) (cancelled : Bool) :
    Audited plan cancelled (plan.changes.map .start) [] where
  changes := by
    rw [List.map_map]
    exact List.map_id _
  placed c hc := by cases hc
  account place u hu := by
    rw [List.getElem?_map] at hu
    obtain ⟨change, -, rfl⟩ := Option.map_eq_some_iff.mp hu
    exact .start cancelled change
  counted op := by
    have hzero : ∀ change ∈ plan.changes,
        ((fun u => u.summary.count op) ∘ UnitRun.start) change = 0 :=
      fun _ _ => by cases op <;> rfl
    rw [List.map_map, List.map_congr_left hzero, List.map_const', List.sum_replicate_nat,
      Nat.mul_zero]
    rfl
  unfailed u hu := by
    obtain ⟨change, -, rfl⟩ := List.mem_map.mp hu
    rfl

theorem cancel (h : Audited plan cancelled units calls) : Audited plan true units calls :=
  { h with account := fun place u hu => (h.account place u hu).cancel }

/-- **One unit moves on**, and issues what is added to the calls. -/
theorem set (h : Audited plan cancelled units calls) {place : Nat} {u u' : UnitRun}
    (hu : units[place]? = some u) (hchange : u'.change = u.change) {added : List UnitCall}
    (hplace : ∀ c ∈ added, c.place = place)
    (haccount : Account cancelled u' (UnitCall.issuedBy place calls ++ added))
    (hcount : ∀ op, u'.summary.count op = u.summary.count op + UnitCall.countDone op added)
    (hfailed : u'.summary.failed = u.summary.failed) :
    Audited plan cancelled (units.set place u') (calls ++ added) := by
  obtain ⟨before, later, hunits, hset⟩ := exists_split hu
  have hlt : place < units.length := (List.getElem?_eq_some_iff.mp hu).1
  refine ⟨?_, ?_, fun p v hv => ?_, fun op => ?_, ?_⟩
  · rw [hset, ← h.changes, hunits]
    simp only [List.map_append, List.map_cons, hchange]
  · rw [List.length_set, List.forall_mem_append]
    exact ⟨h.placed, fun c hc => hplace c hc ▸ hlt⟩
  · rw [UnitCall.issuedBy_append]
    by_cases hp : place = p
    · subst hp
      rw [List.getElem?_set_self hlt] at hv
      cases hv
      rw [UnitCall.issuedBy_self hplace]
      exact haccount
    · rw [List.getElem?_set_ne hp] at hv
      rw [UnitCall.issuedBy_of_ne hplace hp, List.append_nil]
      exact h.account p v hv
  · have hbefore := h.counted op
    rw [hset, UnitCall.countDone_append, ← hbefore, hunits]
    simp only [List.map_append, List.map_cons, List.sum_append, List.sum_cons, hcount]
    omega
  · have hunfailed := h.unfailed
    rw [hset]
    rw [hunits] at hunfailed
    refine forall_mem_split hunfailed (hfailed.trans (hunfailed u ?_))
    exact List.mem_append_right _ List.mem_cons_self

/-- **A turn**, of a pass that has not been cancelled. -/
theorem turn (h : Audited plan false units calls) {place : Nat} {u : UnitRun} {step : Step}
    {rest : List Step} (hu : units[place]? = some u) (hready : u.failure = none)
    (hnext : u.remaining = step :: rest) (r : Outcome σ StoreError Unit) :
    Audited plan false (units.set place (u.after step rest (step.settle r).result))
      (calls ++ [⟨place, step, Answer.error? r.result⟩]) := by
  refine h.set hu (change_after u step rest _) ?_
    ((h.account place u hu).issue hready hnext place) (fun op => ?_) ?_
  · rw [List.forall_mem_singleton]
  · -- the step is counted exactly if its call counts as done
    rcases step.settle_cases r with ⟨hok, hcounts⟩ | ⟨e, herror, hanswer, hnot⟩
    · rw [hok]
      refine (u.summary.count_addStep op step.operation).trans ?_
      simp [UnitCall.countDone, UnitCall.Done, hcounts]
    · rw [herror, hanswer]
      simp [UnitCall.countDone, UnitCall.Done, hnot, UnitRun.after]
  · cases (step.settle r).result with
    | ok _ => cases hop : step.operation <;> simp only [UnitRun.after, hop, ApplySummary.addStep]
    | error e => rfl

/-- **A turn after the cancellation** issues no call. -/
theorem turn_of_cancelled (h : Audited plan true units calls) {place : Nat} {u : UnitRun}
    {step : Step} {rest : List Step} (hu : units[place]? = some u) (hready : u.failure = none)
    (hnext : u.remaining = step :: rest) :
    Audited plan true (units.set place (u.after step rest (.error .cancelled))) calls := by
  have haccount := (h.account place u hu).cutOff_next hready hnext
  rw [← List.append_nil (UnitCall.issuedBy place calls)] at haccount
  have hset := h.set hu (change_after u step rest _) (List.forall_mem_nil _) haccount
    (fun _ => rfl) rfl
  rwa [List.append_nil] at hset

end Audited

/-! ## Runs on a store that records -/

/-- Two stores answer alike, but for what one of them has recorded. -/
structure AnswerAlike (store : Store σ) (store' : Store (Recorded σ)) : Prop where
  list : ∀ k namespaceName selector,
    Action.Agree (store'.list k namespaceName selector) (store.list k namespaceName selector)
  issue : ∀ step : Step, Action.Agree (step.issue store') (step.issue store)

theorem answerAlike_recording (store : Store σ) : AnswerAlike store store.recording where
  list _ _ _ := agree_recorded _ _
  issue step := by
    rw [Step.issue_recording]
    exact agree_recorded _ _

theorem answerAlike_failing (e : StoreError) :
    AnswerAlike (Store.failing e : Store σ) (Store.failing e) where
  list _ _ _ _ := ⟨rfl, rfl⟩
  issue step s := by cases step <;> exact ⟨rfl, rfl⟩

theorem AnswerAlike.run {store : Store σ} {store' : Store (Recorded σ)}
    (h : AnswerAlike store store') (cancelled : Bool) (step : Step) :
    Action.Agree (step.run store' fun _ => cancelled) (step.run store fun _ => cancelled) := by
  intro s
  cases cancelled with
  | true =>
    rw [Step.run_of_cancelled step rfl, Step.run_of_cancelled step rfl]
    exact ⟨rfl, rfl⟩
  | false =>
    obtain ⟨hresult, hstate⟩ := h.issue step s
    rw [Step.run_of_not_cancelled step rfl, Step.run_of_not_cancelled step rfl, Step.state_settle,
      Step.state_settle]
    exact ⟨Step.result_settle step hresult, hstate⟩

theorem AnswerAlike.advance {store : Store σ} {store' : Store (Recorded σ)}
    (h : AnswerAlike store store') (i : Input) (cancelled : Bool) (place : Nat) (stage : Stage)
    (s : Recorded σ) :
    (stage.advance store' cancelled i place s).1 = (stage.advance store cancelled i place s.1).1
      ∧ (stage.advance store' cancelled i place s).2.1
        = (stage.advance store cancelled i place s.1).2 := by
  cases stage with
  | refused => exact ⟨rfl, rfl⟩
  | begun =>
    simp only [Stage.advance]
    cases cancelled with
    | true => exact ⟨rfl, rfl⟩
    | false =>
      obtain ⟨hresult, hstate⟩ := h.list .terraform i.template.namespaceName
        (ownerSelector i.template.name) s
      cases desired i.template i.source i.pullRequests with
      | error e => exact ⟨rfl, rfl⟩
      | ok wanted =>
        simp only [Bool.false_eq_true, if_false, hresult]
        split
        · exact ⟨rfl, hstate⟩
        · exact ⟨rfl, hstate⟩
  | listing wanted ts =>
    obtain ⟨hresult, hstate⟩ := h.list .gitRepository i.template.namespaceName
      (ownerSelector i.template.name) s
    simp only [Stage.advance, hresult]
    split
    · exact ⟨rfl, hstate⟩
    · exact ⟨rfl, hstate⟩
  | applying plan units =>
    simp only [Stage.advance]
    cases units[place]? with
    | none => exact ⟨rfl, rfl⟩
    | some u =>
      simp only [UnitRun.advance]
      split
      · next step rest _ _ =>
        obtain ⟨hresult, hstate⟩ := h.run cancelled step s
        rw [hresult]
        exact ⟨rfl, hstate⟩
      · exact ⟨rfl, rfl⟩

/-- A run without the record. -/
def Run.unrecorded (r : Run (Recorded σ)) : Run σ := ⟨r.stage, r.cancelled, r.state.1⟩

/-- **A pass does not notice that its calls are recorded.** -/
theorem Run.unrecorded_after (store : Store σ) (i : Input) (r : Run (Recorded σ))
    (events : List Event) :
    (r.after store.recording i events).unrecorded = r.unrecorded.after store i events := by
  induction events generalizing r with
  | nil => rfl
  | cons e events ih =>
    rw [Run.after_cons, Run.after_cons, ih]
    refine congrArg (Run.after store i · events) ?_
    cases e with
    | cancel => rfl
    | turn place =>
      obtain ⟨hstage, hstate⟩ := (answerAlike_recording store).advance i r.cancelled place r.stage
        r.state
      simp only [Run.next, Run.unrecorded, hstage, hstate]
    | fault place e =>
      obtain ⟨hstage, hstate⟩ := (answerAlike_failing e).advance i r.cancelled place r.stage r.state
      simp only [Run.next, Run.unrecorded, hstage, hstate]

/-- What is recorded while a plan is applied is accounted for. -/
def Run.Audited (plan : Plan) (before : List Exchange) (r : Run (Recorded σ)) : Prop :=
  ∃ units calls, r.stage = .applying plan units
    ∧ r.state.2 = before ++ calls.map UnitCall.exchange
    ∧ Pass.Audited plan r.cancelled units calls

/-- **Every event keeps the record accounted for.** -/
theorem Run.Audited.next (store : Store σ) (i : Input) {before : List Exchange}
    {r : Run (Recorded σ)} (h : r.Audited plan before) {e : Event} (he : e.isFault = false) :
    (r.next store.recording i e).Audited plan before := by
  obtain ⟨stage, cancelled, s⟩ := r
  obtain ⟨units, calls, rfl, hrecord, haudited⟩ := h
  cases e with
  | fault => cases he
  | cancel => exact ⟨units, calls, rfl, hrecord, haudited.cancel⟩
  | turn place =>
    simp only [Run.next]
    rcases advance_at store.recording i cancelled plan units place s with
      ⟨hidle, -⟩ | ⟨u, step, rest, hu, hready, hnext, hadvance⟩
    · rw [hidle]
      exact ⟨units, calls, rfl, hrecord, haudited⟩
    · rw [hadvance]
      cases cancelled with
      | true =>
        rw [Step.run_of_cancelled step rfl]
        exact ⟨_, calls, rfl, hrecord, haudited.turn_of_cancelled hu hready hnext⟩
      | false =>
        rw [Step.run_of_not_cancelled step rfl, Step.issue_recording, Step.state_settle]
        refine ⟨_, _, rfl, ?_, haudited.turn hu hready hnext _⟩
        rw [List.map_append, ← List.append_assoc]
        exact congrArg (· ++ _) hrecord

/-- A pass is cancelled exactly if it was or there is a cancellation. -/
theorem Run.cancelled_after {store : Store σ} {i : Input} {r : Run σ} {events : List Event} :
    (r.after store i events).cancelled = true ↔ r.cancelled = true ∨ .cancel ∈ events := by
  induction events generalizing r with
  | nil => simp
  | cons e events ih =>
    rw [Run.after_cons, ih, List.mem_cons]
    cases e with
    | turn place => simp [Run.next]
    | fault place e => simp [Run.next]
    | cancel => simp [Run.next]

/-- **Once the pass is cancelled, nothing is issued** while the plan is applied. -/
theorem Run.state_of_cancelled (store : Store σ) (i : Input) (units : List UnitRun) (s : σ)
    (events : List Event) :
    (Run.after store i ⟨.applying plan units, true, s⟩ events).state = s := by
  suffices h : ∃ units', Run.after store i ⟨.applying plan units, true, s⟩ events
      = ⟨.applying plan units', true, s⟩ by
    obtain ⟨units', h⟩ := h
    rw [h]
  refine Run.after_induction (p := fun r => ∃ units', r = ⟨.applying plan units', true, s⟩)
    ⟨units, rfl⟩ fun r e _ ⟨units', hr⟩ => ?_
  have hadvance : ∀ (store : Store σ) (place : Nat), ∃ units'',
      Stage.advance store true i place (.applying plan units') s = (.applying plan units'', s) := by
    intro store place
    rcases advance_at store i true plan units' place s with
      ⟨hidle, -⟩ | ⟨u, step, rest, -, -, -, hmove⟩
    · exact ⟨_, hidle⟩
    · rw [Step.run_of_cancelled step rfl] at hmove
      exact ⟨_, hmove⟩
  subst hr
  cases e with
  | cancel => exact ⟨units', rfl⟩
  | turn place =>
    obtain ⟨units'', h⟩ := hadvance store place
    exact ⟨units'', by simp only [Run.next, h]⟩
  | fault place e =>
    obtain ⟨units'', h⟩ := hadvance (Store.failing e) place
    exact ⟨units'', by simp only [Run.next, h]⟩

theorem Run.audited_start (plan : Plan) (cancelled : Bool) (s : Recorded σ) :
    Run.Audited plan s.2 ⟨.applying plan (plan.changes.map .start), cancelled, s⟩ :=
  ⟨_, [], rfl, (List.append_nil _).symm, .start plan cancelled⟩

/-- **At every moment the record is accounted for.** -/
theorem Run.audited_after (store : Store σ) (i : Input) (plan : Plan) (s : σ)
    {events : List Event} (hfaultless : Faultless events) :
    (Run.after store.recording i ⟨.applying plan (plan.changes.map .start), false, s, []⟩
      events).Audited plan [] :=
  Run.after_induction (audited_start plan false (s, []))
    fun _ e he h => h.next store i (hfaultless e he)

/-! ## Units that come to their end -/

/-- The turn of the unit at a place, be it that its call is made to fail. -/
def Event.isTurnOf (place : Nat) : Event → Bool
  | turn p | fault p _ => p = place
  | cancel => false

/-- How many turns the unit at a place gets. -/
def turnsOf (place : Nat) (events : List Event) : Nat := events.countP (Event.isTurnOf place)

/-- A unit that is finished, or will be after so many turns. -/
def EndsWithin (n : Nat) (u : UnitRun) : Prop := u.isFinished = true ∨ u.remaining.length ≤ n

theorem EndsWithin.isFinished {u : UnitRun} (h : EndsWithin 0 u) : u.isFinished = true := by
  rcases h with hfinished | hle
  · exact hfinished
  · unfold UnitRun.isFinished
    rw [List.length_eq_zero_iff.mp (Nat.le_zero.mp hle)]
    exact Bool.or_true _

/-- A turn brings a unit nearer to its end. -/
theorem EndsWithin.after {n : Nat} {u : UnitRun} (h : EndsWithin (n + 1) u)
    (hready : u.failure = none) {step : Step} {rest : List Step}
    (hnext : u.remaining = step :: rest) (result : Except StoreError Unit) :
    EndsWithin n (u.after step rest result) := by
  cases result with
  | error e => exact .inl rfl
  | ok _ =>
    right
    refine Nat.le_of_succ_le_succ ?_
    rcases h with hfinished | hle
    · rw [remaining_of_isFinished hfinished hready] at hnext
      cases hnext
    · rwa [hnext] at hle

theorem endsWithin_advance (store : Store σ) (i : Input) (plan : Plan) (cancelled : Bool)
    {place p n : Nat} {u : UnitRun} (hu : units[place]? = some u) (s : σ)
    (h : EndsWithin (n + if p = place then 1 else 0) u) :
    ∃ units' u', ∃ s', Stage.advance store cancelled i p (.applying plan units) s
        = (.applying plan units', s') ∧ units'[place]? = some u' ∧ EndsWithin n u' := by
  rcases advance_at store i cancelled plan units p s with
    ⟨hidle, hfinished⟩ | ⟨v, step, rest, hv, hready, hnext, hadvance⟩
  · refine ⟨units, u, s, hidle, hu, ?_⟩
    by_cases hp : p = place
    · exact .inl (hfinished u (hp ▸ hu))
    · rwa [if_neg hp] at h
  · by_cases hp : p = place
    · subst hp
      cases hu.symm.trans hv
      rw [if_pos rfl] at h
      refine ⟨_, u.after step rest (step.run store (fun _ => cancelled) s).result, _, hadvance, ?_,
        h.after hready hnext _⟩
      exact List.getElem?_set_self (List.getElem?_eq_some_iff.mp hu).1
    · rw [if_neg hp] at h
      exact ⟨_, u, _, hadvance, (List.getElem?_set_ne hp).trans hu, h⟩

/-- **A unit that gets as many turns as it has steps is finished**, whatever else
happens. -/
theorem Run.endsWithin_after (store : Store σ) (i : Input) {cancelled : Bool} {place n : Nat}
    {u : UnitRun} (hu : units[place]? = some u) {s : σ} {events : List Event}
    (h : EndsWithin (n + turnsOf place events) u) :
    ∃ units' u', (Run.after store i ⟨.applying plan units, cancelled, s⟩ events).stage
        = .applying plan units' ∧ units'[place]? = some u' ∧ EndsWithin n u' := by
  induction events generalizing units u cancelled s with
  | nil => exact ⟨units, u, rfl, hu, h⟩
  | cons e events ih =>
    rw [turnsOf, List.countP_cons, ← Nat.add_assoc] at h
    rw [Run.after_cons]
    cases e with
    | cancel => exact ih hu h
    | turn p =>
      simp only [Event.isTurnOf, decide_eq_true_eq] at h
      obtain ⟨units', u', s', hadvance, hu', hends⟩ :=
        endsWithin_advance store i plan cancelled hu s h
      simp only [Run.next, hadvance]
      exact ih hu' hends
    | fault p e =>
      simp only [Event.isTurnOf, decide_eq_true_eq] at h
      obtain ⟨units', u', s', hadvance, hu', hends⟩ :=
        endsWithin_advance (Store.failing e) i plan cancelled hu s h
      simp only [Run.next, hadvance]
      exact ih hu' hends

/-! ## The report -/

/-- **A report is that of its calls.** It counts the calls that are done, and the failures
that it lists; it lists the failure of each unit that has one, in the order of the plan;
and its caller is told the number of units, how each unit has ended, in the order of the
plan, and that all have, unless there is none. -/
structure Reports (plan : Plan) (units : List UnitRun) (calls : List UnitCall)
    (report : ApplyReport) : Prop where
  counted : ∀ op, report.summary.count op = UnitCall.countDone op calls
  failed : report.summary.failed = report.failures.length
  failures : report.failures = units.filterMap UnitRun.failure
  progress : report.progress = if plan.changes = [] then []
    else .started plan.changes.length :: units.map UnitRun.progress ++ [.completed]

/-- **The report on units is that of the calls that account for them.** -/
theorem Audited.reports {calls : List UnitCall} (h : Audited plan cancelled units calls) :
    Reports plan units calls (.ofUnits units) where
  counted op := by
    rw [ApplyReport.sum_ofUnits (ApplySummary.count · op) (by cases op <;> rfl)
      fun s t => s.count_merge t op, ← h.counted op]
    refine congrArg List.sum (List.map_congr_left fun u _ => ?_)
    unfold UnitRun.finalSummary
    split
    · cases op <;> rfl
    · rfl
  failed := by
    rw [ApplyReport.sum_ofUnits ApplySummary.failed rfl fun _ _ => rfl, failures_ofUnits]
    have hunfailed := h.unfailed
    clear h
    induction units with
    | nil => rfl
    | cons u units ih =>
      rw [List.forall_mem_cons] at hunfailed
      rw [List.map_cons, List.sum_cons, ih hunfailed.2, List.filterMap_cons, UnitRun.finalSummary]
      cases u.failure with
      | none => rw [if_neg (by simp), hunfailed.1, Nat.zero_add]
      | some f => simp [hunfailed.1, Nat.add_comm]
  failures := failures_ofUnits units
  progress := by
    rw [← h.changes]
    cases units with
    | nil => rfl
    | cons u units => simp [ApplyReport.ofUnits]

/-- **The calls of a plan are accounted for**, whatever the store answers, in whatever
order the units get their turns, and whether the pass is cancelled or not. The store is
asked nothing but the calls that account for the units, and nothing at all once the pass
has been cancelled; a unit that gets as many turns as it has steps comes to its end; and
the report on the units is that of the calls. -/
theorem apply_audited (store : Store σ) (i : Input) (plan : Plan) (s : σ)
    {events : List Event} (hfaultless : Faultless events) :
    let first : Run (Recorded σ) := ⟨.applying plan (plan.changes.map .start), false, s, []⟩
    let r := Run.after store.recording i first events
    r.unrecorded = Run.after store i first.unrecorded events
      ∧ (r.cancelled = true ↔ .cancel ∈ events)
      ∧ (∀ before later, events = before ++ .cancel :: later →
        r.state = (Run.after store.recording i first before).state)
      ∧ ∃ units calls, r.stage = .applying plan units ∧ r.state.2 = calls.map UnitCall.exchange
        ∧ Audited plan r.cancelled units calls
        ∧ (∀ place u, units[place]? = some u → u.change.steps.length ≤ turnsOf place events →
          u.isFinished = true)
        ∧ Reports plan units calls (.ofUnits units) := by
  intro first r
  obtain ⟨units, calls, hstage, hrecord, haudited⟩ :=
    Run.audited_after store i plan s hfaultless
  refine ⟨Run.unrecorded_after .., ?_, fun before later hevents => ?_, units, calls, hstage,
    hrecord, haudited, fun place u hu hturns => ?_, haudited.reports⟩
  · exact Run.cancelled_after.trans (or_iff_right Bool.false_ne_true)
  · subst hevents
    obtain ⟨units', _, hstage', -⟩ := Run.audited_after store i plan s
      fun e he => hfaultless e (List.mem_append_left (_ :: later) he)
    refine (congrArg Run.state (Run.after_append ..)).trans ?_
    generalize Run.after store.recording i first before = r' at hstage' ⊢
    obtain ⟨stage, cancelled, s'⟩ := r'
    obtain rfl : stage = .applying plan units' := hstage'
    exact Run.state_of_cancelled store.recording i units' s' later
  · have hchange : some u.change = plan.changes[place]? := by
      rw [← haudited.changes, List.getElem?_map, hu]
      rfl
    have hstart : (plan.changes.map UnitRun.start)[place]? = some (.start u.change) := by
      rw [List.getElem?_map, ← hchange]
      rfl
    obtain ⟨units', u', hstage', hu', hends⟩ := Run.endsWithin_after store.recording i hstart
      (n := 0) (.inr (Nat.le_trans hturns (Nat.le_add_left _ _)))
    cases hstage.symm.trans hstage'
    cases hu.symm.trans hu'
    exact hends.isFinished

theorem Run.LeadsTo.exists_faultless {store : Store σ} {flag : σ → Bool} {r r' : Run σ}
    (h : Run.LeadsTo store i flag r r') :
    ∃ events, Faultless events ∧ r.after store i events = r' := by
  obtain ⟨events, hevents, h⟩ := h
  refine ⟨events, fun e he => ?_, h⟩
  have hallowed := hevents e he
  cases e with
  | turn | cancel => rfl
  | fault => exact hallowed.elim

/-- The same of units that run one after the other, under any flag. -/
theorem audited_of_apply (store : Store σ) (plan : Plan) (flag : Recorded σ → Bool) (s : σ) :
    let applied := plan.apply store.recording flag (s, [])
    ∃ units calls cancelled, applied.2.1.2 = calls.map UnitCall.exchange
      ∧ Audited plan cancelled units calls ∧ (∀ u ∈ units, u.isFinished = true)
      ∧ Reports plan units calls applied.1 := by
  intro applied
  -- a plan is applied without regard to the inputs of its pass, so any will do
  obtain ⟨units, cancelled, hleads, hreport, hfinished⟩ :=
    leadsTo_apply store.recording sampleInput plan flag (s, [])
  obtain ⟨events, hfaultless, hrun⟩ := hleads.exists_faultless
  obtain ⟨units', calls, hstage, hrecord, haudited⟩ :=
    Run.audited_after store sampleInput plan s hfaultless
  rw [hrun] at hstage hrecord haudited
  cases hstage
  exact ⟨units, calls, cancelled, hrecord, haudited, hfinished, hreport ▸ haudited.reports⟩

/-- One unit deletes a source, the other creates it and deletes it. -/
def tidyingPlan : Plan where
  changes :=
    [⟨none, [.delete plainSource.key]⟩,
      ⟨none, [.create .gitRepository plainSource, .delete plainSource.key]⟩]

/-- The first deletion finds nothing and counts as done; the second unit is cut off before
its last step. -/
theorem apply_audited_when_cut_off :
    let first : Run (Recorded Memory) :=
      ⟨.applying tidyingPlan (tidyingPlan.changes.map .start), false, {}, []⟩
    let r := Run.after (Memory.store stoppedClock).recording sampleInput first
      [.turn 0, .turn 1, .cancel, .turn 1]
    ∃ units calls, r.stage = .applying tidyingPlan units
      ∧ r.state.2 = calls.map UnitCall.exchange
      ∧ Audited tidyingPlan r.cancelled units calls
      ∧ Reports tidyingPlan units calls (.ofUnits units)
      ∧ (ApplyReport.ofUnits units).summary = { created := 1, deleted := 1, failed := 1 } := by
  intro first r
  have hfaultless : Faultless [.turn 0, .turn 1, .cancel, .turn 1] := by
    unfold Faultless
    decide
  obtain ⟨-, -, -, units, calls, hstage, hrecord, haudited, -, hreports⟩ :=
    apply_audited (Memory.store stoppedClock) sampleInput tidyingPlan {} hfaultless
  refine ⟨units, calls, hstage, hrecord, haudited, hreports, ?_⟩
  have hsummary : r.stage.report.summary = { created := 1, deleted := 1, failed := 1 } := by
    decide +kernel
  rw [show r.stage = _ from hstage] at hsummary
  exact hsummary

end Pass

end PlanSync
