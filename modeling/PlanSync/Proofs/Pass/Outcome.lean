import PlanSync.Proofs.Pass.Accounting
import PlanSync.Proofs.Pass.Entry

/-!
# What the outcome of a pass tells

Whatever the store answers, in whatever order the calls of a pass come, and whenever it is
cancelled, its outcome can be relied on (`Pass.outcome_told`). If it is an error that lists
no failures, nothing was written. If it is no error, every step of the plan is done and no
pull request was skipped. If it is an error that lists failures, it lists one for each
unit that failed and one for each pull request that was skipped, in the order of the
branches.

The order is not for the eye only. Which branches have failed is read off the list by
dropping those that equal the one before them, and only because the list is in order is
each branch named once (`ApplyFailures.pairwise_branchIds`).
-/

namespace PlanSync

/-! ## The order of failures -/

/-- **The order of branches**: by id, and what is of no branch comes last. -/
def BranchId.UpTo : Option BranchId → Option BranchId → Prop
  | some x, some y => x ≤ y
  | none, some _ => False
  | _, none => True

theorem Pass.failureOrder_iff {a b : ApplyFailure} :
    failureOrder a b = true ↔ BranchId.UpTo a.branchId b.branchId := by
  unfold failureOrder BranchId.UpTo
  split <;> simp_all

theorem BranchId.UpTo.trans {a b c : Option BranchId} (h : UpTo a b) (h' : UpTo b c) :
    UpTo a c := by
  cases a <;> cases b <;> cases c <;>
    first | trivial | exact h.elim | exact h'.elim | exact Std.le_trans h h'

theorem BranchId.UpTo.total (a b : Option BranchId) : UpTo a b ∨ UpTo b a := by
  cases a <;> cases b <;> first | exact .inl trivial | exact .inr trivial | exact Std.le_total

/-- Failures are in order once they are sorted. -/
theorem Pass.pairwise_sorted (failures : ApplyFailures) :
    (failures.mergeSort failureOrder).Pairwise fun a b => BranchId.UpTo a.branchId b.branchId := by
  refine (List.pairwise_mergeSort (fun a b c hab hbc => ?_) (fun a b => ?_) failures).imp
    failureOrder_iff.mp
  · exact failureOrder_iff.mpr ((failureOrder_iff.mp hab).trans (failureOrder_iff.mp hbc))
  · rw [Bool.or_eq_true, failureOrder_iff, failureOrder_iff]
    exact BranchId.UpTo.total a.branchId b.branchId

/-- **The changes of a plan are in order.** -/
theorem Plan.pairwise_changes (wanted : DesiredState) (owned : OwnedObjects) :
    (compute wanted owned).changes.Pairwise fun a b => BranchId.UpTo a.branchId b.branchId := by
  rw [changes_eq, branchChanges, List.pairwise_append, List.pairwise_map, List.pairwise_map]
  refine ⟨pairwise_mergeSort_by Prod.fst _, List.pairwise_of_forall fun _ _ => trivial,
    fun a _ b hb => ?_⟩
  obtain ⟨key, -, rfl⟩ := List.mem_map.mp hb
  cases a.branchId <;> trivial

namespace ApplyFailures

theorem mem_dropRepeats {α : Type} [DecidableEq α] {x : α} {xs : List α} :
    x ∈ dropRepeats xs ↔ x ∈ xs := by
  induction xs using dropRepeats.induct with
  | case1 => rfl
  | case2 a => rfl
  | case3 a rest ih =>
    rw [dropRepeats, if_pos rfl, ih]
    simp
  | case4 a b rest hne ih =>
    rw [dropRepeats, if_neg hne, List.mem_cons, ih]
    exact List.mem_cons.symm

/-- **Of ids in order, each is left once.** -/
theorem pairwise_dropRepeats {ids : List BranchId} (h : ids.Pairwise (· ≤ ·)) :
    (dropRepeats ids).Pairwise (· < ·) := by
  induction ids using dropRepeats.induct with
  | case1 => exact .nil
  | case2 a => exact List.pairwise_singleton _ a
  | case3 a rest ih =>
    rw [dropRepeats, if_pos rfl]
    exact ih h.of_cons
  | case4 a b rest hne ih =>
    rw [dropRepeats, if_neg hne]
    refine List.pairwise_cons.mpr ⟨fun c hc => ?_, ih h.of_cons⟩
    -- the first id is not the second, and all others come after that
    have hlt : a < b :=
      Std.lt_of_le_of_ne (List.rel_of_pairwise_cons h List.mem_cons_self) hne
    rcases List.mem_cons.mp (mem_dropRepeats.mp hc) with rfl | hc
    · exact hlt
    · exact Std.lt_of_lt_of_le hlt (List.rel_of_pairwise_cons h.of_cons hc)

variable {failures : ApplyFailures}

/-- **The branches that are named are those with a failure.** -/
theorem mem_branchIds {id : BranchId} :
    id ∈ failures.branchIds ↔ ∃ f ∈ failures, f.branchId = some id := by
  rw [branchIds, mem_dropRepeats, List.mem_filterMap]

/-- **Of failures in order, each branch is named once**, and in order. -/
theorem pairwise_branchIds
    (h : failures.Pairwise fun a b => BranchId.UpTo a.branchId b.branchId) :
    failures.branchIds.Pairwise (· < ·) := by
  refine pairwise_dropRepeats (List.pairwise_filterMap.mpr (h.imp fun hab x hx y hy => ?_))
  rw [hx, hy] at hab
  exact hab

end ApplyFailures

/-! ## Skipped pull requests -/

/-- Why a pull request is skipped: it targets the tracked branch and has a derived name that
is not valid. -/
def Pass.Input.skipped? (i : Input) (pr : PullRequest) : Option Skipped :=
  if i.source.trackedBranch = some pr.baseBranch then
    (DesiredState.badName? i.template i.source pr.branchId).map (Skipped.mk pr.branchId)
  else none

/-- **What is skipped**, one for one and in the order of the pull requests. -/
theorem Pass.Input.skipped_eq {i : Input} {wanted : DesiredState} (h : i.derive? = some wanted) :
    wanted.skipped = i.pullRequests.filterMap i.skipped? := by
  obtain ⟨tracked, htracked, rfl⟩ := derive?_eq h
  rw [DesiredState.foldl_record]
  show [] ++ _ = _
  rw [List.nil_append, List.filterMap_map]
  refine congrArg (List.filterMap · _) (funext fun pr => ?_)
  simp only [Function.comp_apply, DesiredState.verdict, skipped?, htracked, Option.some.injEq,
    ne_eq, ite_not, eq_comm (a := tracked)]
  split
  · cases DesiredState.badName? i.template i.source pr.branchId <;> rfl
  · rfl

namespace Pass

variable {σ : Type} {i : Input} {plan : Plan} {units : List UnitRun} {cancelled : Bool}

/-! ## What is recorded of a pass -/

/-- **Nothing is written**: the store is only asked for objects and listings. -/
def LooksOnly (record : List Exchange) : Prop := ∀ x ∈ record, x.request.target? = none

/-- **What is recorded of a pass**, at every moment. Until the plan is made, nothing is
written; from then on, what is recorded is accounted for. -/
inductive Run.Watched (i : Input) : Run (Recorded σ) → Prop
  | begun (cancelled : Bool) {s : Recorded σ} (hlooks : LooksOnly s.2) :
    Watched i ⟨.begun, cancelled, s⟩
  | listing {wanted : DesiredState} (ts : List Terraform) (cancelled : Bool) {s : Recorded σ}
      (hwanted : i.derive? = some wanted) (hlooks : LooksOnly s.2) :
    Watched i ⟨.listing wanted ts, cancelled, s⟩
  | refused {cause : PassError} (cancelled : Bool) {s : Recorded σ}
      (hcause : ∀ failures, cause ≠ .apply failures) (hlooks : LooksOnly s.2) :
    Watched i ⟨.refused cause, cancelled, s⟩
  | applying {wanted : DesiredState} {owned : OwnedObjects} {before : List Exchange}
      {r : Run (Recorded σ)} (hwanted : i.derive? = some wanted) (hlooks : LooksOnly before)
      (h : r.Audited (.compute wanted owned) before) : Watched i r

theorem LooksOnly.list {record : List Exchange} (h : LooksOnly record) (k : Kind)
    (namespaceName : String) (selector : Selector) (error : Option StoreError) :
    LooksOnly (record ++ [⟨.list k namespaceName selector, error⟩]) :=
  List.forall_mem_append.mpr ⟨h, List.forall_mem_singleton.mpr rfl⟩

/-- **Every event leaves a pass watched.** -/
theorem Run.Watched.next (store : Store σ) {r : Run (Recorded σ)} (h : r.Watched i) {e : Event}
    (he : e.isFault = false) : (r.next store.recording i e).Watched i := by
  cases h with
  | applying hwanted hlooks h => exact .applying hwanted hlooks (h.next store i he)
  | @refused cause cancelled s hcause hlooks =>
    cases e with
    | fault => cases he
    | cancel => exact .refused true hcause hlooks
    | turn place => exact .refused cancelled hcause hlooks
  | @begun cancelled s hlooks =>
    cases e with
    | fault => cases he
    | cancel => exact .begun true hlooks
    | turn place =>
      simp only [Run.next]
      rcases advance_begun store.recording i cancelled place s with
        ⟨cause, s', hadvance, hcause, hstate, -⟩ | ⟨wanted, ts, hadvance, hwanted, -⟩
      · rw [hadvance]
        refine .refused cancelled hcause ?_
        rcases hstate with rfl | rfl
        · exact hlooks
        · exact hlooks.list _ _ _ _
      · rw [hadvance]
        exact .listing ts cancelled hwanted (hlooks.list _ _ _ _)
  | @listing wanted ts cancelled s hwanted hlooks =>
    cases e with
    | fault => cases he
    | cancel => exact .listing ts true hwanted hlooks
    | turn place =>
      simp only [Run.next]
      rcases advance_listing store.recording i cancelled place wanted ts s with
        ⟨e, hadvance, -⟩ | ⟨ss, hadvance, -⟩
      · rw [hadvance]
        exact .refused cancelled (fun _ h => by cases h) (hlooks.list _ _ _ _)
      · rw [hadvance]
        exact .applying hwanted (hlooks.list _ _ _ _) (audited_start _ cancelled _)

/-! ## Failures in order -/

/-- The failure of a unit is one of its branch. -/
theorem Account.branchId_failure {u : UnitRun} {calls : List UnitCall}
    (h : Account cancelled u calls) {f : ApplyFailure} (hf : u.failure = some f) :
    f.branchId = u.change.branchId := by
  cases h with
  | underway _ _ hfailure => cases hfailure.symm.trans hf
  | stopped _ _ _ _ _ hfailure | cutOff _ _ _ hfailure =>
    cases hfailure.symm.trans hf
    rfl

namespace Audited

variable {calls : List UnitCall}

theorem of_mem (h : Audited plan cancelled units calls) {u : UnitRun} (hu : u ∈ units) :
    ∃ place, units[place]? = some u ∧ Account cancelled u (UnitCall.issuedBy place calls) := by
  obtain ⟨place, hplace⟩ := List.mem_iff_getElem?.mp hu
  exact ⟨place, hplace, h.account place u hplace⟩

/-- **The failures of units are in order**, for the changes of a plan are. -/
theorem pairwise_failures {wanted : DesiredState} {owned : OwnedObjects}
    (h : Audited (.compute wanted owned) cancelled units calls) :
    (units.filterMap UnitRun.failure).Pairwise
      fun a b => BranchId.UpTo a.branchId b.branchId := by
  have hchanges := Plan.pairwise_changes wanted owned
  rw [← h.changes, List.pairwise_map] at hchanges
  refine List.pairwise_filterMap.mpr (hchanges.imp_of_mem fun hu hv huv f hf g hg => ?_)
  obtain ⟨_, -, haccount⟩ := h.of_mem hu
  obtain ⟨_, -, haccount'⟩ := h.of_mem hv
  rw [haccount.branchId_failure hf, haccount'.branchId_failure hg]
  exact huv

/-- **If no unit has failed and all are finished, everything is done**: every call, and with
the calls of a unit all its steps. -/
theorem all_done (h : Audited plan cancelled units calls)
    (hfinished : ∀ u ∈ units, u.isFinished = true) (hnone : units.filterMap UnitRun.failure = []) :
    (∀ c ∈ calls, c.Done) ∧ ∀ place u, units[place]? = some u →
      (UnitCall.issuedBy place calls).map UnitCall.step = u.change.steps := by
  have hready : ∀ place (u : UnitRun), units[place]? = some u → u.failure = none := fun _ u hu =>
    List.filterMap_eq_nil_iff.mp hnone u (List.mem_of_getElem? hu)
  refine ⟨fun c hc => ?_, fun place u hu => ?_⟩
  · obtain ⟨u, hu⟩ : ∃ u, units[c.place]? = some u :=
      ⟨_, List.getElem?_eq_getElem (h.placed c hc)⟩
    refine ((h.account c.place u hu).of_ready (hready c.place u hu)).1 c ?_
    exact List.mem_filter.mpr ⟨hc, decide_eq_true rfl⟩
  · have hsteps := ((h.account place u hu).of_ready (hready place u hu)).2
    rwa [remaining_of_isFinished (hfinished u (List.mem_of_getElem? hu)) (hready place u hu),
      List.append_nil] at hsteps

end Audited

/-- Failures stay in order when those of skipped pull requests are added. -/
theorem pairwise_addSkipped (template : Terraform) (skipped : List Skipped) (report : ApplyReport)
    (h : report.failures.Pairwise fun a b => BranchId.UpTo a.branchId b.branchId) :
    (addSkipped template skipped report).failures.Pairwise
      fun a b => BranchId.UpTo a.branchId b.branchId := by
  unfold addSkipped
  split
  · exact h
  · exact pairwise_sorted _

/-! ## The end of a call -/

/-- **The end of a call**: the inputs of the pass, if they were found, the stage to which it
came, whether it was cancelled on the way, its outcome, and the state it leaves. -/
structure Ending (σ : Type) where
  inputs : Option Input := none
  stage : Stage
  cancelled : Bool := false
  outcome : Except PassError ApplySummary
  state : σ

/-- **What comes of looked up inputs** after a list of events, if the pass has come to its
end by then. -/
def Ending.of? (store : Store σ) (found : Outcome σ PassError Input) (events : List Event) :
    Option (Ending σ) :=
  match found.result with
  | .error e => some { stage := .refused e, outcome := .error e, state := found.state }
  | .ok i =>
    let r := Run.after store i { state := found.state } events
    (r.stage.result? i).map fun outcome =>
      { inputs := some i, stage := r.stage, cancelled := r.cancelled, outcome, state := r.state }

/-- A call that has come to its end after a list of events. -/
def Entry.ending? (store : Store σ) (entry : Entry) (s : σ) (events : List Event) :
    Option (Ending σ) := Ending.of? store (entry.inputs store s) events

/-- An end without the record. -/
def Ending.unrecorded (e : Ending (Recorded σ)) : Ending σ :=
  ⟨e.inputs, e.stage, e.cancelled, e.outcome, e.state.1⟩

theorem Entry.agree_inputs (store : Store σ) (entry : Entry) :
    Action.Agree (entry.inputs store.recording) (entry.inputs store) := by
  cases entry with
  | reconcile i => exact Action.agree_done i
  | poll policy provider namespaceName name =>
    have hget := fun k ns n =>
      (agree_recorded (.get ⟨k, ns, n⟩) (store.get k ns n)).mapError PassError.ofStore
    refine Action.Agree.bind ((hget .terraform namespaceName name).bind fun template =>
      (Action.agree_ofExcept _).bind fun (ns, n) => (hget .gitRepository ns n).bind fun source =>
        Action.agree_done (template, source)) fun (template, source) => ?_
    exact (Action.Agree.of_leaves (leaves_pullRequests provider source)
      (leaves_pullRequests provider source)).bind fun prs => Action.agree_done _

/-- **A call does not notice that what it asks of the store is recorded.** -/
theorem Entry.unrecorded_ending? (store : Store σ) (entry : Entry) (s : Recorded σ)
    (events : List Event) :
    (entry.ending? store.recording s events).map Ending.unrecorded
      = entry.ending? store s.1 events := by
  obtain ⟨hresult, hstate⟩ := entry.agree_inputs store s
  unfold ending?
  generalize entry.inputs store.recording s = found' at *
  generalize entry.inputs store s.1 = found at *
  simp only [Ending.of?, hresult, ← hstate]
  cases found.result with
  | error e => rfl
  | ok i =>
    have hrun := Run.unrecorded_after store i { state := found'.state } events
    simp only [Run.unrecorded] at hrun
    simp only [← hrun, Option.map_map]
    rfl

/-- **The units of a plan were applied**, and their calls are what is recorded after the
plan was made. -/
structure Ending.Applied (e : Ending (Recorded σ)) (i : Input) (wanted : DesiredState)
    (owned : OwnedObjects) (units : List UnitRun) (calls : List UnitCall) : Prop where
  inputs : e.inputs = some i
  derived : i.derive? = some wanted
  skipped : wanted.skipped = i.pullRequests.filterMap i.skipped?
  stage : e.stage = .applying (.compute wanted owned) units
  record : ∃ before, LooksOnly before ∧ e.state.2 = before ++ calls.map UnitCall.exchange
  audited : Audited (.compute wanted owned) e.cancelled units calls
  finished : ∀ u ∈ units, u.isFinished = true

/-- An error that may be gone in another pass. -/
def IsPassing : StoreError → Prop
  | .conflict .. | .transient _ | .cancelled => True
  | _ => False

theorem isRetryable_iff (error : StoreError) : error.isRetryable = true ↔ IsPassing error := by
  cases error <;> simp [StoreError.isRetryable, StoreError.category, ErrorCategory.isRetryable,
    IsPassing]

/-- Another pass is worth while exactly if all failures may be gone in it. -/
theorem isRetryable_apply_iff {failures : ApplyFailures} :
    (PassError.apply failures).isRetryable = true ↔ ∀ f ∈ failures, IsPassing f.error := by
  have hall : failures.isRetryable = true ↔ ∀ f ∈ failures, IsPassing f.error :=
    List.all_eq_true.trans (forall₂_congr fun f _ => isRetryable_iff f.error)
  rw [← hall, PassError.isRetryable, PassError.category]
  cases failures.isRetryable <;> decide

/-- **What an outcome tells.** An error that lists no failures says that nothing was written,
and that nobody was told of any progress. A summary says that all steps of all units are
done and that no pull request was skipped. A list of failures has one for each unit that
failed and one for each pull request that was skipped; it is in order, each of its branches
is named once, and another pass is worth while exactly if all its errors may pass. -/
structure Told (e : Ending (Recorded σ)) : Prop where
  refused : ∀ cause, e.outcome = .error cause → (∀ failures, cause ≠ .apply failures) →
    LooksOnly e.state.2 ∧ e.stage.progress = []
  ok : ∀ summary, e.outcome = .ok summary → ∃ i wanted owned units calls,
    e.Applied i wanted owned units calls ∧ summary.failed = 0 ∧ wanted.skipped = []
      ∧ (∀ c ∈ calls, c.Done)
      ∧ ∀ place u, units[place]? = some u →
        (UnitCall.issuedBy place calls).map UnitCall.step = u.change.steps
  failed : ∀ failures, e.outcome = .error (.apply failures) → ∃ i wanted owned units calls,
    e.Applied i wanted owned units calls ∧ failures ≠ []
      ∧ failures.Perm (units.filterMap UnitRun.failure
          ++ wanted.skipped.map (skippedFailure i.template))
      ∧ (failures.Pairwise fun a b => BranchId.UpTo a.branchId b.branchId)
      ∧ failures.branchIds.Pairwise (· < ·)
      ∧ (∀ id, id ∈ failures.branchIds ↔ ∃ f ∈ failures, f.branchId = some id)
      ∧ ((PassError.apply failures).isRetryable = true ↔ ∀ f ∈ failures, IsPassing f.error)
      ∧ (wanted.skipped ≠ [] → (PassError.apply failures).isRetryable = false)

/-- A call that is refused tells that nothing was written. -/
theorem told_of_refused {e : Ending (Recorded σ)} {cause : PassError}
    (houtcome : e.outcome = .error cause) (hcause : ∀ failures, cause ≠ .apply failures)
    (hlooks : LooksOnly e.state.2) (hprogress : e.stage.progress = []) : Told e where
  refused _ _ _ := ⟨hlooks, hprogress⟩
  ok _ h := by cases houtcome.symm.trans h
  failed failures h := absurd (Except.error.inj (houtcome.symm.trans h)) (hcause failures)

namespace Ending.Applied

variable {e : Ending (Recorded σ)} {wanted : DesiredState} {owned : OwnedObjects}
  {calls : List UnitCall}

/-- If nothing has failed, everything is done. -/
theorem told_of_ok (h : e.Applied i wanted owned units calls)
    (hunits : units.filterMap UnitRun.failure = []) (hskipped : wanted.skipped = [])
    (hok : e.outcome = .ok (ApplyReport.ofUnits units).summary) : Told e where
  refused _ h' _ := by cases hok.symm.trans h'
  failed _ h' := by cases hok.symm.trans h'
  ok summary h' := by
    obtain rfl := Except.ok.inj (hok.symm.trans h')
    refine ⟨i, wanted, owned, units, calls, h, ?_, hskipped,
      h.audited.all_done h.finished hunits⟩
    rw [h.audited.reports.failed, h.audited.reports.failures, hunits, List.length_nil]

/-- Failures in order tell which branches have failed, and whether to try again. -/
theorem told_of_failures (h : e.Applied i wanted owned units calls) {failures : ApplyFailures}
    (herror : e.outcome = .error (.apply failures)) (hne : failures ≠ [])
    (hperm : failures.Perm (units.filterMap UnitRun.failure
      ++ wanted.skipped.map (skippedFailure i.template)))
    (hsorted : failures.Pairwise fun a b => BranchId.UpTo a.branchId b.branchId) : Told e where
  refused cause h' hcause := absurd (Except.error.inj (herror.symm.trans h')).symm (hcause failures)
  ok _ h' := by cases herror.symm.trans h'
  failed _ h' := by
    cases herror.symm.trans h'
    refine ⟨i, wanted, owned, units, calls, h, hne, hperm, hsorted,
      ApplyFailures.pairwise_branchIds hsorted, fun _ => ApplyFailures.mem_branchIds,
      isRetryable_apply_iff, fun hskipped => ?_⟩
    -- what is skipped is invalid, and stays so
    obtain ⟨why, hwhy⟩ := List.exists_mem_of_ne_nil _ hskipped
    refine Bool.eq_false_iff.mpr fun hretryable => ?_
    exact isRetryable_apply_iff.mp hretryable _
      (hperm.mem_iff.mpr (List.mem_append_right _ (List.mem_map_of_mem hwhy)))

/-- **Calls that have applied a plan tell what has failed.** -/
theorem told (h : e.Applied i wanted owned units calls)
    (houtcome : resultOf (addSkipped i.template wanted.skipped (.ofUnits units)) = e.outcome) :
    Told e := by
  have hperm := failures_addSkipped_perm i.template wanted.skipped (.ofUnits units)
  rw [failures_ofUnits] at hperm
  rcases resultOf_cases (addSkipped i.template wanted.skipped (.ofUnits units)) with
    ⟨hok, hempty⟩ | ⟨herror, hne⟩
  · rw [hempty] at hperm
    obtain ⟨hunits, hskipped⟩ := List.append_eq_nil_iff.mp hperm.nil_eq.symm
    rw [List.map_eq_nil_iff] at hskipped
    rw [houtcome, hskipped] at hok
    exact h.told_of_ok hunits hskipped hok
  · have hunits := h.audited.pairwise_failures
    rw [← failures_ofUnits] at hunits
    exact h.told_of_failures (houtcome.symm.trans herror) hne hperm
      (pairwise_addSkipped i.template wanted.skipped _ hunits)

end Ending.Applied

/-- **A pass that has come to its end tells what it did.** -/
theorem Run.Watched.told {r : Run (Recorded σ)} (h : r.Watched i)
    {outcome : Except PassError ApplySummary} (hend : r.stage.result? i = some outcome) :
    Told { inputs := some i, stage := r.stage, cancelled := r.cancelled, outcome, state := r.state }
    := by
  cases h with
  | begun | listing => cases hend
  | refused _ hcause hlooks =>
    cases hend
    exact told_of_refused rfl hcause hlooks rfl
  | @applying wanted owned before _ hwanted hlooks h =>
    obtain ⟨stage, cancelled, s⟩ := r
    obtain ⟨units, calls, rfl, hrecord, haudited⟩ := h
    obtain ⟨hfinished, houtcome⟩ := result?_applying_eq hend
    exact Ending.Applied.told ⟨rfl, hwanted, Input.skipped_eq hwanted, rfl,
      ⟨before, hlooks, hrecord⟩, haudited, hfinished⟩ houtcome

/-- What is recorded while inputs are looked for is no more than that. -/
theorem Entry.looksOnly (store : Store σ) (entry : Entry) (s : σ) :
    LooksOnly (entry.inputs store.recording (s, [])).state.2 := by
  cases entry with
  | reconcile i => exact fun _ hx => by cases hx
  | poll policy provider namespaceName name =>
    obtain ⟨asked, hstate, hlooked⟩ :=
      lookedUp_inputs store policy provider namespaceName name (s, [])
    rw [hstate]
    intro x hx
    obtain ⟨key, hkey⟩ := hlooked.gets x hx
    rw [hkey]
    rfl

/-- A pass that does not get its inputs lists no failures. -/
theorem Entry.ne_apply (store : Store σ) (entry : Entry) (s : σ) {cause : PassError}
    (h : (entry.inputs store.recording (s, [])).result = .error cause)
    (failures : ApplyFailures) : cause ≠ .apply failures := by
  cases entry with
  | reconcile i => cases h
  | poll policy provider namespaceName name =>
    obtain ⟨asked, -, hlooked⟩ :=
      lookedUp_inputs store policy provider namespaceName name (s, [])
    exact (h ▸ hlooked).ne_apply failures

/-- **Every call comes to one of these ends**, under any flag. -/
theorem Entry.exists_ending (store : Store σ) (entry : Entry) (flag : σ → Bool) (s : σ) :
    let called := entry.call store flag s
    ∃ events e, Faultless events ∧ entry.ending? store s events = some e
      ∧ e.outcome = called.1.outcome ∧ e.stage.progress = called.1.progress
      ∧ e.state = called.2.1 := by
  intro called
  rcases entry.call_cases store flag s with
    ⟨cause, hfound, hcalled, hstate⟩ | ⟨i, hfound, hcalled, hstate⟩
  · refine ⟨[], _, fun _ he => (by cases he), by rw [ending?, Ending.of?, hfound], ?_⟩
    rw [hcalled, hstate]
    exact ⟨rfl, rfl, rfl⟩
  · obtain ⟨r, hleads, hleft, hresult, hprogress⟩ :=
      leadsTo_reconcile store i flag (entry.inputs store s).state
    obtain ⟨events, hfaultless, hrun⟩ := hleads.exists_faultless
    refine ⟨events,
      { inputs := some i, stage := r.stage, cancelled := r.cancelled, outcome := called.1.outcome,
        state := r.state }, hfaultless, ?_, rfl, ?_⟩
    · simp only [ending?, Ending.of?, hfound, hrun, hresult, Option.map_some, called, hcalled]
    · rw [hcalled, hstate]
      exact ⟨hprogress, hleft⟩

/-- **The outcome of a pass can be relied on**, whatever the store answers, in whatever order
the units get their turns, and whenever the pass is cancelled. -/
theorem outcome_told (store : Store σ) (entry : Entry) (s : σ) :
    (∀ events, (entry.ending? store.recording (s, []) events).map Ending.unrecorded
        = entry.ending? store s events)
      ∧ (∀ events, Faultless events → ∀ e,
        entry.ending? store.recording (s, []) events = some e → Told e)
      ∧ ∀ flag, ∃ e, Told e ∧ e.outcome = (entry.call store.recording flag (s, [])).1.outcome
        ∧ e.stage.progress = (entry.call store.recording flag (s, [])).1.progress
        ∧ e.state = (entry.call store.recording flag (s, [])).2.1 := by
  have htold : ∀ events, Faultless events → ∀ e,
      entry.ending? store.recording (s, []) events = some e → Told e := by
    intro events hfaultless e h
    have hlooks := entry.looksOnly store s
    unfold Entry.ending? Ending.of? at h
    cases hfound : (entry.inputs store.recording (s, [])).result with
    | error cause =>
      simp only [hfound, Option.some.injEq] at h
      subst h
      exact told_of_refused rfl (entry.ne_apply store s hfound) hlooks rfl
    | ok i =>
      simp only [hfound, Option.map_eq_some_iff] at h
      obtain ⟨outcome, hend, rfl⟩ := h
      refine Run.Watched.told (Run.after_induction (.begun false hlooks) fun r e he h => ?_) hend
      exact h.next store (hfaultless e he)
  refine ⟨entry.unrecorded_ending? store (s, []), htold, fun flag => ?_⟩
  obtain ⟨events, e, hfaultless, hending, hcalled⟩ :=
    entry.exists_ending store.recording flag (s, [])
  exact ⟨e, htold events hfaultless e hending, hcalled⟩

/-- The sample with a source from which no valid name can be derived. -/
def capitalInput : Input :=
  { sampleInput with
    source :=
      { metadata := { name := "Repo", namespaceName := "team" }
        spec := sampleInput.source.spec } }

/-- The failures that an outcome lists. -/
def listed : Except PassError ApplySummary → Option ApplyFailures
  | .error (.apply failures) => some failures
  | _ => none

theorem listed_eq_some_iff {outcome : Except PassError ApplySummary} {failures : ApplyFailures} :
    listed outcome = some failures ↔ outcome = .error (.apply failures) := by
  unfold listed
  split
  · next failures' => simp
  · next hother =>
    exact ⟨(fun h => by cases h), fun h => absurd h (hother failures)⟩

/-- The stray is deleted, but the pull request is skipped. -/
theorem outcome_told_when_skipped :
    ∃ e, (Entry.reconcile capitalInput).ending? (Memory.store stoppedClock).recording
        (strayedMemory, []) [.turn 0, .turn 0, .turn 0] = some e
      ∧ Told e ∧ ∃ failures, e.outcome = .error (.apply failures)
        ∧ failures.map ApplyFailure.branchId = [some ⟨"topic-7"⟩] := by
  have hfailures : ((Entry.reconcile capitalInput).ending? (Memory.store stoppedClock).recording
      (strayedMemory, []) [.turn 0, .turn 0, .turn 0]).map (fun e =>
        (listed e.outcome).map (List.map ApplyFailure.branchId))
      = some (some [some ⟨"topic-7"⟩]) := by
    decide +kernel
  obtain ⟨e, hending, hfailures⟩ := Option.map_eq_some_iff.mp hfailures
  have hfaultless : Faultless [.turn 0, .turn 0, .turn 0] := by
    unfold Faultless
    decide
  refine ⟨e, hending, (outcome_told _ _ _).2.1 _ hfaultless e hending, ?_⟩
  obtain ⟨failures, hlisted, hfailures⟩ := Option.map_eq_some_iff.mp hfailures
  exact ⟨failures, listed_eq_some_iff.mp hlisted, hfailures⟩

end Pass

end PlanSync
