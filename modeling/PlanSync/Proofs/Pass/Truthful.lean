import Mathlib.Data.List.Induction
import Mathlib.Data.List.Nodup
import PlanSync.Proofs.Pass.Edits

/-!
# Faults that tell the truth

A call may be made to fail with any answer, and one answer is taken for more
than a failure: a deletion that is told that its object is not there counts as
done. A fault is *truthful* if it does not say so of an object that is there
(`Pass.Event.Truthful`).

If all faults of a pass are truthful, then the steps that are no longer to come
have been applied, whichever calls fail and whenever the pass is cancelled
(`Pass.accounted_inMemory`). And a step has been done only after all those that
come before it in its change (`Pass.Accounted.done_of_before`).
-/

namespace PlanSync

variable {σ : Type}

/-- The step that a unit issues next, unless it is finished. -/
def UnitRun.next? (u : UnitRun) : Option Step :=
  if u.failure.isSome then none else u.remaining.head?

theorem UnitRun.next?_of_ready {u : UnitRun} {step : Step} {rest : List Step}
    (hready : u.failure = none) (hnext : u.remaining = step :: rest) : u.next? = some step := by
  unfold next?
  rw [hready, hnext]
  rfl

/-- **A call that does not get through is taken for a success** only if it is a
deletion, and is told that the object is not there. -/
theorem Step.run_failing_ok {cause : StoreError} {flag : σ → Bool} {step : Step} {s : σ}
    (h : (step.run (Store.failing cause) flag s).result = .ok ()) :
    flag s = false ∧ step.operation = .delete ∧ cause.isNotFound = true := by
  cases hflag : flag s with
  | true =>
    rw [run_of_cancelled step hflag] at h
    cases h
  | false =>
    have hdelete := (run_failing cause flag step s).2 h
    rw [run_of_not_cancelled step hflag] at h
    refine ⟨rfl, hdelete, ?_⟩
    cases step with
    | create | update => cases hdelete
    | delete key =>
      have h : ((delete key).settle (Action.fail cause s)).result = .ok () := h
      simp only [settle, Action.fail] at h
      split at h
      · next hcause => exact hcause
      · cases h

/-- A deletion that finds nothing is done. -/
theorem Step.does_of_gone {m : Memory} {step : Step} (hdelete : step.operation = .delete)
    (hnone : m.cell step.key = none) : step.Does m m := by
  cases step with
  | create | update => cases hdelete
  | delete key => exact ⟨trivial, hnone, fun _ _ => rfl⟩

namespace Pass

variable {clock : Nat → Timestamp} {i : Input} {m₀ m : Memory} {wanted : DesiredState}
  {owned : OwnedObjects} {plan : Plan} {units : List UnitRun} {done : List Step}
  {events : List Event} {e : Event}

/-! ## Truthful events -/

/-- The step that is issued at the next turn of the unit at a place, if one
is. -/
def Run.issued? (r : Run σ) (place : Nat) : Option Step :=
  match r.stage with
  | .applying _ units => if r.cancelled then none else units[place]?.bind UnitRun.next?
  | _ => none

/-- **An event is truthful**: a call that is made to fail does not answer that
its object is not there, if it is. -/
def Event.Truthful (r : Run Memory) : Event → Prop
  | fault place cause =>
    cause.isNotFound = true → ∀ step ∈ r.issued? place, r.state.cell step.key = none
  | _ => True

/-- **A pass is driven truthfully**: every event is truthful at the moment when
it happens. -/
def Truthful (clock : Nat → Timestamp) (i : Input) (m : Memory) (events : List Event) : Prop :=
  ∀ before e later, events = before ++ e :: later → e.Truthful (Run.inMemory clock i m before)

theorem Run.inMemory_append_singleton (clock : Nat → Timestamp) (i : Input) (m : Memory)
    (events : List Event) (e : Event) :
    Run.inMemory clock i m (events ++ [e])
      = (Run.inMemory clock i m events).next (Memory.store clock) i e :=
  Run.after_append ..

theorem truthful_append_singleton :
    Truthful clock i m (events ++ [e])
      ↔ Truthful clock i m events ∧ e.Truthful (Run.inMemory clock i m events) := by
  constructor
  · refine fun h => ⟨fun before e' later heq => ?_, h events e [] rfl⟩
    refine h before e' (later ++ [e]) ?_
    rw [heq, List.append_assoc, List.cons_append]
  · rintro ⟨h, he⟩ before e' later heq
    rcases List.eq_nil_or_concat later with rfl | ⟨later, e'', rfl⟩
    · obtain ⟨rfl, hlast⟩ := List.append_inj' heq rfl
      exact List.singleton_inj.mp hlast ▸ he
    · rw [List.concat_eq_append, ← List.cons_append, ← List.append_assoc] at heq
      exact h before e' later (List.append_inj' heq rfl).1

/-- **Faults that do not speak of missing objects** are truthful, whatever they
meet. -/
theorem truthful_of_causes
    (h : ∀ place cause, .fault place cause ∈ events → cause.isNotFound = false) :
    Truthful clock i m events := by
  intro before e later heq
  cases e with
  | turn | cancel => trivial
  | fault place cause =>
    intro hcause
    have hmem : .fault place cause ∈ events := heq ▸ List.mem_append_cons_self
    cases hcause.symm.trans (h place cause hmem)

theorem truthful_of_faultless (h : Faultless events) : Truthful clock i m events :=
  truthful_of_causes fun _ _ hmem => by cases h _ hmem

/-! ## Progress -/

/-- **A pass that begins to apply its plan has done nothing**, and left the store
alone. -/
theorem Run.start_of_next {r : Run Memory} (h : ∀ plan units, r.stage ≠ .applying plan units)
    (hstage : (r.next (Memory.store clock) i e).stage = .applying plan units) :
    units = plan.changes.map .start ∧ (r.next (Memory.store clock) i e).state = r.state := by
  cases e with
  | cancel => exact absurd hstage (h plan units)
  | turn place =>
    exact ⟨Stage.eq_start_of_advance h hstage, Stage.state_of_advance (fun _ _ _ => rfl) h⟩
  | fault place cause =>
    have hadvance : (r.stage.advance (Store.failing cause) r.cancelled i place r.state).1
        = .applying plan units := hstage
    exact ⟨Stage.eq_start_of_advance h hadvance,
      r.stage.state_advance_failing r.cancelled place cause r.state⟩

/-- A fault while a plan is applied. -/
theorem next_fault (i : Input) (plan : Plan) (units : List UnitRun) (cancelled : Bool) (place : Nat)
    (cause : StoreError) (m : Memory) :
    let r : Run Memory := ⟨.applying plan units, cancelled, m⟩
    r.next (Memory.store clock) i (.fault place cause) = r
      ∨ ∃ before later u step rest, units = before ++ u :: later ∧ u.failure = none
        ∧ u.remaining = step :: rest ∧ (cancelled = false → r.issued? place = some step)
        ∧ r.next (Memory.store clock) i (.fault place cause)
          = ⟨.applying plan (before ++ u.after step rest
              (step.run (Store.failing cause) (fun _ => cancelled) m).result :: later),
            cancelled, m⟩ := by
  intro r
  simp only [r, Run.next, Stage.advance]
  cases hu : units[place]? with
  | none => exact .inl rfl
  | some u =>
    obtain ⟨before, later, hunits, hset⟩ := exists_split hu
    rcases isFinished_or_next u with hfinished | ⟨hready, step, rest, hnext⟩
    · left
      simp only [advance_of_isFinished hfinished, hset]
      rw [hunits]
    · right
      obtain ⟨hunit, hstate⟩ :=
        advance_of_next (Store.failing cause) (fun _ => cancelled) hready hnext m
      refine ⟨before, later, u, step, rest, hunits, hready, hnext, fun hcancelled => ?_, ?_⟩
      · show (if cancelled then none else units[place]?.bind UnitRun.next?) = some step
        rw [hcancelled, if_neg Bool.false_ne_true, hu]
        exact UnitRun.next?_of_ready hready hnext
      · simp only [hunit, hstate, hset, (Step.run_failing cause (fun _ => cancelled) step m).1]

/-- **A truthful event is progress**: a deletion that passes for done had nothing
to delete. -/
theorem Applying.progressed_next (hclock : ∀ n, (clock n).ReadsBack) (hm₀ : m₀.Sound)
    (h : Applying i m₀ events wanted owned units m)
    (hprogressed : Progressed m₀ (.compute wanted owned) units m) {cancelled : Bool}
    (he : e.Truthful ⟨.applying (.compute wanted owned) units, cancelled, m⟩) {units' : List UnitRun}
    (hstage : (Run.next (Memory.store clock) i
      ⟨.applying (.compute wanted owned) units, cancelled, m⟩ e).stage = .applying plan units') :
    Progressed m₀ plan units' (Run.next (Memory.store clock) i
      ⟨.applying (.compute wanted owned) units, cancelled, m⟩ e).state := by
  cases e with
  | cancel =>
    cases hstage
    exact hprogressed
  | turn place =>
    obtain ⟨units'', hstage', hmoves, -⟩ :=
      next_applying hclock h.sound i (.compute wanted owned) units cancelled (.turn place)
    cases hstage'.symm.trans hstage
    exact hprogressed.moves hm₀ h.surveyed hmoves rfl
  | fault place cause =>
    rcases next_fault i (.compute wanted owned) units cancelled place cause m with
      hidle | ⟨before, later, u, step, rest, hunits, hready, hnext, hissued, hnext'⟩
    · rw [hidle] at hstage ⊢
      cases hstage
      exact hprogressed
    · rw [hnext'] at hstage ⊢
      cases hstage
      -- the fault is as good as an event that is none, for it has done the step
      -- or failed as after a cancellation
      have hmoves : Moves .cancel true units m (before ++ u.after step rest
          (step.run (Store.failing cause) (fun _ => cancelled) m).result :: later) m := by
        cases hresult : (step.run (Store.failing cause) (fun _ => cancelled) m).result with
        | error cause' => exact .failed cause' hunits hready hnext (.inr (.inl rfl))
        | ok _ =>
          obtain ⟨hcancelled, hdelete, hcause⟩ := Step.run_failing_ok hresult
          have hgone := he hcause step (hissued hcancelled)
          exact .done hunits hready hnext (Step.does_of_gone hdelete hgone)
      exact hprogressed.moves hm₀ h.surveyed hmoves rfl

/-- **In a pass that is driven truthfully every step that is no longer to come has
been applied**, whichever calls fail and whenever the pass is cancelled. -/
theorem progressed_inMemory (hclock : ∀ n, (clock n).ReadsBack) (hm₀ : m₀.Sound)
    (htruthful : Truthful clock i m₀ events)
    (hstage : (Run.inMemory clock i m₀ events).stage = .applying plan units) :
    Progressed m₀ plan units (Run.inMemory clock i m₀ events).state := by
  induction events using List.reverseRecOn generalizing plan units with
  | nil => cases hstage
  | append_singleton events e ih =>
    obtain ⟨hbefore, he⟩ := truthful_append_singleton.mp htruthful
    rw [Run.inMemory_append_singleton] at hstage ⊢
    have hreached := Reached.inMemory hclock hm₀ i events
    have starting : (Run.inMemory clock i m₀ events).state = m₀ →
        (∀ plan units, (Run.inMemory clock i m₀ events).stage ≠ .applying plan units) →
        Progressed m₀ plan units
          ((Run.inMemory clock i m₀ events).next (Memory.store clock) i e).state := by
      intro hstate hnot
      obtain ⟨rfl, hsame⟩ := Run.start_of_next hnot hstage
      rw [hsame, hstate]
      exact .start m₀ plan
    generalize Run.inMemory clock i m₀ events = r at *
    cases hreached with
    | begun | listing | refused => exact starting rfl fun _ _ h => by cases h
    | applying cancelled h => exact h.progressed_next hclock hm₀ (ih hbefore rfl) he hstage

/-! ## Steps that are accounted for -/

/-- **Every step of the plan is accounted for**: it has been applied, or it
stands in the unit of its change. -/
structure Accounted (i : Input) (m₀ : Memory) (wanted : DesiredState) (owned : OwnedObjects)
    (units : List UnitRun) (done : List Step) (m : Memory) : Prop where
  before : m₀.Sound
  surveyed : Surveyed i m₀ wanted owned
  follows : Follows m₀ (.compute wanted owned) units m
  perm : (done ++ pending units).Perm (Plan.compute wanted owned).steps
  applied : Memory.Applied m₀ done m

/-- **At every moment of a pass that is driven truthfully** the store is as the
pass found it, or every step is accounted for. -/
theorem accounted_inMemory (hclock : ∀ n, (clock n).ReadsBack) (hm₀ : m₀.Sound)
    (htruthful : Truthful clock i m₀ events) :
    (Run.inMemory clock i m₀ events).state = m₀
      ∨ ∃ wanted owned units done,
        Accounted i m₀ wanted owned units done (Run.inMemory clock i m₀ events).state := by
  have hreached := Reached.inMemory hclock hm₀ i events
  have hprogressed : ∀ plan units, (Run.inMemory clock i m₀ events).stage = .applying plan units →
      Progressed m₀ plan units (Run.inMemory clock i m₀ events).state :=
    fun _ _ => progressed_inMemory hclock hm₀ htruthful
  generalize Run.inMemory clock i m₀ events = r at *
  cases hreached with
  | begun | listing | refused => exact .inl rfl
  | @applying wanted owned units _ _ h =>
    obtain ⟨done, hperm, happlied⟩ := hprogressed _ _ rfl
    exact .inr ⟨wanted, owned, units, done, hm₀, h.surveyed, h.follows, hperm, happlied⟩

/-- **No plan has a step twice.** -/
theorem nodup_steps (hm : m.Sound) (h : Surveyed i m wanted owned) :
    (Plan.compute wanted owned).steps.Nodup :=
  (Plan.pairwise_steps hm h).imp fun {a b} hapart heq => by
    rcases hapart (congrArg Step.key heq) with ⟨hcreate, hdelete⟩ | ⟨hdelete, hcreate⟩
    · cases hcreate.symm.trans (heq ▸ hdelete)
    · cases hcreate.symm.trans (heq ▸ hdelete)

/-- **A step stands in one change only.** -/
theorem change_eq (hm : m.Sound) (h : Surveyed i m wanted owned) {c c' : BranchChange} {s : Step}
    (hc : c ∈ (Plan.compute wanted owned).changes) (hs : s ∈ c.steps)
    (hc' : c' ∈ (Plan.compute wanted owned).changes) (hs' : s ∈ c'.steps) : c = c' := by
  have hdisjoint := (List.nodup_flatMap.mp (nodup_steps hm h)).2
  by_contra hne
  have hsymm : Std.Symm (Function.onFun List.Disjoint BranchChange.steps) :=
    ⟨fun _ _ h _ hs hs' => h hs' hs⟩
  exact hdisjoint.forall hc hc' hne hs hs'

namespace Accounted

theorem planned (h : Accounted i m₀ wanted owned units done m) {s : Step} (hs : s ∈ done) :
    Plan.Planned wanted owned s :=
  Plan.mem_steps.mp (h.perm.mem_iff.mp (List.mem_append_left _ hs))

theorem nodup (h : Accounted i m₀ wanted owned units done m) : (done ++ pending units).Nodup :=
  h.perm.nodup_iff.mpr (nodup_steps h.before h.surveyed)

/-- **A step is done only after those that come before it in its change.** -/
theorem done_of_before (h : Accounted i m₀ wanted owned units done m) {c : BranchChange}
    (hc : Plan.Changes wanted owned c) {before later : List Step} (hsteps : c.steps = before ++ later)
    {s t : Step} (hs : s ∈ later) (hdone : s ∈ done) (ht : t ∈ before) : t ∈ done := by
  have hc := Plan.mem_changes.mpr hc
  have htc : t ∈ c.steps := hsteps ▸ List.mem_append_left _ ht
  have hplan : t ∈ (Plan.compute wanted owned).steps := List.mem_flatMap.mpr ⟨c, hc, htc⟩
  refine (List.mem_append.mp (h.perm.mem_iff.mpr hplan)).resolve_right fun hpending => ?_
  obtain ⟨u, hu, htu⟩ := List.mem_flatMap.mp hpending
  obtain rfl := change_eq h.before h.surveyed hc htc (h.follows.mem_changes hu)
    (h.follows.mem_change_steps hu htu)
  -- a unit that has the earlier step to come has the later one to come, too
  obtain ⟨ahead, hahead⟩ := (h.follows.orderly u hu).ahead
  rcases List.append_eq_append_iff.mp (hsteps.symm.trans hahead) with
    ⟨rest, -, hlater⟩ | ⟨rest, -, hremaining⟩
  · have hnodup : u.change.steps.Nodup :=
      (List.nodup_flatMap.mp (nodup_steps h.before h.surveyed)).1 _ hc
    rw [hsteps] at hnodup
    refine (List.nodup_append.mp hnodup).2.2 t ht t ?_ rfl
    rw [hlater]
    exact List.mem_append_right _ htu
  · refine (List.nodup_append.mp h.nodup).2.2 s hdone s (List.mem_flatMap.mpr ⟨u, hu, ?_⟩) rfl
    rw [hremaining]
    exact List.mem_append_right _ hs

end Accounted

end Pass

end PlanSync
