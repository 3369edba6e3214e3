import PlanSync.Proofs.Pass.Effect

/-!
# The course of a pass

What holds at every moment of a pass over a store in memory. Until the plan is
made the store is as the pass found it, and a pass that is refused leaves it so.
After that every event moves at most one unit by at most one step (`Pass.Moves`),
and what such a move preserves holds to the end (`Pass.Reached.inMemory`).

Four things are preserved. Units stay units of the plan, and every cell is as
it was found or as a step of the plan leaves it, whatever calls fail
(`Pass.Follows`). The steps that are no longer to come have been applied, but for
deletions that were made to fail and passed for done (`Pass.Executed`); and if no
call is made to fail, all of them have (`Pass.Progressed`). If the pass is not
cancelled either, a unit fails only at an object that could not be created in the
store as the pass found it (`Pass.Blocked`).
-/

namespace PlanSync.Pass

variable {clock : Nat → Timestamp} {i : Input} {m₀ m m' : Memory} {wanted : DesiredState}
  {owned : OwnedObjects} {plan : Plan} {units units' : List UnitRun} {cancelled : Bool} {e : Event}

/-- A call that is made to fail. -/
def Event.isFault : Event → Bool
  | fault .. => true
  | _ => false

/-! ## Moves -/

/-- **What one event does while a plan is applied**: nothing, or one unit comes
to the end of its next step, or fails at it. A deletion that is made to fail may
pass for done. -/
inductive Moves (e : Event) (cancelled : Bool) (units : List UnitRun) (m : Memory) :
    List UnitRun → Memory → Prop
  | idle : Moves e cancelled units m units m
  | done {before later : List UnitRun} {u : UnitRun} {step : Step} {rest : List Step}
      {m' : Memory} (hunits : units = before ++ u :: later) (hready : u.failure = none)
      (hnext : u.remaining = step :: rest) (hdoes : step.Does m m') :
    Moves e cancelled units m (before ++ u.after step rest (.ok ()) :: later) m'
  | spared {before later : List UnitRun} {u : UnitRun} {step : Step} {rest : List Step}
      (hunits : units = before ++ u :: later) (hready : u.failure = none)
      (hnext : u.remaining = step :: rest) (hfault : e.isFault = true)
      (hdelete : step.operation = .delete) :
    Moves e cancelled units m (before ++ u.after step rest (.ok ()) :: later) m
  | failed {before later : List UnitRun} {u : UnitRun} {step : Step} {rest : List Step}
      (cause : StoreError) (hunits : units = before ++ u :: later) (hready : u.failure = none)
      (hnext : u.remaining = step :: rest)
      (hwhy : e.isFault = true ∨ cancelled = true ∨ ¬ step.Can m) :
    Moves e cancelled units m (before ++ u.after step rest (.error cause) :: later) m

/-- A unit among the others. -/
theorem exists_split {place : Nat} {u : UnitRun} (h : units[place]? = some u) :
    ∃ before later, units = before ++ u :: later
      ∧ ∀ u', units.set place u' = before ++ u' :: later := by
  obtain ⟨hplace, rfl⟩ := List.getElem?_eq_some_iff.mp h
  refine ⟨units.take place, units.drop (place + 1), ?_, fun u' => ?_⟩
  · rw [List.getElem_cons_drop, List.take_append_drop]
  · rw [List.set_eq_take_append_cons_drop, if_pos hplace]

/-- A unit is finished, or has a next step. -/
theorem isFinished_or_next (u : UnitRun) :
    u.isFinished = true ∨ (u.failure = none ∧ ∃ step rest, u.remaining = step :: rest) := by
  unfold UnitRun.isFinished
  cases u.failure with
  | some f => exact .inl rfl
  | none =>
    cases u.remaining with
    | nil => exact .inl rfl
    | cons step rest => exact .inr ⟨rfl, step, rest, rfl⟩

theorem advance_of_next {σ : Type} (store : Store σ) (flag : σ → Bool) {u : UnitRun} {step : Step}
    {rest : List Step} (hready : u.failure = none) (hnext : u.remaining = step :: rest) (s : σ) :
    (u.advance store flag s).1 = u.after step rest (step.run store flag s).result
      ∧ (u.advance store flag s).2.1 = (step.run store flag s).state := by
  unfold UnitRun.advance
  rw [hready, hnext]
  exact ⟨rfl, rfl⟩

theorem desired_eq (i : Input) : desired i.template i.source i.pullRequests
    = match i.derive? with
      | some wanted => .ok wanted
      | none => .error (.untrackedSource i.source.namespaceName i.source.name) := rfl

/-- What the first call makes of a pass: it refuses it, or lists the configurations. -/
theorem advance_begun {σ : Type} (store : Store σ) (i : Input) (cancelled : Bool) (place : Nat)
    (s : σ) :
    let listed := store.list .terraform i.template.namespaceName (ownerSelector i.template.name) s
    (∃ cause s', Stage.begun.advance store cancelled i place s = (.refused cause, s')
        ∧ (∀ fs, cause ≠ .apply fs) ∧ (s' = s ∨ s' = listed.state)
        ∧ (cancelled = true ∨ i.derive? = none ∨ ∃ e, listed.result = .error e))
      ∨ ∃ wanted ts,
        Stage.begun.advance store cancelled i place s = (.listing wanted ts, listed.state)
          ∧ i.derive? = some wanted ∧ listed.result = .ok ts := by
  intro listed
  simp only [Stage.advance, desired_eq]
  cases cancelled with
  | true => exact .inl ⟨_, s, rfl, (fun _ h => by cases h), .inl rfl, .inl rfl⟩
  | false =>
    rw [if_neg Bool.false_ne_true]
    cases i.derive? with
    | none => exact .inl ⟨_, s, rfl, (fun _ h => by cases h), .inl rfl, .inr (.inl rfl)⟩
    | some wanted =>
      cases listed.result with
      | error e => exact .inl ⟨_, _, rfl, (fun _ h => by cases h), .inr rfl, .inr (.inr ⟨e, rfl⟩)⟩
      | ok ts => exact .inr ⟨wanted, ts, rfl, rfl, rfl⟩

/-- What the second call makes of a pass: it refuses it, or lists the sources. -/
theorem advance_listing {σ : Type} (store : Store σ) (i : Input) (cancelled : Bool) (place : Nat)
    (wanted : DesiredState) (ts : List Terraform) (s : σ) :
    let listed := store.list .gitRepository i.template.namespaceName
      (ownerSelector i.template.name) s
    (∃ e, (Stage.listing wanted ts).advance store cancelled i place s
          = (.refused (.store e), listed.state)
        ∧ listed.result = .error e)
      ∨ ∃ ss, (Stage.listing wanted ts).advance store cancelled i place s
          = (.applying (.compute wanted (.ofListed i.template i.source ts ss))
              ((Plan.compute wanted (.ofListed i.template i.source ts ss)).changes.map .start),
            listed.state)
        ∧ listed.result = .ok ss := by
  intro listed
  simp only [Stage.advance]
  cases listed.result with
  | error e => exact .inl ⟨e, rfl, rfl⟩
  | ok ss => exact .inr ⟨ss, rfl, rfl⟩

/-- What a turn makes of a pass that applies a plan: nothing, if there is no unit at the
place or if it is finished; or else the next step of the unit is run. -/
theorem advance_at {σ : Type} (store : Store σ) (i : Input) (cancelled : Bool) (plan : Plan)
    (units : List UnitRun) (place : Nat) (s : σ) :
    (Stage.advance store cancelled i place (.applying plan units) s = (.applying plan units, s)
        ∧ ∀ u, units[place]? = some u → u.isFinished = true)
      ∨ ∃ u step rest, units[place]? = some u ∧ u.failure = none ∧ u.remaining = step :: rest
        ∧ Stage.advance store cancelled i place (.applying plan units) s
          = (.applying plan
              (units.set place (u.after step rest (step.run store (fun _ => cancelled) s).result)),
            (step.run store (fun _ => cancelled) s).state) := by
  simp only [Stage.advance]
  cases hu : units[place]? with
  | none => exact .inl ⟨rfl, fun _ h => by cases h⟩
  | some u =>
    rcases isFinished_or_next u with hfinished | ⟨hready, step, rest, hnext⟩
    · left
      obtain ⟨before, later, hunits, hset⟩ := exists_split hu
      simp only [advance_of_isFinished hfinished, hset]
      rw [hunits]
      exact ⟨rfl, fun _ h => Option.some.inj h ▸ hfinished⟩
    · right
      obtain ⟨hunit, hstate⟩ := advance_of_next store (fun _ => cancelled) hready hnext s
      exact ⟨u, step, rest, rfl, hready, hnext, by simp only [hunit, hstate]⟩

/-- What an event makes of a pass that applies a plan, in terms of the store
whose calls are issued. -/
theorem advance_applying {σ : Type} (store : Store σ) (i : Input) (cancelled : Bool) (plan : Plan)
    (units : List UnitRun) (place : Nat) (s : σ) :
    Stage.advance store cancelled i place (.applying plan units) s = (.applying plan units, s)
      ∨ ∃ before later u step rest, units = before ++ u :: later ∧ u.failure = none
        ∧ u.remaining = step :: rest
        ∧ Stage.advance store cancelled i place (.applying plan units) s
          = (.applying plan
              (before ++ u.after step rest (step.run store (fun _ => cancelled) s).result :: later),
            (step.run store (fun _ => cancelled) s).state) := by
  rcases advance_at store i cancelled plan units place s with
    ⟨hidle, -⟩ | ⟨u, step, rest, hu, hready, hnext, hadvance⟩
  · exact .inl hidle
  · obtain ⟨before, later, hunits, hset⟩ := exists_split hu
    exact .inr ⟨before, later, u, step, rest, hunits, hready, hnext, by rw [hadvance, hset]⟩

/-- **Every event moves at most one unit.** -/
theorem next_applying (hclock : ∀ n, (clock n).ReadsBack) (hm : m.Sound) (i : Input) (plan : Plan)
    (units : List UnitRun) (cancelled : Bool) (e : Event) :
    ∃ units',
      (Run.next (Memory.store clock) i ⟨.applying plan units, cancelled, m⟩ e).stage
          = .applying plan units'
        ∧ Moves e cancelled units m units'
          (Run.next (Memory.store clock) i ⟨.applying plan units, cancelled, m⟩ e).state
        ∧ (Run.next (Memory.store clock) i ⟨.applying plan units, cancelled, m⟩ e).state.Sound := by
  cases e with
  | cancel => exact ⟨units, rfl, .idle, hm⟩
  | turn place =>
    simp only [Run.next]
    rcases advance_applying (Memory.store clock) i cancelled plan units place m with
      h | ⟨before, later, u, step, rest, hunits, hready, hnext, h⟩
    · rw [h]
      exact ⟨units, rfl, .idle, hm⟩
    · rw [h]
      refine ⟨_, rfl, ?_⟩
      cases hcancelled : cancelled with
      | true =>
        rw [Step.run_of_cancelled step rfl]
        exact ⟨.failed _ hunits hready hnext (.inr (.inl rfl)), hm⟩
      | false =>
        rcases Step.run_cases hclock hm (fun _ => false) rfl step with
          ⟨hok, hdoes, hsound⟩ | ⟨cause, herror, hsame, hcannot⟩
        · rw [hok]
          exact ⟨.done hunits hready hnext hdoes, hsound⟩
        · rw [herror, hsame]
          exact ⟨.failed _ hunits hready hnext (.inr (.inr hcannot)), hm⟩
  | fault place cause =>
    simp only [Run.next]
    rcases advance_applying (Store.failing cause) i cancelled plan units place m with
      h | ⟨before, later, u, step, rest, hunits, hready, hnext, h⟩
    · rw [h]
      exact ⟨units, rfl, .idle, hm⟩
    · rw [h]
      refine ⟨_, rfl, ?_⟩
      obtain ⟨hsame, hspared⟩ := Step.run_failing cause (fun _ : Memory => cancelled) step m
      rw [hsame]
      refine ⟨?_, hm⟩
      cases hresult : (step.run (Store.failing cause) (fun _ => cancelled) m).result with
      | ok _ => exact .spared hunits hready hnext rfl (hspared hresult)
      | error cause' => exact .failed _ hunits hready hnext (.inl rfl)

/-! ## Following the plan -/

/-- **A unit in good order**: what is still to come of it is the end of its
steps, and if it has failed, it was at the first of those. -/
structure Orderly (u : UnitRun) : Prop where
  ahead : ∃ before, u.change.steps = before ++ u.remaining
  failed : ∀ f, u.failure = some f →
    ∃ step rest cause, u.remaining = step :: rest ∧ f = u.failureAt step cause

theorem orderly_start (c : BranchChange) : Orderly (.start c) :=
  ⟨⟨[], rfl⟩, fun _ hf => by cases hf⟩

theorem Orderly.after {u : UnitRun} {step : Step} {rest : List Step} (h : Orderly u)
    (hready : u.failure = none) (hnext : u.remaining = step :: rest)
    (result : Except StoreError Unit) : Orderly (u.after step rest result) := by
  obtain ⟨before, hbefore⟩ := h.ahead
  cases result with
  | ok _ =>
    refine ⟨⟨before ++ [step], ?_⟩, fun f hf => ?_⟩
    · show u.change.steps = (before ++ [step]) ++ rest
      rw [hbefore, hnext, List.append_assoc, List.singleton_append]
    · cases hready.symm.trans hf
  | error cause =>
    refine ⟨⟨before, hbefore⟩, fun f hf => ?_⟩
    cases hf
    exact ⟨step, rest, cause, hnext, rfl⟩

theorem change_after (u : UnitRun) (step : Step) (rest : List Step)
    (result : Except StoreError Unit) : (u.after step rest result).change = u.change := by
  cases result <;> rfl

/-- **A cell is as it was found, or as a step of the plan leaves it.** It holds
what a step creates only if it was found empty or the plan deletes what was
found. -/
def Kept (m₀ : Memory) (plan : Plan) (m : Memory) (key : ObjectKey) : Prop :=
  m.cell key = m₀.cell key
    ∨ ∃ s ∈ plan.steps, s.key = key ∧ s.Leaves (m.cell key)
      ∧ (s.operation = .create →
          m₀.cell key = none ∨ ∃ d ∈ plan.steps, d.operation = .delete ∧ d.key = key)

/-- **A pass follows its plan**: its units are those of the plan and in good
order, and it keeps to the steps of the plan. -/
structure Follows (m₀ : Memory) (plan : Plan) (units : List UnitRun) (m : Memory) : Prop where
  changes : units.map UnitRun.change = plan.changes
  orderly : ∀ u ∈ units, Orderly u
  kept : ∀ key, Kept m₀ plan m key

/-- Only a deletion leaves a cell empty. -/
theorem operation_of_leaves_none {s : Step} (h : s.Leaves none) : s.operation = .delete := by
  cases s with
  | create k o =>
    obtain ⟨j, hj, -⟩ := h
    cases hj
  | update k o o' =>
    obtain ⟨j, hj, -⟩ := h
    cases hj
  | delete key => rfl

/-- **A step of the plan keeps to it.** -/
theorem Kept.does {s : Step} {key : ObjectKey} (h : Kept m₀ plan m key) (hs : s ∈ plan.steps)
    (hdoes : s.Does m m') : Kept m₀ plan m' key := by
  -- the step leaves its own cell as it should, and no other is touched
  by_cases hkey : key = s.key
  · subst hkey
    refine .inr ⟨s, hs, rfl, hdoes.left, fun hcreate => ?_⟩
    cases s with
    | update k o o' => cases hcreate
    | delete key => cases hcreate
    | create k o =>
      have hnone : m.cell o.key = none := hdoes.possible.2
      rcases h with hsame | ⟨t, ht, hkey, hleaves, -⟩
      · exact .inl (hsame.symm.trans hnone)
      · have hleaves : t.Leaves (m.cell o.key) := hleaves
        rw [hnone] at hleaves
        exact .inr ⟨t, ht, operation_of_leaves_none hleaves, hkey⟩
  · unfold Kept
    rw [hdoes.frame key hkey]
    exact h

theorem forall_mem_split {p : UnitRun → Prop} {before later : List UnitRun} {u u' : UnitRun}
    (h : ∀ v ∈ before ++ u :: later, p v) (hu' : p u') : ∀ v ∈ before ++ u' :: later, p v := by
  rw [List.forall_mem_append, List.forall_mem_cons] at h ⊢
  exact ⟨h.1, hu', h.2.2⟩

namespace Follows

theorem start (m₀ : Memory) (plan : Plan) :
    Follows m₀ plan (plan.changes.map .start) m₀ where
  changes := by
    rw [List.map_map]
    exact List.map_id _
  orderly u hu := by
    obtain ⟨c, -, rfl⟩ := List.mem_map.mp hu
    exact orderly_start c
  kept _ := .inl rfl

theorem mem_changes (h : Follows m₀ plan units m) {u : UnitRun} (hu : u ∈ units) :
    u.change ∈ plan.changes := by
  rw [← h.changes]
  exact List.mem_map_of_mem hu

/-- What is still to come is in the change of the unit. -/
theorem mem_change_steps (h : Follows m₀ plan units m) {u : UnitRun} (hu : u ∈ units) {s : Step}
    (hs : s ∈ u.remaining) : s ∈ u.change.steps := by
  obtain ⟨before, hbefore⟩ := (h.orderly u hu).ahead
  rw [hbefore]
  exact List.mem_append_right before hs

/-- What is still to come is in the plan. -/
theorem mem_steps (h : Follows m₀ plan units m) {u : UnitRun} (hu : u ∈ units) {s : Step}
    (hs : s ∈ u.remaining) : s ∈ plan.steps :=
  List.mem_flatMap.mpr ⟨u.change, h.mem_changes hu, h.mem_change_steps hu hs⟩

/-- **One unit has moved**, and the store has kept to the plan. -/
theorem after {before later : List UnitRun} {u : UnitRun} {step : Step} {rest : List Step}
    (h : Follows m₀ plan (before ++ u :: later) m) (hready : u.failure = none)
    (hnext : u.remaining = step :: rest) (result : Except StoreError Unit)
    (hkept : step ∈ plan.steps → ∀ key, Kept m₀ plan m' key) :
    Follows m₀ plan (before ++ u.after step rest result :: later) m' := by
  have hu : u ∈ before ++ u :: later := List.mem_append_cons_self
  refine ⟨?_, ?_, hkept (h.mem_steps hu (hnext ▸ List.mem_cons_self))⟩
  · rw [← h.changes, List.map_append, List.map_append, List.map_cons, List.map_cons, change_after]
  · exact forall_mem_split h.orderly ((h.orderly u hu).after hready hnext result)

theorem moves (h : Follows m₀ plan units m) (hmoves : Moves e cancelled units m units' m') :
    Follows m₀ plan units' m' := by
  cases hmoves with
  | idle => exact h
  | done hunits hready hnext hdoes =>
    subst hunits
    exact h.after hready hnext _ fun hstep key => (h.kept key).does hstep hdoes
  | spared hunits hready hnext =>
    subst hunits
    exact h.after hready hnext _ fun _ => h.kept
  | failed cause hunits hready hnext =>
    subst hunits
    exact h.after hready hnext _ fun _ => h.kept

end Follows

/-! ## Progress -/

/-- The steps that are still to come. -/
def pending (units : List UnitRun) : List Step := units.flatMap UnitRun.remaining

/-- **A pass has progressed**: the steps of the plan that are no longer to come
have been applied. -/
def Progressed (m₀ : Memory) (plan : Plan) (units : List UnitRun) (m : Memory) : Prop :=
  ∃ done, (done ++ pending units).Perm plan.steps ∧ Memory.Applied m₀ done m

/-- **A plan is executed** as far as a pass has come: the steps of the plan that are
no longer to come have been applied, or they are deletions that were passed over. -/
def Executed (m₀ : Memory) (plan : Plan) (units : List UnitRun) (m : Memory) : Prop :=
  ∃ done spared, (done ++ (spared ++ pending units)).Perm plan.steps
    ∧ Memory.Applied m₀ done m ∧ ∀ s ∈ spared, s.operation = .delete

theorem pending_start (plan : Plan) : pending (plan.changes.map .start) = plan.steps := by
  rw [pending, List.flatMap_map]
  rfl

theorem pending_split (before later : List UnitRun) (u : UnitRun) :
    (pending (before ++ u :: later)).Perm (u.remaining ++ pending (before ++ later)) := by
  unfold pending
  rw [List.flatMap_append, List.flatMap_append, List.flatMap_cons]
  exact List.perm_append_comm_assoc ..

theorem pending_after_ok (before later : List UnitRun) {u : UnitRun} {step : Step}
    {rest : List Step} (hnext : u.remaining = step :: rest) :
    (pending (before ++ u :: later)).Perm
      (step :: pending (before ++ u.after step rest (.ok ()) :: later)) := by
  refine (pending_split before later u).trans ?_
  rw [hnext]
  exact ((pending_split before later (u.after step rest (.ok ()))).symm.cons step)

theorem pending_after_error (before later : List UnitRun) (u : UnitRun) (step : Step)
    (rest : List Step) (cause : StoreError) :
    pending (before ++ u.after step rest (.error cause) :: later)
      = pending (before ++ u :: later) := by
  unfold pending
  rw [List.flatMap_append, List.flatMap_append]
  rfl

/-- **One more step is done**: it goes over from the others of the plan to those that
have been applied. -/
theorem applied_next (hm₀ : m₀.Sound) (hs : Surveyed i m₀ wanted owned)
    {done others others' : List Step} {step : Step}
    (hperm : (done ++ others).Perm (Plan.compute wanted owned).steps)
    (happlied : Memory.Applied m₀ done m) (hnext : others.Perm (step :: others'))
    (hdoes : step.Does m m') :
    (step :: done ++ others').Perm (Plan.compute wanted owned).steps
      ∧ Memory.Applied m₀ (step :: done) m' := by
  have hall : (done ++ step :: others').Perm (Plan.compute wanted owned).steps :=
    (hnext.symm.append_left done).trans hperm
  have hapart := (hall.pairwise_iff Step.Apart.symm).mpr (Plan.pairwise_steps hm₀ hs)
  refine ⟨List.perm_middle.symm.trans hall, happlied.does hdoes ?_ ?_⟩
  · intro t ht
    exact ((List.pairwise_append.mp hapart).2.2 t ht step List.mem_cons_self).symm
  · exact Plan.cell_of_delete hm₀ hs (Plan.mem_steps.mp
      (hall.mem_iff.mp List.mem_append_cons_self))

namespace Progressed

theorem start (m₀ : Memory) (plan : Plan) :
    Progressed m₀ plan (plan.changes.map .start) m₀ :=
  ⟨[], List.Perm.of_eq (pending_start plan), .refl m₀⟩

/-- **A step that is done is progress**, if no call is made to fail. -/
theorem moves (hm₀ : m₀.Sound) (hs : Surveyed i m₀ wanted owned)
    (h : Progressed m₀ (.compute wanted owned) units m)
    (hmoves : Moves e cancelled units m units' m') (hfault : e.isFault = false) :
    Progressed m₀ (.compute wanted owned) units' m' := by
  obtain ⟨done, hperm, happlied⟩ := h
  cases hmoves with
  | idle => exact ⟨done, hperm, happlied⟩
  | @done before later u step rest _ hunits hready hnext hdoes =>
    subst hunits
    exact ⟨step :: done,
      applied_next hm₀ hs hperm happlied (pending_after_ok before later hnext) hdoes⟩
  | spared _ _ _ hfault' => cases hfault.symm.trans hfault'
  | @failed before later u step rest cause hunits hready hnext hwhy =>
    subst hunits
    refine ⟨done, ?_, happlied⟩
    rw [pending_after_error]
    exact hperm

end Progressed

namespace Executed

theorem start (m₀ : Memory) (plan : Plan) :
    Executed m₀ plan (plan.changes.map .start) m₀ :=
  ⟨[], [], List.Perm.of_eq (pending_start plan), .refl m₀, fun _ hs => by cases hs⟩

/-- **Whatever moves, the plan is executed** as far as the pass has come. -/
theorem moves (hm₀ : m₀.Sound) (hs : Surveyed i m₀ wanted owned)
    (h : Executed m₀ (.compute wanted owned) units m)
    (hmoves : Moves e cancelled units m units' m') :
    Executed m₀ (.compute wanted owned) units' m' := by
  obtain ⟨done, spared, hperm, happlied, hspared⟩ := h
  -- a step that is no longer to come stands before those to come and those passed over
  have ahead : ∀ {before later : List UnitRun} {u : UnitRun} {step : Step} {rest : List Step},
      u.remaining = step :: rest → (spared ++ pending (before ++ u :: later)).Perm
        (step :: (spared ++ pending (before ++ u.after step rest (.ok ()) :: later))) :=
    fun hnext => ((pending_after_ok _ _ hnext).append_left spared).trans List.perm_middle
  cases hmoves with
  | idle => exact ⟨done, spared, hperm, happlied, hspared⟩
  | @done before later u step rest _ hunits hready hnext hdoes =>
    subst hunits
    obtain ⟨hperm', happlied'⟩ := applied_next hm₀ hs hperm happlied (ahead hnext) hdoes
    exact ⟨step :: done, spared, hperm', happlied', hspared⟩
  | @spared before later u step rest hunits hready hnext hfault hdelete =>
    subst hunits
    exact ⟨done, step :: spared, ((ahead hnext).symm.append_left done).trans hperm, happlied,
      List.forall_mem_cons.mpr ⟨hdelete, hspared⟩⟩
  | @failed before later u step rest cause hunits hready hnext hwhy =>
    subst hunits
    refine ⟨done, spared, ?_, happlied, hspared⟩
    rw [pending_after_error]
    exact hperm

end Executed

/-! ## Failures -/

/-- **Steps are stalled**: the first of them is a creation that is impossible. -/
def Stalled (m : Memory) (steps : List Step) : Prop :=
  ∃ k o rest, steps = .create k o :: rest ∧ ¬ m.Admits o.key

/-- **A unit fails only at a creation that was impossible from the start.** -/
def Blocked (m₀ : Memory) (units : List UnitRun) : Prop :=
  ∀ u ∈ units, u.failure ≠ none → Stalled m₀ u.remaining

/-- **If all units are stalled, nothing happens**, whatever calls fail. -/
theorem Moves.still (h : ∀ u ∈ units, Stalled m u.remaining)
    (hmoves : Moves e cancelled units m units' m') :
    m' = m ∧ ∀ u ∈ units', Stalled m u.remaining := by
  have stalled_at : ∀ {before later : List UnitRun} {u : UnitRun} {step : Step}
      {rest : List Step}, units = before ++ u :: later → u.remaining = step :: rest →
      step.operation ≠ .delete ∧ ¬ step.Can m := by
    intro before later u step rest hunits hnext
    subst hunits
    obtain ⟨k, o, rest', hremaining, hadmits⟩ := h u (List.mem_append_cons_self)
    cases hnext.symm.trans hremaining
    exact ⟨fun hop => (by cases hop), hadmits⟩
  cases hmoves with
  | idle => exact ⟨rfl, h⟩
  | done hunits _ hnext hdoes => exact absurd hdoes.possible (stalled_at hunits hnext).2
  | spared hunits _ hnext _ hdelete => exact absurd hdelete (stalled_at hunits hnext).1
  | @failed before later u step rest cause hunits =>
    subst hunits
    exact ⟨rfl, forall_mem_split h (h u (List.mem_append_cons_self))⟩

namespace Progressed

/-- The step that is to be issued next is in the plan, and no step that was done
has the same object, unless one creates it and the other deletes it. -/
theorem apart_next (hm₀ : m₀.Sound) (hs : Surveyed i m₀ wanted owned) {before later : List UnitRun}
    {u : UnitRun} {step : Step} {rest : List Step} {done : List Step}
    (hperm : (done ++ pending (before ++ u :: later)).Perm (Plan.compute wanted owned).steps)
    (hnext : u.remaining = step :: rest) :
    Plan.Planned wanted owned step ∧ ∀ t ∈ done, step.Apart t := by
  have hmem : step ∈ pending (before ++ u :: later) := by
    rw [(pending_split before later u).mem_iff, hnext]
    exact List.mem_cons_self
  have hapart := (hperm.pairwise_iff Step.Apart.symm).mpr (Plan.pairwise_steps hm₀ hs)
  exact ⟨Plan.mem_steps.mp (hperm.mem_iff.mp (List.mem_append_right _ hmem)),
    fun t ht => ((List.pairwise_append.mp hapart).2.2 t ht step hmem).symm⟩

/-- **An update is possible** as long as the cell of its object is as it was
found. -/
theorem can_update_of_cell_eq (hm₀ : m₀.Sound) (hs : Surveyed i m₀ wanted owned) {k : Kind}
    {current updated : Object k} (hstep : Plan.Planned wanted owned (.update k current updated))
    (hsame : m.cell (Step.update k current updated).key
      = m₀.cell (Step.update k current updated).key) :
    (Step.update k current updated).Can m := by
  cases hstep with
  | @update id pair _ _ hp ho hd =>
    obtain ⟨hholds, -, -⟩ := (hs.half_iff hm₀).mp ho
    have hstorable : Naming.checkKey current.key = .ok () := hm₀.checkKey hholds
    obtain ⟨j, hj, hdecode⟩ := hholds
    refine ⟨current, hstorable, ⟨j, hsame.trans hj, hdecode⟩, ?_⟩
    -- the update carries the version of the object that the pass found
    show Memory.checkVersion current (current.overwrite (pair.half k)) = .ok ()
    unfold Memory.checkVersion
    cases hversion : current.metadata.resourceVersion with
    | none =>
      have hversion' : (current.overwrite (pair.half k)).metadata.resourceVersion = none :=
        hversion
      rw [hversion']
    | some v =>
      have hversion' : (current.overwrite (pair.half k)).metadata.resourceVersion = some v :=
        hversion
      rw [hversion']
      exact if_pos rfl

/-- **An update is always possible**, for no other step is about its object. -/
theorem can_update (hm₀ : m₀.Sound) (hs : Surveyed i m₀ wanted owned) {done : List Step}
    (happlied : Memory.Applied m₀ done m) {k : Kind} {current updated : Object k}
    (hstep : Plan.Planned wanted owned (.update k current updated))
    (hapart : ∀ t ∈ done, (Step.update k current updated).Apart t) :
    (Step.update k current updated).Can m := by
  refine can_update_of_cell_eq hm₀ hs hstep (happlied.frame _ fun t ht hkey => ?_)
  rcases hapart t ht hkey.symm with ⟨hop, -⟩ | ⟨hop, -⟩ <;> cases hop

/-- **What cannot be created now could not be created from the start.** -/
theorem not_admits_of_create (hm₀ : m₀.Sound) (hs : Surveyed i m₀ wanted owned)
    {done : List Step} (happlied : Memory.Applied m₀ done m)
    (hdone : ∀ t ∈ done, Plan.Planned wanted owned t) {k : Kind} {o : Object k}
    (hapart : ∀ t ∈ done, (Step.create k o).Apart t) (hcannot : ¬ m.Admits o.key) :
    ¬ m₀.Admits o.key := by
  rintro ⟨hkey, hnone⟩
  refine hcannot ⟨hkey, (happlied.frame _ fun t ht hkey' => ?_).trans hnone⟩
  -- only a deletion can be about the object, and what is deleted was there
  rcases hapart t ht hkey'.symm with ⟨-, hdel⟩ | ⟨hop, -⟩
  · exact Plan.cell_of_delete hm₀ hs (hdone t ht) hdel (hkey' ▸ hnone)
  · cases hop

end Progressed

theorem Blocked.start (m₀ : Memory) (plan : Plan) : Blocked m₀ (plan.changes.map .start) := by
  intro u hu hfailed
  obtain ⟨c, -, rfl⟩ := List.mem_map.mp hu
  exact absurd rfl hfailed

/-- **No other step fails**, if no call is made to fail and the pass is not
cancelled. -/
theorem Blocked.moves (hm₀ : m₀.Sound) (hs : Surveyed i m₀ wanted owned) (h : Blocked m₀ units)
    (hprogressed : Progressed m₀ (.compute wanted owned) units m)
    (hmoves : Moves e false units m units' m') (hfault : e.isFault = false) :
    Blocked m₀ units' := by
  cases hmoves with
  | idle => exact h
  | @done before later u step rest _ hunits hready =>
    subst hunits
    exact forall_mem_split h fun hfailed => absurd hready hfailed
  | spared _ _ _ hfault' => cases hfault.symm.trans hfault'
  | @failed before later u step rest cause hunits hready hnext hwhy =>
    subst hunits
    have hcannot : ¬ step.Can m := by
      rcases hwhy with hfault' | hcancelled | hcannot
      · cases hfault.symm.trans hfault'
      · cases hcancelled
      · exact hcannot
    -- an update is always possible and a deletion needs nothing, so the step
    -- is a creation
    obtain ⟨done, hperm, happlied⟩ := hprogressed
    obtain ⟨hstep, hapart⟩ := Progressed.apart_next hm₀ hs hperm hnext
    refine forall_mem_split h fun _ => ?_
    cases step with
    | create k o =>
      refine ⟨k, o, rest, hnext, Progressed.not_admits_of_create hm₀ hs happlied ?_ hapart hcannot⟩
      exact fun t ht => Plan.mem_steps.mp (hperm.mem_iff.mp (List.mem_append_left _ ht))
    | update k current updated =>
      exact absurd (Progressed.can_update hm₀ hs happlied hstep hapart) hcannot
    | delete key => exact absurd trivial hcannot

/-! ## Runs -/

/-- **A pass over a store in memory**, driven by a list of events. -/
def Run.inMemory (clock : Nat → Timestamp) (i : Input) (m : Memory) (events : List Event) :
    Run Memory :=
  .after (Memory.store clock) i { state := m } events

/-- **No call is made to fail.** -/
def Faultless (events : List Event) : Prop := ∀ e ∈ events, e.isFault = false

/-- **Nothing happens but turns**: no call is made to fail, and the pass is not
cancelled. -/
def Calm (events : List Event) : Prop := ∀ e ∈ events, ∃ place, e = .turn place

theorem Calm.faultless {events : List Event} (h : Calm events) : Faultless events := by
  intro e he
  obtain ⟨place, rfl⟩ := h e he
  rfl

theorem calm_turns (places : List Nat) : Calm (places.map .turn) := by
  intro e he
  obtain ⟨place, -, rfl⟩ := List.mem_map.mp he
  exact ⟨place, rfl⟩

/-- What holds while a plan is applied. -/
structure Applying (i : Input) (m₀ : Memory) (events : List Event) (wanted : DesiredState)
    (owned : OwnedObjects) (units : List UnitRun) (m : Memory) : Prop where
  surveyed : Surveyed i m₀ wanted owned
  sound : m.Sound
  follows : Follows m₀ (.compute wanted owned) units m
  executed : Executed m₀ (.compute wanted owned) units m
  progressed : Faultless events → Progressed m₀ (.compute wanted owned) units m
  blocked : Calm events → Blocked m₀ units
  still : (∀ c ∈ (Plan.compute wanted owned).changes, Stalled m₀ c.steps) →
    m = m₀ ∧ ∀ u ∈ units, Stalled m₀ u.remaining

/-- **Where a pass can stand** that found a store and is driven by given
events. -/
inductive Reached (i : Input) (m₀ : Memory) (events : List Event) : Run Memory → Prop
  | begun (cancelled : Bool) : Reached i m₀ events ⟨.begun, cancelled, m₀⟩
  | listing {wanted : DesiredState} {ts : List Terraform} (cancelled : Bool)
      (hwanted : i.derive? = some wanted) (hts : i.listing m₀ .terraform = .ok ts) :
    Reached i m₀ events ⟨.listing wanted ts, cancelled, m₀⟩
  | applying {wanted : DesiredState} {owned : OwnedObjects} {units : List UnitRun} {m : Memory}
      (cancelled : Bool) (h : Applying i m₀ events wanted owned units m) :
    Reached i m₀ events ⟨.applying (.compute wanted owned) units, cancelled, m⟩
  | refused {cause : PassError} (cancelled : Bool) (hcause : ∀ fs, cause ≠ .apply fs)
      (hcalm : Calm events → ∀ wanted owned, ¬ Surveyed i m₀ wanted owned) :
    Reached i m₀ events ⟨.refused cause, cancelled, m₀⟩

namespace Reached

variable {events : List Event}

/-- The first call. -/
theorem next_begun (he : e ∈ events) (hcancelled : Calm events → cancelled = false) :
    Reached i m₀ events (Run.next (Memory.store clock) i ⟨.begun, cancelled, m₀⟩ e) := by
  cases e with
  | cancel => exact .begun true
  | turn place =>
    simp only [Run.next]
    rcases advance_begun (Memory.store clock) i cancelled place m₀ with
      ⟨cause, s, h, hcause, hs, hwhy⟩ | ⟨wanted, ts, h, hwanted, hts⟩
    · rw [h, show s = m₀ from hs.elim id id]
      refine .refused _ hcause fun hcalm wanted owned hs => ?_
      rcases hwhy with hflag | hnone | ⟨e, herror⟩
      · cases hflag.symm.trans (hcancelled hcalm)
      · cases hnone.symm.trans hs.derived
      · obtain ⟨ts, ss, hts, -⟩ := hs.listed
        cases herror.symm.trans hts
    · rw [h]
      exact .listing _ hwanted hts
  | fault place cause =>
    simp only [Run.next]
    rcases advance_begun (Store.failing cause) i cancelled place m₀ with
      ⟨cause, s, h, hcause, hs, -⟩ | ⟨_, _, -, -, hts⟩
    · rw [h, show s = m₀ from hs.elim id id]
      refine .refused _ hcause fun hcalm => ?_
      obtain ⟨_, h⟩ := hcalm _ he
      cases h
    · cases hts

/-- The second call. -/
theorem next_listing (hm₀ : m₀.Sound) {ts : List Terraform} (he : e ∈ events)
    (hwanted : i.derive? = some wanted) (hts : i.listing m₀ .terraform = .ok ts) :
    Reached i m₀ events
      (Run.next (Memory.store clock) i ⟨.listing wanted ts, cancelled, m₀⟩ e) := by
  cases e with
  | cancel => exact .listing true hwanted hts
  | turn place =>
    simp only [Run.next]
    rcases advance_listing (Memory.store clock) i cancelled place wanted ts m₀ with
      ⟨e, h, herror⟩ | ⟨ss, h, hss⟩
    · rw [h]
      refine .refused _ (fun _ h => by cases h) fun _ wanted owned hs => ?_
      obtain ⟨ts, ss, -, hss, -⟩ := hs.listed
      cases herror.symm.trans hss
    · rw [h]
      refine .applying _ ⟨⟨hwanted, ts, ss, hts, hss, rfl⟩, hm₀, .start .., .start ..,
        fun _ => .start .., fun _ => Blocked.start m₀ _, fun hstalled => ⟨rfl, fun u hu => ?_⟩⟩
      obtain ⟨c, hc, rfl⟩ := List.mem_map.mp hu
      exact hstalled c hc
  | fault place cause =>
    refine .refused _ (fun _ h => by cases h) fun hcalm => ?_
    obtain ⟨_, h⟩ := hcalm _ he
    cases h

/-- A call while a plan is applied. -/
theorem next_applying (hclock : ∀ n, (clock n).ReadsBack) (hm₀ : m₀.Sound) (he : e ∈ events)
    (hcancelled : Calm events → cancelled = false)
    (h : Applying i m₀ events wanted owned units m) :
    Reached i m₀ events (Run.next (Memory.store clock) i
      ⟨.applying (.compute wanted owned) units, cancelled, m⟩ e) := by
  obtain ⟨units', hstage, hmoves, hsound⟩ :=
    Pass.next_applying hclock h.sound i (.compute wanted owned) units cancelled e
  generalize Run.next (Memory.store clock) i _ e = r at *
  obtain ⟨stage, flag, m'⟩ := r
  cases hstage
  refine .applying _ ⟨h.surveyed, hsound, h.follows.moves hmoves,
    h.executed.moves hm₀ h.surveyed hmoves, fun hfaultless => ?_, fun hcalm => ?_,
    fun hstalled => ?_⟩
  · exact (h.progressed hfaultless).moves hm₀ h.surveyed hmoves (hfaultless e he)
  · cases hcancelled hcalm
    exact (h.blocked hcalm).moves hm₀ h.surveyed (h.progressed hcalm.faultless) hmoves
      (hcalm.faultless e he)
  · obtain ⟨rfl, hunits⟩ := h.still hstalled
    exact hmoves.still hunits

theorem next (hclock : ∀ n, (clock n).ReadsBack) (hm₀ : m₀.Sound) {r : Run Memory}
    (he : e ∈ events) (hcancelled : Calm events → r.cancelled = false)
    (h : Reached i m₀ events r) :
    Reached i m₀ events (r.next (Memory.store clock) i e) := by
  cases h with
  | begun => exact next_begun he hcancelled
  | listing _ hwanted hts => exact next_listing hm₀ he hwanted hts
  | applying _ h => exact next_applying hclock hm₀ he hcancelled h
  | refused _ hcause hcalm => cases e <;> exact .refused _ hcause hcalm

theorem cancelled_next (he : e ∈ events) {r : Run Memory} (hcalm : Calm events) :
    (r.next (Memory.store clock) i e).cancelled = r.cancelled := by
  obtain ⟨place, rfl⟩ := hcalm e he
  rfl

/-- **What holds at every moment of a pass**, in whatever order its calls come. -/
theorem inMemory (hclock : ∀ n, (clock n).ReadsBack) (hm₀ : m₀.Sound) (i : Input)
    (events : List Event) : Reached i m₀ events (Run.inMemory clock i m₀ events) := by
  -- a calm pass is not cancelled, and that has to be carried along
  suffices Reached i m₀ events (Run.inMemory clock i m₀ events)
      ∧ (Calm events → (Run.inMemory clock i m₀ events).cancelled = false) from this.1
  refine Run.after_induction
    (p := fun r => Reached i m₀ events r ∧ (Calm events → r.cancelled = false))
    ⟨.begun false, fun _ => rfl⟩ fun r e he h => ⟨h.1.next hclock hm₀ he h.2, fun hcalm => ?_⟩
  rw [cancelled_next he hcalm]
  exact h.2 hcalm

end Reached

/-- A pass keeps a store sound. -/
theorem Reached.sound {r : Run Memory} (hm₀ : m₀.Sound) {events : List Event}
    (h : Reached i m₀ events r) : r.state.Sound := by
  cases h with
  | begun | listing | refused => exact hm₀
  | applying _ h => exact h.sound

/-! ## Passes that do nothing -/

/-- **A store is stable**: every change that a pass would plan is stalled. -/
def Stable (i : Input) (m : Memory) : Prop :=
  ∀ wanted owned, Surveyed i m wanted owned →
    ∀ c ∈ (Plan.compute wanted owned).changes, Stalled m c.steps

/-- **A pass does not change a stable store**, in whatever order its calls come,
whichever of them fail, and whenever it is cancelled. -/
theorem Reached.state_of_stable {events : List Event} {r : Run Memory} (hstable : Stable i m₀)
    (h : Reached i m₀ events r) : r.state = m₀ := by
  cases h with
  | begun | listing | refused => rfl
  | applying _ h => exact (h.still (hstable _ _ h.surveyed)).1

/-! ## A stray under a derived name

A small case to run passes on. The template and its source live in one
namespace, and one pull request targets the tracked branch; and the store holds
an owned source that has the name of the source derived for the pull request, but
does not say to which pull request it belongs. -/

/-- A clock that stands still. -/
def stoppedClock : Nat → Timestamp := fun _ =>
  { year := 2024, month := 5, day := 6, hour := 12, minute := 0, second := 0, nanosecond := 0 }

theorem readsBack_stoppedClock (n : Nat) : (stoppedClock n).ReadsBack := by
  show (stoppedClock 0).ReadsBack
  decide

/-- A template, its source, and one pull request. -/
def sampleInput : Input where
  template :=
    { metadata := { name := "plan", namespaceName := "team", labels := .ofList [("app", "web")] }
      spec := ({ sourceRef := { kind := "GitRepository", name := "repo" } } : TerraformSpec) }
  source :=
    { metadata := { name := "repo", namespaceName := "team" }
      spec := ({ url := "https://example.com/repo", reference := some { branch := some "main" } } :
        GitRepositorySpec) }
  pullRequests :=
    [{ repository := { org := "org", name := "repo" }, number := 7, baseBranch := "main",
       headBranch := "topic" }]

theorem readable_sampleInput : sampleInput.Readable where
  template := by
    refine Object.readable_of_tidy ⟨fun _ _ hj => ?_, fun _ hj => ?_⟩ fun _ ht => ?_
    · cases hj
    · cases hj
    · cases ht
  source := by
    refine Object.readable_of_tidy ⟨⟨fun _ _ hj => ?_, fun r hr => ?_⟩, fun _ hj => ?_⟩
      fun _ ht => ?_
    · cases hj
    · cases hr
      exact fun _ _ hj => by cases hj
    · cases hj
    · cases ht

theorem commaFree_sampleInput : sampleInput.CommaFree := by
  intro k
  cases k <;> decide

/-- An owned source that names no pull request. -/
def sampleStray : GitRepository where
  metadata :=
    { name := "repo-topic-7", namespaceName := "team",
      labels := .ofList [(ownerLabel, "true"), (templateLabel, "plan")] }
  spec := ({ url := "https://example.com/other" } : GitRepositorySpec)

/-- A store with the stray. -/
def strayedMemory : Memory :=
  ((Memory.store stoppedClock).create .gitRepository sampleStray {}).state

theorem reachable_strayedMemory : Memory.Reachable stoppedClock strayedMemory :=
  .create .empty .gitRepository sampleStray

end PlanSync.Pass
