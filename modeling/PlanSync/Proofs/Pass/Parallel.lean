import PlanSync.Proofs.Store.Content
import PlanSync.Proofs.Pass.Course

/-!
# Units that do not meet

If every object is the target of one step of a plan at most, it does not matter
in which order the units of the plan take their turns: every unit comes to the
end that it comes to when the units run one after the other, the same is
reported, and the same objects are left (`Pass.parallel_eq_sequential`).

Turns do not commute on the nose, for the store counts its writes and stamps
them with the count. What carries the proof is instead that a step is *answered*
by what stands in the cell of its object (`Step.answer`, `Step.run_cell`), and
that nothing but the step itself changes the cell. So the end of a unit can be
foreseen from the store as it was found (`UnitRun.foreseen`), and no turn changes
what is foreseen (`Pass.Foretold`). What the store counts decides nothing: an
update is refused for a version that was found, and never for one that was
assigned on the way.
-/

namespace PlanSync

/-! ## What answers a step -/

namespace Step

/-- **What a store answers to a step**, told from what stands in the cell of its
object. Deleting is never refused. -/
def answer : Step → Option Json → Except StoreError Unit
  | create _ o, cell => do
    Naming.checkKey o.key
    if cell.isSome then .error (.alreadyExists o.key) else .ok ()
  | update k _ o, cell => do
    Naming.checkKey o.key
    match cell with
    | none => .error (.notFound o.key)
    | some j => do
      let stored ← Memory.decode k j
      Memory.checkVersion stored o
  | delete _, _ => .ok ()

section Answer

variable {k : Kind} {o : Object k} {cell : Option Json}

/-- **A creation is accepted** where nothing stands, if its key can be stored. -/
theorem answer_create_eq_ok_iff :
    (create k o).answer cell = .ok () ↔ Naming.checkKey o.key = .ok () ∧ cell = none := by
  show (Naming.checkKey o.key >>= fun _ => _) = _ ↔ _
  rw [Answer.bind_eq_ok]
  cases cell with
  | none => exact ⟨fun ⟨_, hkey, _⟩ => ⟨hkey, rfl⟩, fun ⟨hkey, _⟩ => ⟨(), hkey, rfl⟩⟩
  | some j => exact ⟨fun ⟨_, _, h⟩ => (by cases h), fun ⟨_, h⟩ => (by cases h)⟩

theorem answer_create_of_some (hkey : Naming.checkKey o.key = .ok ()) (j : Json) :
    (create k o).answer (some j) = .error (.alreadyExists o.key) := by
  show (Naming.checkKey o.key >>= fun _ => _) = _
  rw [hkey]
  rfl

/-- What an update is answered hangs on the version of what stands there. -/
theorem answer_update_of_some {current stored : Object k} {j : Json}
    (hkey : Naming.checkKey o.key = .ok ()) (hdecode : Memory.decode k j = .ok stored) :
    (update k current o).answer (some j) = Memory.checkVersion stored o := by
  show (Naming.checkKey o.key >>= fun _ => Memory.decode k j >>= fun _ => _) = _
  rw [hkey, hdecode]
  rfl

end Answer

/-- The content that a step leaves under the key of its object. -/
def content : Step → Option Json
  | create _ o => some o.content
  | update _ _ o => some o.content
  | delete _ => none

/-- **A step has been answered**: if it was accepted it leaves its content and
touches no other cell, and if it was refused it leaves the store as it was. -/
def Answered (s : Step) (m : Memory) (r : Outcome Memory StoreError Unit) : Prop :=
  match s.answer (m.cell s.key) with
  | .ok () => r.result = .ok () ∧ r.state.content s.key = s.content
      ∧ ∀ key, key ≠ s.key → r.state.cell key = m.cell key
  | .error e => r.result = .error e ∧ r.state = m

variable {clock : Nat → Timestamp} {m : Memory} {k : Kind}

/-- An object that is written, or an error, as the answer has it. -/
theorem answered_of_commit {s : Step} {o : Object k} (hkey : s.key = o.key)
    (hcontent : s.content = some o.content) {f : Memory → Except StoreError (Object k × Memory)}
    {created : Option Timestamp}
    (hf : f m = (s.answer (m.cell s.key)).map fun _ => m.write o created)
    {call : Call Memory (Object k)} (hcall : call m = Memory.commit f m) :
    s.Answered m ((do let _ ← call; return () : Call Memory Unit) m) := by
  unfold Answered
  cases hanswer : s.answer (m.cell s.key) with
  | ok _ =>
    rw [hanswer] at hf
    rw [discard_ok (hcall.trans (Memory.commit_ok hf)), hkey, hcontent]
    exact ⟨rfl, Memory.content_write_self m o created, fun _ => Memory.cell_write_of_ne⟩
  | error e =>
    rw [hanswer] at hf
    rw [discard_error (hcall.trans (Memory.commit_error hf))]
    exact ⟨rfl, rfl⟩

theorem create_eq_answer (m : Memory) (now : Timestamp) (o : Object k) :
    m.create now o
      = ((create k o).answer (m.cell o.key)).map fun _ => m.write o (some now) := by
  show (Naming.checkKey o.key >>= fun _ => _) = Except.map _ (Naming.checkKey o.key >>= fun _ => _)
  cases Naming.checkKey o.key with
  | error e => rfl
  | ok _ =>
    show (if m.objects.contains o.key = true then _ else _)
      = Except.map _ (if (m.cell o.key).isSome = true then _ else _)
    unfold SortedMap.contains Memory.cell
    split <;> rfl

/-- What an update writes keeps the time of creation that it finds. -/
theorem exists_update_eq_answer (m : Memory) (current o : Object k) :
    ∃ created, m.update o
      = ((update k current o).answer (m.cell o.key)).map fun _ => m.write o created := by
  show ∃ created, (Naming.checkKey o.key >>= fun _ => _)
    = Except.map (fun _ => m.write o created) (Naming.checkKey o.key >>= fun _ => _)
  cases Naming.checkKey o.key with
  | error e => exact ⟨none, rfl⟩
  | ok _ =>
    show ∃ created, (match m.cell o.key with
        | none => _
        | some j => _)
      = Except.map (fun _ => m.write o created) (match m.cell o.key with
        | none => _
        | some j => _)
    cases m.cell o.key with
    | none => exact ⟨none, rfl⟩
    | some j =>
      show ∃ created, (Memory.decode k j >>= fun _ => _)
        = Except.map (fun _ => m.write o created) (Memory.decode k j >>= fun _ => _)
      cases Memory.decode k j with
      | error e => exact ⟨none, rfl⟩
      | ok stored =>
        refine ⟨stored.metadata.creationTimestamp, ?_⟩
        show (Memory.checkVersion stored o >>= fun _ => _)
          = Except.map _ (Memory.checkVersion stored o)
        cases Memory.checkVersion stored o <;> rfl

/-- **A step is answered by the cell of its object**, in any store. -/
theorem run_cell (clock : Nat → Timestamp) (m : Memory) (s : Step) :
    s.Answered m (s.run (Memory.store clock) (fun _ => false) m) := by
  rw [run_of_not_cancelled s rfl]
  cases s with
  | create k o =>
    rw [settle_of_ne_delete fun h => by cases h]
    exact answered_of_commit rfl rfl (create_eq_answer m _ o) (Memory.store_create o m)
  | update k current o =>
    rw [settle_of_ne_delete fun h => by cases h]
    obtain ⟨created, hupdate⟩ := exists_update_eq_answer m current o
    exact answered_of_commit rfl rfl hupdate (Memory.store_update o m)
  | delete key =>
    show _ ∧ _ ∧ _
    rcases Memory.delete_cases clock m key with ⟨-, h⟩ | ⟨hnone, h⟩
    · rw [show (delete key).issue (Memory.store clock) m = _ from h]
      refine ⟨rfl, ?_, fun l hl => (Memory.cell_drop m key l).trans (if_neg hl)⟩
      exact congrArg _ ((Memory.cell_drop m key key).trans (if_pos rfl))
    · rw [show (delete key).issue (Memory.store clock) m = _ from h]
      exact ⟨rfl, congrArg _ hnone, fun _ _ => rfl⟩

/-- The error of a step is what it is answered. -/
theorem answer_of_error {s : Step} {e : StoreError}
    (h : (s.run (Memory.store clock) (fun _ => false) m).result = .error e) :
    s.answer (m.cell s.key) = .error e := by
  have hanswered := run_cell clock m s
  unfold Answered at hanswered
  split at hanswered
  · cases hanswered.1.symm.trans h
  · next hanswer => rw [hanswer, Except.error.inj (hanswered.1.symm.trans h)]

end Step

/-! ## What is foreseen -/

namespace UnitRun

/-- A unit after further steps, each answered by a cell as it is found, up to the
first that is refused. -/
def foresee (m : Memory) : List Step → UnitRun → UnitRun
  | [], u => u
  | step :: rest, u =>
    match step.answer (m.cell step.key) with
    | .ok () => foresee m rest (u.after step rest (.ok ()))
    | .error e => u.after step rest (.error e)

/-- **The end of a unit, as it can be foreseen** from a store, if nobody else
changes what the unit is about. -/
def foreseen (m : Memory) (u : UnitRun) : UnitRun :=
  match u.failure with
  | none => foresee m u.remaining u
  | some _ => u

variable {m : Memory} {u : UnitRun}

/-- A finished unit has come to its end. -/
theorem foreseen_of_isFinished (h : u.isFinished = true) : u.foreseen m = u := by
  unfold foreseen
  split
  · next hready =>
    rw [Pass.remaining_of_isFinished h hready]
    rfl
  · rfl

/-- **A step that is answered by its cell changes nothing that is foreseen.** -/
theorem foreseen_after {step : Step} {rest : List Step} (hready : u.failure = none)
    (hnext : u.remaining = step :: rest) :
    (u.after step rest (step.answer (m.cell step.key))).foreseen m = u.foreseen m := by
  have hu : u.foreseen m = foresee m (step :: rest) u := by
    unfold foreseen
    rw [hready, hnext]
  rw [hu, foresee]
  cases step.answer (m.cell step.key) with
  | error e => rfl
  | ok _ =>
    show (match u.failure with
      | none => foresee m rest (u.after step rest (.ok ()))
      | some _ => u.after step rest (.ok ())) = foresee m rest (u.after step rest (.ok ()))
    rw [hready]

/-- **If no failure is foreseen, every step will be accepted.** -/
theorem answer_of_failure_foreseen (h : (u.foreseen m).failure = none) :
    ∀ s ∈ u.remaining, s.answer (m.cell s.key) = .ok () := by
  have hforesee : ∀ steps (v : UnitRun), (foresee m steps v).failure = none →
      ∀ s ∈ steps, s.answer (m.cell s.key) = .ok () := by
    intro steps
    induction steps with
    | nil => exact fun _ _ _ hs => by cases hs
    | cons step rest ih =>
      intro v hv
      rw [foresee] at hv
      cases hanswer : step.answer (m.cell step.key) with
      | error e =>
        rw [hanswer] at hv
        cases hv
      | ok _ =>
        rw [hanswer] at hv
        exact List.forall_mem_cons.mpr ⟨hanswer, ih _ hv⟩
  unfold foreseen at h
  split at h
  · exact hforesee _ u h
  · next hfailed => cases hfailed.symm.trans h

end UnitRun

namespace Pass

variable {clock : Nat → Timestamp} {i : Input} {m₀ m m' : Memory} {plan : Plan}
  {units₀ units units' : List UnitRun}

/-! ## Turns -/

/-- **Units have run as foretold** from a store: what is foreseen of them is what
was foreseen at first, the steps that are no longer to come have left their
content, and where there was none nothing has changed. -/
structure Foretold (m₀ : Memory) (units₀ units : List UnitRun) (m : Memory) : Prop where
  foreseen : units.map (UnitRun.foreseen m₀) = units₀.map (UnitRun.foreseen m₀)
  done : ∃ done, (done ++ pending units).Perm (pending units₀)
    ∧ (∀ s ∈ done, m.content s.key = s.content)
    ∧ ∀ key, (∀ s ∈ done, s.key ≠ key) → m.cell key = m₀.cell key

/-- No two steps are about one object. -/
def Unshared (steps : List Step) : Prop := steps.Pairwise fun a b => a.key ≠ b.key

namespace Foretold

theorem start (m₀ : Memory) (units₀ : List UnitRun) : Foretold m₀ units₀ units₀ m₀ :=
  ⟨rfl, [], .refl _, fun _ hs => (by cases hs), fun _ _ => rfl⟩

/-- **A turn goes as foretold.** -/
theorem turn (hunshared : Unshared (pending units₀)) {before later : List UnitRun} {u : UnitRun}
    {step : Step} {rest : List Step} (h : Foretold m₀ units₀ (before ++ u :: later) m)
    (hready : u.failure = none) (hnext : u.remaining = step :: rest) {r} (hr : step.Answered m r) :
    Foretold m₀ units₀ (before ++ u.after step rest r.result :: later) r.state := by
  obtain ⟨done, hperm, hleft, hframe⟩ := h.done
  have hpending := pending_after_ok before later hnext
  have hall : (done ++ step :: pending (before ++ u.after step rest (.ok ()) :: later)).Perm
      (pending units₀) := (hpending.symm.append_left done).trans hperm
  -- no step that was done is about the object of this one, so its cell is as it
  -- was found
  have hne : ∀ s ∈ done, s.key ≠ step.key := fun s hs =>
    (List.pairwise_append.mp ((hall.pairwise_iff fun h => h.symm).mpr hunshared)).2.2 s hs step
      List.mem_cons_self
  unfold Step.Answered at hr
  rw [hframe step.key hne] at hr
  have hforeseen : ∀ result, result = step.answer (m₀.cell step.key) →
      (before ++ u.after step rest result :: later).map (UnitRun.foreseen m₀)
        = units₀.map (UnitRun.foreseen m₀) := by
    rintro result rfl
    rw [← h.foreseen]
    simp only [List.map_append, List.map_cons, UnitRun.foreseen_after hready hnext]
  cases hanswer : step.answer (m₀.cell step.key) with
  | ok _ =>
    rw [hanswer] at hr
    obtain ⟨hok, hcontent, hsame⟩ := hr
    rw [hok]
    refine ⟨hforeseen _ hanswer.symm, step :: done, List.perm_middle.symm.trans hall, ?_, ?_⟩
    · refine List.forall_mem_cons.mpr ⟨hcontent, fun s hs => ?_⟩
      rw [Memory.content_of_cell_eq (hsame s.key (hne s hs))]
      exact hleft s hs
    · intro key hkey
      rw [List.forall_mem_cons] at hkey
      rw [hsame key hkey.1.symm]
      exact hframe key hkey.2
  | error e =>
    rw [hanswer] at hr
    obtain ⟨herror, hstate⟩ := hr
    rw [herror, hstate]
    refine ⟨hforeseen _ hanswer.symm, done, ?_, hleft, hframe⟩
    rw [pending_after_error]
    exact hperm

/-- **Units that are finished have come to the end that was foreseen.** -/
theorem eq_foreseen (h : Foretold m₀ units₀ units m) (hfinished : ∀ u ∈ units, u.isFinished = true) :
    units = units₀.map (UnitRun.foreseen m₀) := by
  rw [← h.foreseen]
  exact (List.map_id units).symm.trans
    (List.map_congr_left fun u hu => (UnitRun.foreseen_of_isFinished (hfinished u hu)).symm)

/-- **Where the same units have come to the same end, the same objects are
left.** -/
theorem sameContent (h : Foretold m₀ units₀ units m) (h' : Foretold m₀ units₀ units m') :
    m.SameContent m' := by
  obtain ⟨done, hperm, hleft, hframe⟩ := h.done
  obtain ⟨done', hperm', hleft', hframe'⟩ := h'.done
  have hsame : done.Perm done' :=
    (List.perm_append_right_iff _).mp (hperm.trans hperm'.symm)
  intro key
  by_cases htouched : ∃ s ∈ done, s.key = key
  · obtain ⟨s, hs, rfl⟩ := htouched
    rw [hleft s hs, hleft' s (hsame.mem_iff.mp hs)]
  · have hnone : ∀ s ∈ done, s.key ≠ key := fun s hs hkey => htouched ⟨s, hs, hkey⟩
    refine Memory.content_of_cell_eq ((hframe key hnone).trans (hframe' key ?_).symm)
    exact fun s hs => hnone s (hsame.mem_iff.mpr hs)

end Foretold

/-! ## Runs of a plan -/

/-- A run of units stays one, and goes as foretold. -/
theorem Foretold.after_turns (clock : Nat → Timestamp) (m₀ : Memory)
    (hunshared : Unshared (pending units₀)) (i : Input) (plan : Plan) (places : List Nat) :
    ∃ units, ∃ m, Run.after (Memory.store clock) i ⟨.applying plan units₀, false, m₀⟩
        (places.map .turn) = ⟨.applying plan units, false, m⟩
      ∧ Foretold m₀ units₀ units m := by
  refine Run.after_induction
    (p := fun r => ∃ units, ∃ m, r = ⟨.applying plan units, false, m⟩ ∧ Foretold m₀ units₀ units m)
    ⟨units₀, m₀, rfl, .start m₀ units₀⟩ ?_
  rintro _ e he ⟨units, m, rfl, h⟩
  obtain ⟨place, -, rfl⟩ := List.mem_map.mp he
  simp only [Run.next]
  rcases advance_applying (Memory.store clock) i false plan units place m with
    hidle | ⟨before, later, u, step, rest, rfl, hready, hnext, hadvance⟩
  · exact ⟨units, m, by rw [hidle], h⟩
  · exact ⟨_, _, by rw [hadvance], h.turn hunshared hready hnext (Step.run_cell clock m step)⟩

/-- **Units that run one after the other go as foretold** as well. -/
theorem foretold_runUnits (clock : Nat → Timestamp) (i : Input) (m₀ : Memory)
    (hunshared : Unshared (pending units₀)) :
    Foretold m₀ units₀ (Plan.runUnits (Memory.store clock) (fun _ => false) units₀ m₀).1
      (Plan.runUnits (Memory.store clock) (fun _ => false) units₀ m₀).2.1 := by
  obtain ⟨places, hplaces⟩ :=
    exists_turns_of_runUnits (Memory.store clock) i {} [] units₀ m₀
  obtain ⟨units, m, hrun, h⟩ := Foretold.after_turns clock m₀ hunshared i {} places
  have hsame := hrun.symm.trans hplaces
  cases hsame
  exact h

/-- **Units that take their turns in any order end like units that run one after
the other.** Let no two steps of a plan be about one object, and let its units
take turns on a store in any order, until all are finished. Then every unit has
come to the same end as when the plan is applied one unit after the other, with
the same report: the summary, the failures in the order of the plan, and what
the caller is told on the way. And the same objects are left, apart from resource
versions and times of creation. -/
theorem parallel_eq_sequential (clock : Nat → Timestamp) (m : Memory) (i : Input) (plan : Plan)
    (hunshared : Unshared plan.steps) (places : List Nat) :
    let r := Run.after (Memory.store clock) i ⟨.applying plan (plan.changes.map .start), false, m⟩
      (places.map .turn)
    (r.stage.result? i).isSome = true →
      ∃ units, r.stage = .applying plan units
        ∧ units = (Plan.runUnits (Memory.store clock) (fun _ => false)
            (plan.changes.map .start) m).1
        ∧ ApplyReport.ofUnits units = (plan.apply (Memory.store clock) (fun _ => false) m).1
        ∧ r.state.SameContent (plan.apply (Memory.store clock) (fun _ => false) m).2.1 := by
  intro r hresult
  have hpending : Unshared (pending (plan.changes.map .start)) := by
    rw [pending_start]
    exact hunshared
  obtain ⟨units, m', hr, h⟩ :=
    Foretold.after_turns clock m hpending i plan places
  have hfinished : ∀ u ∈ units, u.isFinished = true := by
    rw [show r = _ from hr] at hresult
    obtain ⟨outcome, houtcome⟩ := Option.isSome_iff_exists.mp hresult
    exact (result?_applying houtcome).1
  have hsequential := foretold_runUnits clock i m hpending
  obtain rfl := (h.eq_foreseen hfinished).trans
    (hsequential.eq_foreseen (isFinished_runUnits _ _ _)).symm
  rw [show r = _ from hr]
  exact ⟨_, rfl, rfl, rfl, h.sameContent hsequential⟩

/-- A plan with a unit that creates two objects, one that fails at an update of
what is not there, and one that deletes a stray. -/
def samplePlan : Plan where
  changes :=
    [⟨some (.of "topic" 7),
        [.create .gitRepository sampleInput.source, .create .terraform sampleInput.template]⟩,
      ⟨some (.of "other" 8), [.update .gitRepository otherSource otherSource]⟩,
      ⟨none, [.delete sampleStray.key]⟩]
where
  otherSource : GitRepository :=
    { metadata := { name := "repo-other-8", namespaceName := "team" }
      spec := ({ url := "https://example.com/repo" } : GitRepositorySpec) }

/-- The stray goes first, and the update fails between the two creations. -/
theorem parallel_eq_sequential_with_failure :
    let r := Run.after (Memory.store stoppedClock) sampleInput
      ⟨.applying samplePlan (samplePlan.changes.map .start), false, strayedMemory⟩
      ([2, 0, 1, 0].map .turn)
    Unshared samplePlan.steps ∧ (r.stage.result? sampleInput).isSome = true
      ∧ ∃ units, r.stage = .applying samplePlan units
        ∧ units = (Plan.runUnits (Memory.store stoppedClock) (fun _ => false)
            (samplePlan.changes.map .start) strayedMemory).1
        ∧ ApplyReport.ofUnits units
          = (samplePlan.apply (Memory.store stoppedClock) (fun _ => false) strayedMemory).1
        ∧ r.state.SameContent
          (samplePlan.apply (Memory.store stoppedClock) (fun _ => false) strayedMemory).2.1 := by
  intro r
  have hunshared : Unshared samplePlan.steps := by
    unfold Unshared
    decide +kernel
  have hresult : (r.stage.result? sampleInput).isSome = true := by decide +kernel
  exact ⟨hunshared, hresult,
    parallel_eq_sequential stoppedClock strayedMemory sampleInput samplePlan hunshared _ hresult⟩

end Pass

end PlanSync
