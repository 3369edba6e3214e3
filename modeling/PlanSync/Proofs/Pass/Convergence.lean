import PlanSync.Proofs.Pass.Joint
import PlanSync.Proofs.Pass.Recovery

/-!
# Concurrent passes converge

Passes with the same inputs that run at the same time end with the objects that
one of them would have left alone, and all they may report as failed is that
another one was faster (`Pass.concurrent_passes_converge`). This holds whenever a
single pass, its units run one after the other, has no step that fails.

That a single pass succeeds says that nothing stands in the way of its plan
(`Pass.unobstructed_of_sequential`): its strays go last, so whatever it creates
had a free name from the start.

A unit that loses a race stops half way, and what it leaves undone has to be done
by somebody else (`Pass.Joint.Agrees.done_of_finished`). It stops at the source
of a branch, and what it leaves is the configuration. The pass that was faster
with the source has the configuration among its own steps, and a unit that has
come past the source has nothing left to lose a race at.
-/

namespace PlanSync

namespace Plan

variable {σ : Type} {k : Kind} {wanted : DesiredState} {owned : OwnedObjects}

/-- Units run one after the other, the first of them first. -/
theorem runUnits_append (store : Store σ) (flag : σ → Bool) (us vs : List UnitRun) (s : σ) :
    (runUnits store flag (us ++ vs) s).1
      = (runUnits store flag us s).1 ++ (runUnits store flag vs (runUnits store flag us s).2.1).1 := by
  induction us generalizing s with
  | nil => rfl
  | cons u us ih =>
    simp only [List.cons_append, runUnits]
    rw [ih]

/-- **Before a step that is not the last there is none**: it is for the source, and
the other for the configuration. -/
theorem eq_nil_of_convergeSteps {current : OwnedPair} {desired : DesiredPair}
    {before rest : List Step} {s t : Step}
    (h : convergeSteps current desired = before ++ t :: rest) (hs : s ∈ rest) : before = [] := by
  have hordered := pairwise_convergeSteps current desired
  rw [h] at hordered
  obtain ⟨-, hordered, hbefore⟩ := List.pairwise_append.mp hordered
  have hsource := ((List.pairwise_cons.mp hordered).1 s hs).1
  refine List.eq_nil_iff_forall_not_mem.mpr fun a ha => ?_
  cases (hbefore a ha t List.mem_cons_self).2.symm.trans hsource

/-- **A step about a branch that writes is among those that converge it.** -/
theorem Planned.mem_convergeSteps {i : Pass.Input} {m : Memory} (hm : m.Sound)
    (h : Pass.Surveyed i m wanted owned) {s : Step} (hs : Planned wanted owned s)
    (hop : s.operation ≠ .delete) {id : BranchId} {pair : DesiredPair}
    (hp : wanted.pairs.get? id = some pair) (hkey : s.key = i.derivedKey k id) :
    s ∈ convergeSteps (owned.pairOf id) pair := by
  obtain ⟨c, hc, hmem⟩ := List.mem_flatMap.mp (mem_steps.mpr hs)
  obtain ⟨id', pair', hp', rfl⟩ := (mem_changes.mp hc).of_ne_delete hmem hop
  obtain ⟨l, hconverge⟩ := Plan.mem_convergeSteps.mp hmem
  obtain ⟨-, rfl⟩ := Pass.Input.derivedKey_injective
    ((key_of_converge? hm h hp' hconverge).symm.trans hkey)
  cases hp'.symm.trans hp
  exact hmem

end Plan

namespace Pass

variable {clock : Nat → Timestamp} {i : Input} {m₀ m : Memory} {wanted : DesiredState}
  {owned : OwnedObjects} {plan : Plan} {units : List UnitRun} {events : List Event}

/-! ## A single pass -/

/-- Planning writes nothing. -/
theorem plan_state (clock : Nat → Timestamp) (i : Input) (m : Memory) :
    (Pass.plan (Memory.store clock) i.template i.source i.pullRequests m).state = m := by
  have hlist : ∀ k, ((Memory.store clock).list k i.template.namespaceName
      (ownerSelector i.template.name) m) = { result := i.listing m k, state := m } := fun _ => rfl
  simp only [Pass.plan, owned, OwnedObjects.listIn, bind, Action.andThen, Action.ofExcept,
    Action.report, Action.mapError, pure, Action.done, hlist]
  cases desired i.template i.source i.pullRequests with
  | error e => rfl
  | ok wanted =>
    cases i.listing m .terraform with
    | error e => rfl
    | ok ts =>
      dsimp only
      cases i.listing m .gitRepository with
      | error e => rfl
      | ok ss => rfl

/-- A pass that applies a plan applies the one that was called for. -/
theorem Reached.of_stage {r : Run Memory} (h : Reached i m₀ events r)
    (hstage : r.stage = .applying plan units) (hs : Surveyed i m₀ wanted owned) :
    plan = .compute wanted owned ∧ Applying i m₀ events wanted owned units r.state := by
  cases h with
  | begun | listing | refused => cases hstage
  | applying _ h =>
    obtain ⟨rfl, rfl⟩ := h.surveyed.unique hs
    cases hstage
    exact ⟨rfl, h⟩

/-- **If no unit fails, what is created had a free name from the start**, when the
units run one after the other. -/
theorem admits_of_sequential (hm₀ : m₀.Sound) (hs : Surveyed i m₀ wanted owned)
    (hfailure : ∀ u ∈ (Plan.runUnits (Memory.store clock) (fun _ => false)
      ((Plan.compute wanted owned).changes.map .start) m₀).1, u.failure = none) {s : Step}
    (hplanned : Plan.Planned wanted owned s) (hcreate : s.operation = .create) :
    m₀.Admits s.key := by
  -- the units of branches run before any stray is deleted, and go as foretold
  have hunshared : Unshared (pending ((Plan.branchChanges wanted owned).map .start)) := by
    have hpending : pending ((Plan.branchChanges wanted owned).map .start)
        = ((Plan.branchSteps wanted owned).mergeSort fun a b => a.1 ≤ b.1).flatMap Prod.snd := by
      unfold pending Plan.branchChanges
      rw [List.flatMap_map, List.flatMap_map]
      rfl
    rw [hpending]
    exact (((List.mergeSort_perm _ _).flatMap_right Prod.snd).pairwise_iff fun h => h.symm).mpr
      (Plan.pairwise_allBranchSteps hm₀ hs)
  have hforeseen := (foretold_runUnits clock i m₀ hunshared).eq_foreseen (isFinished_runUnits _ _ _)
  rw [Plan.changes_eq, List.map_append, Plan.runUnits_append, List.forall_mem_append, hforeseen] at hfailure
  obtain ⟨c, hc, hmem⟩ := List.mem_flatMap.mp (Plan.mem_steps.mpr hplanned)
  rw [Plan.changes_eq] at hc
  rcases List.mem_append.mp hc with hc | hc
  · have hanswer := UnitRun.answer_of_failure_foreseen
      (hfailure.1 _ (List.mem_map_of_mem (List.mem_map_of_mem hc))) s hmem
    cases s with
    | create k o => exact Step.answer_create_eq_ok_iff.mp hanswer
    | update | delete => cases hcreate
  · obtain ⟨key, -, rfl⟩ := List.mem_map.mp hc
    cases List.mem_singleton.mp hmem
    cases hcreate

/-- **Nothing stands in the way of a pass that has no step that fails**, and it
attains its plan. -/
theorem unobstructed_of_sequential (hclock : ∀ n, (clock n).ReadsBack) (hm₀ : m₀.Sound)
    (hi : i.Readable) (hcomma : i.CommaFree) (htell : i.Telling) (hs : Surveyed i m₀ wanted owned)
    (hno : Unfailing i (reconcile (Memory.store clock) (fun _ => false) i.template i.source
      i.pullRequests m₀).1.outcome) :
    Unobstructed i m₀ wanted owned
      ∧ m₀.Attains (Plan.Planned wanted owned) (reconcile (Memory.store clock) (fun _ => false)
          i.template i.source i.pullRequests m₀).2.1 := by
  obtain ⟨places, hplaces⟩ := exists_turns_of_plan (Memory.store clock) i m₀ hs.plan_result
  obtain ⟨hstate, hresult, -⟩ := reconcile_of_plan (Memory.store clock) i
    (fun _ => false) rfl hs.plan_result
  rw [plan_state] at hplaces hstate hresult
  have hrun : Run.inMemory clock i m₀ (places.map .turn) = _ := hplaces
  obtain ⟨-, happlying⟩ := (Reached.inMemory hclock hm₀ i (places.map .turn)).of_stage
    (congrArg Run.stage hrun) hs
  rw [hrun] at happlying
  have hremaining := happlying.remaining_eq_nil hresult (hno.noStepFailed hresult)
  have hfailure : ∀ u ∈ (Plan.runUnits (Memory.store clock) (fun _ => false)
      ((Plan.compute wanted owned).changes.map .start) m₀).1, u.failure = none := by
    intro u hu
    refine Option.eq_none_iff_forall_ne_some.mpr fun f hf => ?_
    obtain ⟨step, rest, -, hnext, -⟩ := (happlying.follows.orderly u hu).failed f hf
    cases (hremaining u hu).symm.trans hnext
  have hu : Unobstructed i m₀ wanted owned :=
    ⟨hi, hcomma, htell, hm₀, hs, fun _ => admits_of_sequential hm₀ hs hfailure⟩
  have hafter := (happlying.aftermath hm₀ hi (calm_turns places).faultless hremaining).attains
  refine ⟨hu, ?_⟩
  rw [hstate]
  exact ⟨fun key hkey => hafter.frame key fun s hs => hkey s hs.planned,
    fun s hs => hafter.left s (hu.lasting hs)⟩

/-! ## Units that give way -/

/-- **A unit has given way**: it has done nothing for its branch, of which another
unit has done a step. -/
def GaveWay (wanted : DesiredState) (owned : OwnedObjects) (done : Step → Prop) (u : UnitRun) :
    Prop :=
  (∃ id pair t, wanted.pairs.get? id = some pair
    ∧ u.change.steps = Plan.convergeSteps (owned.pairOf id) pair
    ∧ t ∈ Plan.convergeSteps (owned.pairOf id) pair ∧ done t)
  ∧ ∀ s, ¬ u.HasDone s

/-- **A unit that ends before a step that nobody has done has given way**: it has
failed at the source, of which that step is the configuration. -/
theorem gaveWay_of_not_done {done : Step → Prop} {u : UnitRun}
    (hchange : Plan.Changes wanted owned u.change) (horderly : Orderly u)
    (hfinished : u.isFinished = true)
    (hfailed : ∀ f, u.failure = some f → (∀ t ∈ u.remaining.head?, done t) ∧ Overtaken f)
    (hdone : ∀ s, u.HasDone s → done s) {s : Step} (hs : s ∈ u.change.steps) (hnot : ¬ done s) :
    GaveWay wanted owned done u := by
  obtain ⟨before, hsteps⟩ := horderly.ahead
  have hremaining : s ∈ u.remaining := by
    rw [hsteps] at hs
    exact (List.mem_append.mp hs).resolve_left fun hs => hnot (hdone s ⟨before, hsteps, hs⟩)
  cases hfailure : u.failure with
  | none =>
    rw [remaining_of_isFinished hfinished hfailure] at hremaining
    cases hremaining
  | some f =>
    obtain ⟨t, rest, cause, hnext, rfl⟩ := horderly.failed f hfailure
    obtain ⟨ht, hwhy⟩ := hfailed _ hfailure
    have ht : done t := ht t (congrArg List.head? hnext)
    rw [hnext] at hsteps hremaining
    have hrest : s ∈ rest := (List.mem_cons.mp hremaining).resolve_left fun heq => hnot (heq ▸ ht)
    have hmem : t ∈ u.change.steps := hsteps ▸ List.mem_append_cons_self
    obtain ⟨id, pair, hp, hconverge⟩ := hchange.of_ne_delete hmem hwhy.ne_delete
    have hconverge : u.change.steps = Plan.convergeSteps (owned.pairOf id) pair :=
      congrArg BranchChange.steps hconverge
    refine ⟨⟨id, pair, t, hp, hconverge, hconverge ▸ hmem, ht⟩, fun a ha => ?_⟩
    have ha := (UnitRun.hasDone_iff (hnext ▸ hsteps)).mp ha
    rw [Plan.eq_nil_of_convergeSteps (hconverge.symm.trans hsteps) hrest] at ha
    cases ha

namespace Joint.Agrees

variable {ι : Type} {r : Joint ι} (h : r.Agrees i m₀ wanted owned)
include h

/-- **A pass that has ended gave way** wherever it had a step that nobody has done. -/
theorem exists_gaveWay (hu : Unobstructed i m₀ wanted owned) {p : ι}
    (hresult : ((r.stage p).result? i).isSome = true) {s : Step}
    (hs : Plan.Planned wanted owned s) (hnot : ¬ r.Done s) :
    ∃ owned' m units, r.stage p = .applying (.compute wanted owned') units ∧ m.Sound
      ∧ Surveyed i m wanted owned' ∧ Plan.Planned wanted owned' s
      ∧ units.map UnitRun.change = (Plan.compute wanted owned').changes
      ∧ ∀ u ∈ units, s ∈ u.change.steps → GaveWay wanted owned' r.Done u := by
  obtain ⟨outcome, houtcome⟩ := Option.isSome_iff_exists.mp hresult
  have hcourse := h.stages p
  cases hp : r.stage p with
  | begun | listing =>
    rw [hp] at houtcome
    cases houtcome
  | refused =>
    rw [hp] at hcourse
    cases hcourse
  | applying plan units =>
    rw [hp] at hcourse houtcome
    have hfinished := (result?_applying houtcome).1
    cases hcourse with
    | @applying owned' m seen _ hsurveyed hm hattains hseen hchanges horderly hfailed =>
      refine ⟨owned', m, units, rfl, hm, hsurveyed, ?_, hchanges, fun u hmem hstep => ?_⟩
      · exact (hu.planned_iff hm hattains (fun s hs => h.planned s (hseen s hs)) hsurveyed).mpr
          ⟨hs, fun hs => hnot (hseen s hs)⟩
      · have hchange : Plan.Changes wanted owned' u.change :=
          Plan.mem_changes.mp (hchanges ▸ List.mem_map_of_mem hmem)
        exact gaveWay_of_not_done hchange (horderly u hmem) (hfinished u hmem) (hfailed u hmem)
          (fun s hs => ⟨p, hp ▸ ⟨u, hmem, hs⟩⟩) hstep hnot

/-- **When all passes have ended, no step is left undone.** -/
theorem done_of_finished [Nonempty ι] (hu : Unobstructed i m₀ wanted owned)
    (hfinished : ∀ p, ((r.stage p).result? i).isSome = true) {s : Step}
    (hs : Plan.Planned wanted owned s) : r.Done s := by
  by_contra hnot
  -- any pass has the step in a unit, which gave way to a unit of another pass
  obtain ⟨p⟩ := ‹Nonempty ι›
  obtain ⟨owned₁, m₁, units₁, -, hm₁, hs₁, hplanned₁, hchanges₁, hgaveWay₁⟩ :=
    h.exists_gaveWay hu (hfinished p) hs hnot
  obtain ⟨c, hc, hstep⟩ := List.mem_flatMap.mp (Plan.mem_steps.mpr hplanned₁)
  rw [← hchanges₁] at hc
  obtain ⟨u, hmem, rfl⟩ := List.mem_map.mp hc
  obtain ⟨⟨id, pair, t, hp, hsteps, ht, q, hq⟩, -⟩ := hgaveWay₁ u hmem hstep
  rw [hsteps] at hstep
  obtain ⟨k, hstep⟩ := Plan.mem_convergeSteps.mp hstep
  obtain ⟨l, ht⟩ := Plan.mem_convergeSteps.mp ht
  -- that unit has the step as well, and so it gave way itself
  obtain ⟨owned₂, m₂, units₂, hstage, hm₂, hs₂, hplanned₂, hchanges₂, hgaveWay₂⟩ :=
    h.exists_gaveWay hu (hfinished q) hs hnot
  rw [hstage] at hq
  obtain ⟨v, hv, hdone⟩ := hq
  refine (hgaveWay₂ v hv ?_).2 t hdone
  have hchange : Plan.Changes wanted owned₂ v.change :=
    Plan.mem_changes.mp (hchanges₂ ▸ List.mem_map_of_mem hv)
  have hmem : t ∈ v.change.steps := by
    obtain ⟨before, hbefore, ht⟩ := hdone
    exact hbefore ▸ List.mem_append_left _ ht
  obtain ⟨id', pair', hp', hconverge⟩ := hchange.of_ne_delete hmem (Plan.kind_of_converge? ht).2
  rw [hconverge] at hmem ⊢
  obtain ⟨l', ht'⟩ := Plan.mem_convergeSteps.mp hmem
  obtain ⟨-, rfl⟩ := Input.derivedKey_injective
    ((Plan.key_of_converge? hm₁ hs₁ hp ht).symm.trans (Plan.key_of_converge? hm₂ hs₂ hp' ht'))
  exact hplanned₂.mem_convergeSteps hm₂ hs₂ (Plan.kind_of_converge? hstep).2 hp'
    (Plan.key_of_converge? hm₁ hs₁ hp hstep)

end Joint.Agrees

/-! ## Passes that are refused -/

section Refused

/-- Before a plan is applied, no call has a choice. -/
theorem Stage.advance_congr {σ : Type} {stage : Stage} (store : Store σ) (cancelled : Bool)
    (h : ∀ plan units, stage ≠ .applying plan units) (place place' : Nat) (s : σ) :
    stage.advance store cancelled i place s = stage.advance store cancelled i place' s := by
  cases stage with
  | begun | listing | refused => rfl
  | applying plan units => exact absurd rfl (h plan units)

variable (clock i m) in
/-- A pass by itself, after some calls in which nothing was to be chosen. -/
def Run.forced (n : Nat) : Run Memory := .inMemory clock i m (List.replicate n (.turn 0))

theorem Run.forced_succ (n : Nat) :
    Run.forced clock i m (n + 1) = (Run.forced clock i m n).next (Memory.store clock) i (.turn 0) := by
  unfold Run.forced Run.inMemory
  rw [List.replicate_succ', Run.after_append]
  rfl

theorem Run.forced_cancelled (n : Nat) : (Run.forced clock i m n).cancelled = false := by
  induction n with
  | zero => rfl
  | succ n ih =>
    rw [Run.forced_succ]
    exact ih

/-- A pass that was refused stays so. -/
theorem Run.forced_refused {n : Nat} {cause : PassError}
    (h : (Run.forced clock i m n).stage = .refused cause) (l : Nat) :
    (Run.forced clock i m (n + l)).stage = .refused cause := by
  induction l with
  | zero => exact h
  | succ l ih =>
    rw [← Nat.add_assoc, Run.forced_succ]
    simp only [Run.next, ih, Stage.advance]

variable (hclock : ∀ n, (clock n).ReadsBack) (hm : m.Sound)
  (hnot : ∀ wanted owned, ¬ Surveyed i m wanted owned)
include hclock hm hnot

theorem Run.forced_not_applying (n : Nat) (plan : Plan) (units : List UnitRun) :
    (Run.forced clock i m n).stage ≠ .applying plan units := by
  intro hstage
  have h := Reached.inMemory hclock hm i (List.replicate n (.turn 0))
  rw [show Run.inMemory _ _ _ _ = Run.forced clock i m n from rfl] at h
  generalize Run.forced clock i m n = r at *
  cases h with
  | begun | listing | refused => cases hstage
  | applying _ h => exact hnot _ _ h.surveyed

theorem Run.forced_state (n : Nat) : (Run.forced clock i m n).state = m :=
  (Reached.inMemory hclock hm i _).state_of_not_surveyed hnot

/-- One more call of a pass, whatever place is given. -/
theorem Run.advance_forced (n place : Nat) :
    (Run.forced clock i m n).stage.advance (Memory.store clock) false i place m
      = ((Run.forced clock i m (n + 1)).stage, m) := by
  rw [Stage.advance_congr _ _ (Run.forced_not_applying hclock hm hnot n) place 0]
  have hnext : (Run.forced clock i m n).stage.advance (Memory.store clock)
        (Run.forced clock i m n).cancelled i 0 (Run.forced clock i m n).state
      = ((Run.forced clock i m (n + 1)).stage, (Run.forced clock i m (n + 1)).state) := by
    rw [Run.forced_succ]
    rfl
  rw [Run.forced_cancelled, Run.forced_state hclock hm hnot, Run.forced_state hclock hm hnot] at hnext
  exact hnext

/-- **Passes over a store that cannot be surveyed** do each what it would do by
itself. -/
theorem Joint.inMemory_of_not_surveyed {ι : Type} [DecidableEq ι] (calls : List (ι × Nat)) :
    (Joint.inMemory clock i m calls).state = m
      ∧ ∀ p, ∃ n, (Joint.inMemory clock i m calls).stage p = (Run.forced clock i m n).stage := by
  have hstart : ({ state := m } : Joint ι).state = m
      ∧ ∀ p, ∃ n, ({ state := m } : Joint ι).stage p = (Run.forced clock i m n).stage :=
    ⟨rfl, fun _ => ⟨0, rfl⟩⟩
  unfold Joint.inMemory
  generalize ({ state := m } : Joint ι) = r at hstart
  induction calls generalizing r with
  | nil => exact hstart
  | cons call calls ih =>
    obtain ⟨p, place⟩ := call
    obtain ⟨hstate, hstages⟩ := hstart
    obtain ⟨n, hn⟩ := hstages p
    have hnext : r.next clock i (p, place) = r.move p ((Run.forced clock i m (n + 1)).stage, m) := by
      unfold Joint.next
      rw [hn, hstate, Run.advance_forced hclock hm hnot]
    rw [List.foldl_cons, hnext]
    refine ih _ ⟨rfl, fun q => ?_⟩
    by_cases hqp : q = p
    · exact ⟨n + 1, hqp ▸ r.stage_move_self p _⟩
    · obtain ⟨l, hl⟩ := hstages q
      exact ⟨l, (r.stage_move_of_ne _ hqp).trans hl⟩

/-- **Passes over a store that cannot be surveyed** are refused as one of them
would be. -/
theorem Joint.result_of_not_surveyed {ι : Type} [DecidableEq ι] (calls : List (ι × Nat)) {p : ι}
    {outcome : Except PassError ApplySummary}
    (hresult : ((Joint.inMemory clock i m calls).stage p).result? i = some outcome) :
    outcome = (reconcile (Memory.store clock) (fun _ => false) i.template i.source
      i.pullRequests m).1.outcome := by
  obtain ⟨n, hn⟩ := (inMemory_of_not_surveyed hclock hm hnot calls).2 p
  obtain ⟨-, -, hstage⟩ := after_two_turns (Memory.store clock) i m
  cases hplan : (Pass.plan (Memory.store clock) i.template i.source i.pullRequests m).result with
  | ok plan =>
    rw [hplan] at hstage
    exact absurd hstage (Run.forced_not_applying hclock hm hnot 2 _ _)
  | error cause =>
    rw [hplan] at hstage
    have hstage : (Run.forced clock i m 2).stage = .refused cause := hstage
    have hlater := Run.forced_refused hstage n
    have hrefused : (Run.forced clock i m n).stage = .refused cause := by
      cases hforced : (Run.forced clock i m n).stage with
      | begun | listing =>
        rw [hn, hforced] at hresult
        cases hresult
      | applying plan units => exact absurd hforced (Run.forced_not_applying hclock hm hnot n _ _)
      | refused cause' =>
        rw [Nat.add_comm] at hlater
        exact (Run.forced_refused hforced 2).symm.trans hlater
    rw [hn, hrefused] at hresult
    cases hresult
    simp only [reconcile, Bool.false_eq_true, if_false, hplan]

end Refused

/-! ## Passes that end -/

/-- **Nothing is reported as failed but what another pass was faster with**, apart
from skipped pull requests; and if a pass is refused, then as it would be alone. -/
def OnlyOvertaken (i : Input) (alone : Except PassError ApplySummary) :
    Except PassError ApplySummary → Prop
  | .ok _ => True
  | .error (.apply failures) => ∀ f ∈ failures, Overtaken f
    ∨ ∃ wanted, i.derive? = some wanted ∧ ∃ why ∈ wanted.skipped, f = skippedFailure i.template why
  | .error cause => alone = .error cause

/-- What a pass reports that does what it would do alone. -/
theorem Unfailing.onlyOvertaken {outcome : Except PassError ApplySummary}
    (h : Unfailing i outcome) : OnlyOvertaken i outcome outcome := by
  cases outcome with
  | ok => trivial
  | error cause =>
    cases cause with
    | apply failures =>
      rcases h with h | ⟨_, hcause, hne⟩
      · exact fun f hf => .inr (h f hf)
      · cases hcause
        exact absurd rfl (hne failures)
    | _ => rfl

/-- What a pass reports that is on course. -/
theorem OnCourse.onlyOvertaken {done : Step → Prop} {stage : Stage}
    (h : OnCourse i m₀ wanted done stage) (alone : Except PassError ApplySummary)
    {outcome : Except PassError ApplySummary} (hresult : stage.result? i = some outcome) :
    OnlyOvertaken i alone outcome := by
  cases h with
  | begun => cases hresult
  | listing => cases hresult
  | applying hsurveyed _ _ _ _ _ hfailed =>
    obtain ⟨-, failures, hfailures, ⟨_, rfl, -⟩ | ⟨rfl, -⟩⟩ := result?_applying hresult
    · trivial
    · intro f hf
      rcases (hfailures f).mp hf with ⟨u, hu, hf⟩ | hskipped
      · exact .inl (hfailed u hu f hf).2
      · obtain ⟨why, hwhy, rfl⟩ := List.mem_map.mp hskipped
        exact .inr ⟨wanted, hsurveyed.derived, why, hwhy, rfl⟩

/-- **Concurrent passes converge.** Let any passes with the same inputs run at the
same time, their calls in any order, until each of them has come to its end. If
no step fails in a single pass whose units run one after the other, then they
leave the objects that it leaves, apart from resource versions and times of
creation, and they report as failed only creations of what another pass has
created, and updates of what another pass has changed. -/
theorem concurrent_passes_converge {ι : Type} [DecidableEq ι] [Nonempty ι]
    (hclock : ∀ n, (clock n).ReadsBack) {m : Memory} (hm : Memory.Reachable clock m) {i : Input}
    (hi : i.Readable) (hcomma : i.CommaFree) (htell : i.Telling) :
    let alone := reconcile (Memory.store clock) (fun _ => false) i.template i.source i.pullRequests m
    Unfailing i alone.1.outcome → ∀ calls : List (ι × Nat),
      let r := Joint.inMemory clock i m calls
      (∀ p, ((r.stage p).result? i).isSome = true) →
        r.state.SameContent alone.2.1
          ∧ ∀ p outcome, (r.stage p).result? i = some outcome →
            OnlyOvertaken i alone.1.outcome outcome := by
  intro alone hno calls r hfinished
  have hsound := hm.sound hclock
  by_cases hs : ∃ wanted owned, Surveyed i m wanted owned
  · obtain ⟨wanted, owned, hs⟩ := hs
    obtain ⟨hu, hattains⟩ := unobstructed_of_sequential hclock hsound hi hcomma htell hs hno
    have hagrees : r.Agrees i m wanted owned := Joint.agrees_inMemory hu hclock calls
    have hdone : r.Done = Plan.Planned wanted owned := funext fun s =>
      propext ⟨hagrees.planned s, fun hs => hagrees.done_of_finished hu hfinished hs⟩
    refine ⟨?_, fun p outcome hresult => (hagrees.stages p).onlyOvertaken _ hresult⟩
    exact (hdone ▸ hagrees.attains).sameContent hattains
  -- nothing can be surveyed, so all passes are refused
  · have hnot : ∀ wanted owned, ¬ Surveyed i m wanted owned := fun wanted owned h =>
      hs ⟨wanted, owned, h⟩
    have hstate : alone.2.1 = m := by
      obtain ⟨places, hplaces, -⟩ := exists_turns_of_reconcile (Memory.store clock) i m
      exact hplaces.symm.trans ((Reached.inMemory hclock hsound i _).state_of_not_surveyed hnot)
    refine ⟨?_, fun p outcome hresult => ?_⟩
    · rw [hstate, show r.state = m from (Joint.inMemory_of_not_surveyed hclock hsound hnot calls).1]
      exact .refl m
    · obtain rfl : outcome = alone.1.outcome :=
        Joint.result_of_not_surveyed hclock hsound hnot calls hresult
      exact hno.onlyOvertaken

/-- An owned source of the one pull request that is not as it should be. -/
def outdatedSource : GitRepository where
  metadata := { sampleStray.metadata with
    labels := .ofList [(ownerLabel, "true"), (templateLabel, "plan"), (pullRequestLabel, "7")] }
  spec := sampleStray.spec

/-- A store with a source that is to be updated. -/
def outdatedMemory : Memory :=
  ((Memory.store stoppedClock).create .gitRepository outdatedSource {}).state

/-- Two passes find the source outdated, and one of them updates it. The update of
the other is refused, and so that pass does not come to the configuration. -/
theorem two_passes_converge :
    let alone := reconcile (Memory.store stoppedClock) (fun _ => false) sampleInput.template
      sampleInput.source sampleInput.pullRequests outdatedMemory
    let r := Joint.inMemory stoppedClock sampleInput outdatedMemory
      ([true, false, true, false, true, false, true].map (·, 0))
    alone.1.outcome = .ok { created := 1, updated := 1 }
      ∧ (r.stage true).result? sampleInput = some (.ok { created := 1, updated := 1 })
      ∧ ((r.stage false).result? sampleInput).bind Except.toOption = none
      ∧ r.state.SameContent alone.2.1
      ∧ ∀ p outcome, (r.stage p).result? sampleInput = some outcome →
        OnlyOvertaken sampleInput alone.1.outcome outcome := by
  intro alone r
  have hruns : (some alone.1.outcome).bind Except.toOption = some { created := 1, updated := 1 }
      ∧ (∀ p, ((r.stage p).result? sampleInput).isSome = true)
      ∧ ((r.stage true).result? sampleInput).bind Except.toOption
        = some { created := 1, updated := 1 }
      ∧ ((r.stage false).result? sampleInput).bind Except.toOption = none := by
    decide +kernel
  obtain ⟨halone, hfinished, hfaster, hslower⟩ := hruns
  have halone := Option.some.inj (Answer.eq_ok_of_toOption halone)
  exact ⟨halone, Answer.eq_ok_of_toOption hfaster, hslower,
    concurrent_passes_converge readsBack_stoppedClock (.create .empty .gitRepository outdatedSource)
      readable_sampleInput commaFree_sampleInput telling_sampleInput (halone ▸ .inl trivial) _
      hfinished⟩

end Pass

end PlanSync
