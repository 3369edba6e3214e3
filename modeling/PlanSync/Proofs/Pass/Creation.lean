import PlanSync.Proofs.Pass.Parallel
import PlanSync.Proofs.Pass.Frame
import PlanSync.Proofs.Pass.Underway

/-!
# What is created, and what is in its way

A failure to create an object that is there says that the template does not own
it. That is right if and only if no stray bears the derived name of a desired
branch (`Pass.createsOnlyNew_iff`). Such a stray is an object that was listed, and
still an object of its name is created; so two steps of the plan are about one
object, and the creation fails if the stray is not gone by then.

Ownership is told from labels, and branches are told from names and the label
with the number of a pull request (`OwnedObjects.standing`). So an owned object
may bear a derived name and be taken for a stray, if that label is gone.
-/

namespace PlanSync

namespace Pass

variable {clock : Nat → Timestamp} {i : Input} {m₀ m : Memory} {wanted : DesiredState}
  {owned : OwnedObjects} {events : List Event}

/-! ## Strays in place -/

/-- **A stray is in place** of an object that should exist: it bears the derived
name of a desired branch. -/
def StrayInPlace (i : Input) (wanted : DesiredState) (owned : OwnedObjects) : Prop :=
  ∃ id ∈ wanted.pairs.keys, ∃ k, i.derivedKey k id ∈ owned.strays

/-- What is created and was reported has a stray in its place. -/
theorem strayInPlace_of_reports (hm : m.Sound) (h : Surveyed i m wanted owned) {s : Step}
    (hs : Plan.Planned wanted owned s) (hcreate : s.operation = .create)
    (hreports : owned.Reports s.key) : StrayInPlace i wanted owned := by
  cases hs with
  | update | remove | clear => cases hcreate
  | @create id pair k hp hnone =>
    have hkey : (Step.create k (pair.half k)).key = i.derivedKey k id :=
      Input.key_half h.derived hp k
    rw [hkey] at hreports
    rcases hreports with hstray | ⟨id', k', o, ho, hderived⟩
    · exact ⟨id, SortedMap.mem_keys_iff.mpr ⟨pair, hp⟩, k, hstray⟩
    · obtain ⟨rfl, rfl⟩ := Input.derivedKey_injective ((h.key_half hm ho).symm.trans hderived)
      cases hnone.symm.trans ho

/-- **An object is created in the place of a stray**, and the stray is deleted. -/
theorem StrayInPlace.exists_steps (hm : m.Sound) (h : Surveyed i m wanted owned)
    (hstray : StrayInPlace i wanted owned) :
    ∃ c d, Plan.Planned wanted owned c ∧ c.operation = .create ∧ owned.Reports c.key
      ∧ Plan.Planned wanted owned d ∧ d.operation = .delete ∧ d.key = c.key := by
  obtain ⟨id, hid, k, hkey⟩ := hstray
  obtain ⟨pair, hp⟩ := SortedMap.mem_keys_iff.mp hid
  have hnone : (owned.pairOf id).half k = none :=
    Option.eq_none_iff_forall_ne_some.mpr fun o ho =>
      Plan.stray_ne_half hm h ho hkey (h.key_half hm ho)
  have hderived : (Step.create k (pair.half k)).key = i.derivedKey k id :=
    Input.key_half h.derived hp k
  exact ⟨_, _, .create k hp hnone, rfl, .inl (hderived ▸ hkey), .clear hkey, rfl, hderived.symm⟩

/-- **Without a stray in place no two steps are about one object**, and with one
there are two. -/
theorem unshared_steps_iff (hm : m.Sound) (h : Surveyed i m wanted owned) :
    Unshared (Plan.compute wanted owned).steps ↔ ¬ StrayInPlace i wanted owned := by
  constructor
  · intro hunshared hstray
    obtain ⟨c, d, hc, hcreate, -, hd, hdelete, hkey⟩ := hstray.exists_steps hm h
    have hsymm : Std.Symm fun a b : Step => a.key ≠ b.key := ⟨fun _ _ => Ne.symm⟩
    refine hunshared.forall (Plan.mem_steps.mpr hd) (Plan.mem_steps.mpr hc) (fun heq => ?_) hkey
    rw [heq, hcreate] at hdelete
    cases hdelete
  · intro hnot
    have hfree : ∀ {c d : Step}, Plan.Planned wanted owned c → Plan.Planned wanted owned d →
        c.key = d.key → c.operation = .create → d.operation = .delete → False := by
      intro c d hc hd hkey hcreate hdelete
      cases d with
      | create | update => cases hdelete
      | delete key =>
        refine hnot (strayInPlace_of_reports hm h hc hcreate ?_)
        rw [hkey]
        exact (h.reports_iff hm).mpr (Plan.holds_of_delete hm h hd)
    refine (Plan.pairwise_steps hm h).imp_of_mem fun {a b} ha hb hapart hkey => ?_
    have ha := Plan.mem_steps.mp ha
    have hb := Plan.mem_steps.mp hb
    rcases hapart hkey with ⟨hcreate, hdelete⟩ | ⟨hdelete, hcreate⟩
    · exact hfree ha hb hkey hcreate hdelete
    · exact hfree hb ha hkey.symm hcreate hdelete

/-! ## Creations that are barred -/

/-- A key that cannot be stored is not refused for an object that is there. -/
theorem checkKey_ne_alreadyExists (key key' : ObjectKey) :
    Naming.checkKey key ≠ .error (.alreadyExists key') := by
  have hpart : ∀ kind what value, (∃ message,
      Naming.checkPart kind what value = .error (.invalid message))
        ∨ Naming.checkPart kind what value = .ok () := by
    intro kind what value
    unfold Naming.checkPart
    split
    · exact .inr rfl
    · exact .inl ⟨_, rfl⟩
  show (Naming.checkPart _ _ _ >>= fun _ => Naming.checkPart _ _ _) ≠ _
  rcases hpart key.kind "namespace" key.namespaceName with ⟨_, h⟩ | h
  · rw [h]
    exact fun h => by cases h
  · rw [h]
    show Naming.checkPart _ _ _ ≠ _
    rcases hpart key.kind "name" key.name with ⟨_, h⟩ | h
    · rw [h]
      exact fun h => by cases h
    · rw [h]
      exact fun h => by cases h

/-- **What a creation is refused for that finds its name taken.** -/
theorem cell_of_alreadyExists {k : Kind} {o : Object k} {cell : Option Json} {key : ObjectKey}
    (h : (Step.create k o).answer cell = .error (.alreadyExists key)) :
    o.key = key ∧ Naming.checkKey o.key = .ok () ∧ cell ≠ none := by
  cases hkey : Naming.checkKey o.key with
  | error e =>
    have hinvalid : (Step.create k o).answer cell = .error e := by
      show (Naming.checkKey o.key >>= fun _ => _) = _
      rw [hkey]
      rfl
    cases hinvalid.symm.trans h
    exact absurd hkey (checkKey_ne_alreadyExists o.key key)
  | ok _ =>
    cases cell with
    | none => cases (Step.answer_create_eq_ok_iff.mpr ⟨hkey, rfl⟩).symm.trans h
    | some j =>
      cases (Step.answer_create_of_some hkey j).symm.trans h
      exact ⟨rfl, rfl, fun h => by cases h⟩

/-- **A creation is barred** by an object that was there from the start, if it was
refused for one. -/
def Barred (m₀ : Memory) (u : UnitRun) : Prop :=
  ∀ f key, u.failure = some f → f.operation = .create → f.error = .alreadyExists key →
    m₀.cell key ≠ none ∧ ∃ k, ∃ o : Object k, .create k o ∈ u.change.steps ∧ o.key = key

theorem barred_start (m₀ : Memory) (c : BranchChange) : Barred m₀ (.start c) :=
  fun _ _ hf => by cases hf

/-- **A unit comes to its next step.** -/
theorem Applying.barred_after {before later : List UnitRun} {u : UnitRun} {step : Step}
    {rest : List Step} (hm₀ : m₀.Sound) (hfaultless : Faultless events)
    (h : Applying i m₀ events wanted owned (before ++ u :: later) m) (hready : u.failure = none)
    (hnext : u.remaining = step :: rest) (cancelled : Bool) :
    Barred m₀ (u.after step rest (step.run (Memory.store clock) (fun _ => cancelled) m).result) := by
  intro f key hf hcreate herror
  cases hresult : (step.run (Memory.store clock) (fun _ => cancelled) m).result with
  | ok _ =>
    rw [hresult] at hf
    cases hready.symm.trans hf
  | error e =>
    rw [hresult] at hf
    cases hf
    have herror : e = .alreadyExists key := herror
    subst herror
    cases cancelled with
    | true =>
      rw [Step.run_of_cancelled step rfl] at hresult
      cases hresult
    | false =>
      have hanswer := Step.answer_of_error hresult
      obtain ⟨done, hperm, happlied⟩ := h.progressed hfaultless
      obtain ⟨-, hapart⟩ := Progressed.apart_next hm₀ h.surveyed hperm hnext
      have hmem : step ∈ u.change.steps := h.follows.mem_change_steps List.mem_append_cons_self
        (hnext ▸ List.mem_cons_self)
      cases step with
      | update | delete => cases hcreate
      | create k o =>
        obtain ⟨rfl, hkey, hcell⟩ := cell_of_alreadyExists hanswer
        refine ⟨fun hnone => ?_, k, o, hmem, rfl⟩
        refine Progressed.not_admits_of_create hm₀ h.surveyed happlied (fun t ht => ?_) hapart
          (fun hadmits => hcell hadmits.2) ⟨hkey, hnone⟩
        exact Plan.mem_steps.mp (hperm.mem_iff.mp (List.mem_append_left _ ht))

/-- Units that are about to be run have not started. -/
theorem Stage.eq_start_of_advance {σ : Type} {store : Store σ} {cancelled : Bool} {place : Nat}
    {stage : Stage} {s : σ} {plan : Plan} {units : List UnitRun}
    (h : ∀ plan units, stage ≠ .applying plan units)
    (hadvance : (stage.advance store cancelled i place s).1 = .applying plan units) :
    units = plan.changes.map .start := by
  cases stage with
  | applying plan units => exact absurd rfl (h plan units)
  | refused => cases hadvance
  | begun =>
    rcases advance_begun store i cancelled place s with ⟨_, _, h, -⟩ | ⟨_, _, h, -⟩
    · cases (congrArg Prod.fst h).symm.trans hadvance
    · cases (congrArg Prod.fst h).symm.trans hadvance
  | listing wanted ts =>
    rcases advance_listing store i cancelled place wanted ts s with ⟨_, h, -⟩ | ⟨_, h, -⟩
    · cases (congrArg Prod.fst h).symm.trans hadvance
    · cases (congrArg Prod.fst h).symm.trans hadvance
      rfl

/-- **No creation is refused for an object that was not there**, at every moment of
a pass. -/
theorem barred_inMemory (hclock : ∀ n, (clock n).ReadsBack) (hm₀ : m₀.Sound)
    (hfaultless : Faultless events) {plan : Plan} {units : List UnitRun}
    (hstage : (Run.inMemory clock i m₀ events).stage = .applying plan units) :
    ∀ u ∈ units, Barred m₀ u := by
  let p : Run Memory → Prop := fun r =>
    (Reached i m₀ events r ∧ (Calm events → r.cancelled = false))
      ∧ ∀ plan units, r.stage = .applying plan units → ∀ u ∈ units, Barred m₀ u
  suffices p (Run.inMemory clock i m₀ events) from this.2 plan units hstage
  refine Run.after_induction (p := p) ⟨⟨.begun false, fun _ => rfl⟩, fun _ _ h => by cases h⟩
    fun r e he h => ⟨⟨h.1.1.next hclock hm₀ he h.1.2, fun hcalm => ?_⟩, fun plan units hstage => ?_⟩
  · rw [Reached.cancelled_next he hcalm]
    exact h.1.2 hcalm
  · cases e with
    | cancel => exact h.2 plan units hstage
    | fault => cases hfaultless _ he
    | turn place =>
      have hstart : (∀ plan units, r.stage ≠ .applying plan units) → ∀ u ∈ units, Barred m₀ u := by
        intro hnot u hu
        rw [Stage.eq_start_of_advance hnot hstage] at hu
        obtain ⟨c, -, rfl⟩ := List.mem_map.mp hu
        exact barred_start m₀ c
      obtain ⟨⟨hreached, -⟩, hbarred⟩ := h
      cases hreached with
      | begun | listing | refused => exact hstart fun _ _ h => by cases h
      | @applying wanted owned units' m cancelled h =>
        have hbarred := hbarred _ _ rfl
        have hstage : (Stage.advance (Memory.store clock) cancelled i place
          (.applying (.compute wanted owned) units') m).1 = .applying plan units := hstage
        rcases advance_applying (Memory.store clock) i cancelled (.compute wanted owned) units'
          place m with hidle | ⟨before, later, u, step, rest, rfl, hready, hnext, hadvance⟩
        · rw [hidle] at hstage
          cases hstage
          exact hbarred
        · rw [hadvance] at hstage
          cases hstage
          exact forall_mem_split hbarred (h.barred_after hm₀ hfaultless hready hnext cancelled)

/-! ## What a taken name tells -/

/-- **What holds the name of an object that could not be created** is not owned,
unless a stray is in place, and it is left alone. -/
theorem Applying.exists_foreign {units : List UnitRun} (hm₀ : m₀.Sound)
    (h : Applying i m₀ events wanted owned units m) (hnot : ¬ StrayInPlace i wanted owned)
    {u : UnitRun} (hu : u ∈ units) {k : Kind} {o : Object k}
    (hcreate : .create k o ∈ u.change.steps) (hcell : m₀.cell o.key ≠ none) :
    ∃ o' : Object k, o'.key = o.key ∧ m₀.Holds o' ∧ m.Holds o' ∧ ¬ i.Owns o' := by
  have hs := h.surveyed
  have hplanned : Plan.Planned wanted owned (.create k o) :=
    Plan.planned_of_changes (Plan.mem_changes.mp (h.follows.mem_changes hu)) hcreate
  obtain ⟨j, hj⟩ := Option.ne_none_iff_exists'.mp hcell
  -- the name is a derived one, and in the namespace that was listed all can be read
  obtain ⟨o', hdecode⟩ : ∃ o' : Object k, Memory.decode k j = .ok o' := by
    obtain ⟨ts, ss, hlisting, -⟩ := hs.exists_listed
    have hkey : o.key = ⟨k, i.template.namespaceName, o.name⟩ := by
      cases hplanned with
      | create k hp hnone =>
        have hderived := Input.key_half hs.derived hp k
        exact congrArg (ObjectKey.mk k · _) (congrArg ObjectKey.namespaceName hderived)
    exact Memory.list_eq_ok_iff.mp ⟨_, hlisting k⟩ o.name j (hkey ▸ hj)
  have hkey : o'.key = o.key := (hm₀.key_of_decode hj hdecode).1
  have hholds : m₀.Holds o' := ⟨j, hkey ▸ hj, hdecode⟩
  have hforeign : ¬ i.Owns o' := fun howns =>
    hnot (strayInPlace_of_reports hm₀ hs hplanned rfl
      ((hs.reports_iff hm₀).mpr ⟨o', hholds, howns, hkey⟩))
  have hspares : Spares i m₀ o.key := fun o'' hholds' hkey' => by
    rw [hholds'.unique hholds (hkey'.trans hkey.symm)]
    exact hforeign
  have hkept := cell_of_spares hm₀ hs (h.follows.kept o.key) hj hspares
  exact ⟨o', hkey, hholds, ⟨j, hkey ▸ hkept, hdecode⟩, hforeign⟩

/-- **A pass creates only what is new**: nothing that was reported is created; no
two steps are about one object; and when an object cannot be created because its
name is taken, what has the name is not owned, and stays as it is. -/
structure CreatesOnlyNew (clock : Nat → Timestamp) (i : Input) (m : Memory)
    (wanted : DesiredState) (owned : OwnedObjects) : Prop where
  unreported : ∀ s ∈ (Plan.compute wanted owned).steps, s.operation = .create →
    ¬ owned.Reports s.key
  unshared : Unshared (Plan.compute wanted owned).steps
  foreign : ∀ events, Faultless events → ∀ failures,
    (Run.inMemory clock i m events).stage.result? i = some (.error (.apply failures)) →
    ∀ f ∈ failures, ∀ key, f.operation = .create → f.error = .alreadyExists key →
      ∃ o : Object key.kind, o.key = key ∧ m.Holds o
        ∧ (Run.inMemory clock i m events).state.Holds o ∧ ¬ i.Owns o

/-- **A pass creates only what is new exactly if no stray is in place.** -/
theorem createsOnlyNew_iff (hclock : ∀ n, (clock n).ReadsBack) {m : Memory}
    (hm : Memory.Reachable clock m) {i : Input} {wanted : DesiredState} {owned : OwnedObjects}
    (hs : Surveyed i m wanted owned) :
    CreatesOnlyNew clock i m wanted owned ↔ ¬ StrayInPlace i wanted owned := by
  have hsound := hm.sound hclock
  constructor
  · intro h hstray
    obtain ⟨c, d, hc, hcreate, hreports, -⟩ := hstray.exists_steps hsound hs
    exact h.unreported c (Plan.mem_steps.mpr hc) hcreate hreports
  · intro hnot
    refine ⟨fun s hmem hcreate hreports => ?_, (unshared_steps_iff hsound hs).mpr hnot, ?_⟩
    · exact hnot (strayInPlace_of_reports hsound hs (Plan.mem_steps.mp hmem) hcreate hreports)
    intro events hfaultless failures hresult f hf key hcreate herror
    have hreached := Reached.inMemory hclock hsound i events
    have hbarred : ∀ plan units, (Run.inMemory clock i m events).stage = .applying plan units →
        ∀ u ∈ units, Barred m u := fun _ _ => barred_inMemory hclock hsound hfaultless
    generalize Run.inMemory clock i m events = r at *
    cases hreached with
    | begun => cases hresult
    | listing => cases hresult
    | refused _ hcause =>
      cases hresult
      exact absurd rfl (hcause failures)
    | applying _ h =>
      obtain ⟨rfl, rfl⟩ := hs.unique h.surveyed
      obtain ⟨-, failures', hfailures, ⟨_, hok, -⟩ | ⟨herror', -⟩⟩ := result?_applying hresult
      · cases hok
      · cases herror'
        rcases (hfailures f).mp hf with ⟨u, hu, hf⟩ | hskipped
        · obtain ⟨hcell, k, o, hmem, rfl⟩ := hbarred _ _ rfl u hu f key hf hcreate herror
          exact h.exists_foreign hsound hnot hu hmem hcell
        -- what is skipped is not refused for an object that is there
        · obtain ⟨why, -, rfl⟩ := List.mem_map.mp hskipped
          cases herror

/-! ## A name held by a stranger, and one held by a stray -/

/-- What a pass finds, if it can find anything, with strays as they are met. -/
def gather? (i : Input) (m : Memory) : Option (DesiredState × OwnedObjects) := do
  let wanted ← i.derive?
  let ts ← (i.listing m .terraform).toOption
  let ss ← (i.listing m .gitRepository).toOption
  return (wanted, ss.foldl (.addSource i.source) (ts.foldl (.addTerraform i.template) {}))

/-- What a pass finds, if it can find anything. -/
def survey? (i : Input) (m : Memory) : Option (DesiredState × OwnedObjects) :=
  (gather? i m).map fun s => (s.1, { s.2 with strays := s.2.strays.mergeSort fun a b => a ≤ b })

theorem surveyed_of_survey? (h : survey? i m = some (wanted, owned)) : Surveyed i m wanted owned := by
  obtain ⟨_, h, heq⟩ := Option.map_eq_some_iff.mp h
  obtain ⟨_, hwanted, h⟩ := Option.bind_eq_some_iff.mp h
  obtain ⟨ts, hts, h⟩ := Option.bind_eq_some_iff.mp h
  obtain ⟨ss, hss, h⟩ := Option.bind_eq_some_iff.mp h
  cases h
  cases heq
  exact ⟨hwanted, ts, ss, Option.some.inj (Answer.eq_ok_of_toOption (x := some _) hts),
    Option.some.inj (Answer.eq_ok_of_toOption (x := some _) hss), rfl⟩

/-- Strays that are met in order need no sorting. -/
theorem survey?_of_gather? (h : gather? i m = some (wanted, owned))
    (hsorted : owned.strays.Pairwise (· ≤ ·)) : survey? i m = some (wanted, owned) := by
  rw [survey?, h, Option.map_some,
    List.mergeSort_of_pairwise (hsorted.imp fun {_ _} hle => decide_eq_true hle)]

/-- Which steps a pass reports as failed, and why. -/
def reported : Option (Except PassError ApplySummary) → List (Operation × StoreError)
  | some (.error (.apply failures)) => failures.map fun f => (f.operation, f.error)
  | _ => []

theorem exists_of_mem_reported {result : Option (Except PassError ApplySummary)} {op : Operation}
    {e : StoreError} (h : (op, e) ∈ reported result) :
    ∃ failures, result = some (.error (.apply failures))
      ∧ ∃ f ∈ failures, f.operation = op ∧ f.error = e := by
  unfold reported at h
  split at h
  · next failures =>
    obtain ⟨f, hf, heq⟩ := List.mem_map.mp h
    exact ⟨failures, rfl, f, hf, (Prod.mk.inj heq).1, (Prod.mk.inj heq).2⟩
  · cases h

/-- A store in which the derived name of the source is held by an object without
owner labels. -/
def takenMemory : Memory :=
  ((Memory.store stoppedClock).create .gitRepository
    { sampleStray with metadata := { sampleStray.metadata with labels := .empty } } {}).state

/-- A name that is held by a stranger is reported as taken, and what is said of it
is right. -/
theorem createsOnlyNew_when_taken :
    (.create, .alreadyExists sampleStray.key) ∈ reported ((Run.inMemory stoppedClock sampleInput
        takenMemory ([0, 0, 0].map .turn)).stage.result? sampleInput)
      ∧ ∃ wanted owned, Surveyed sampleInput takenMemory wanted owned
        ∧ CreatesOnlyNew stoppedClock sampleInput takenMemory wanted owned := by
  have hstrays : (survey? sampleInput takenMemory).map (·.2.strays) = some [] := by decide +kernel
  obtain ⟨⟨wanted, owned⟩, hsurvey, hstrays⟩ := Option.map_eq_some_iff.mp hstrays
  have hs := surveyed_of_survey? hsurvey
  refine ⟨by decide +kernel, wanted, owned, hs,
    (createsOnlyNew_iff readsBack_stoppedClock (.create .empty _ _) hs).mpr ?_⟩
  rintro ⟨id, -, k, hkey⟩
  rw [show owned.strays = [] from hstrays] at hkey
  cases hkey

/-- The stray of the strayed store was reported, and an object is created in its
place. Two steps of the plan are about it, and if the creation comes first, then it
is refused for an object that is owned. -/
theorem stray_bars_creation :
    ∃ wanted owned, Surveyed sampleInput strayedMemory wanted owned
      ∧ (∃ s ∈ (Plan.compute wanted owned).steps, s.operation = .create ∧ owned.Reports s.key)
      ∧ ¬ Unshared (Plan.compute wanted owned).steps
      ∧ ∃ failures, (Run.inMemory stoppedClock sampleInput strayedMemory
            ([0, 0, 0, 1].map .turn)).stage.result? sampleInput = some (.error (.apply failures))
          ∧ ∃ f ∈ failures, ∃ key, f.operation = .create ∧ f.error = .alreadyExists key
            ∧ ∃ o : Object key.kind, o.key = key ∧ strayedMemory.Holds o ∧ sampleInput.Owns o := by
  have hsound := reachable_strayedMemory.sound readsBack_stoppedClock
  have hfound : (survey? sampleInput strayedMemory).map (fun s => (s.1.pairs.keys, s.2.strays))
      = some ([⟨"topic-7"⟩], [sampleStray.key]) := by decide +kernel
  obtain ⟨⟨wanted, owned⟩, hsurvey, hfound⟩ := Option.map_eq_some_iff.mp hfound
  obtain ⟨hkeys, hstrays⟩ := Prod.mk.inj hfound
  have hs := surveyed_of_survey? hsurvey
  have hkey : sampleStray.key ∈ owned.strays := hstrays ▸ List.mem_singleton_self _
  have hplace : StrayInPlace sampleInput wanted owned :=
    ⟨⟨"topic-7"⟩, hkeys ▸ List.mem_singleton_self _, .gitRepository, hkey⟩
  obtain ⟨c, -, hc, hcreate, hreports, -⟩ := hplace.exists_steps hsound hs
  obtain ⟨o, hholds, howns, -, hheld⟩ := (hs.mem_strays_iff hsound).mp hkey
  refine ⟨wanted, owned, hs, ⟨c, Plan.mem_steps.mpr hc, hcreate, hreports⟩,
    fun hunshared => (unshared_steps_iff hsound hs).mp hunshared hplace, ?_⟩
  have hreported : (.create, .alreadyExists sampleStray.key) ∈ reported ((Run.inMemory stoppedClock
      sampleInput strayedMemory ([0, 0, 0, 1].map .turn)).stage.result? sampleInput) := by
    decide +kernel
  obtain ⟨failures, hresult, f, hf, hop, herror⟩ := exists_of_mem_reported hreported
  exact ⟨failures, hresult, f, hf, sampleStray.key, hop, herror, o, hheld, hholds, howns⟩

end Pass

end PlanSync
