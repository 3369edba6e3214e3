import PlanSync.Proofs.Pass.Underway

/-!
# Recovery

A pass that was cut short is made good by running it again
(`Pass.recovered_by_retry`): whatever part of its plan a first pass has done, a
second one with the same inputs leaves the objects that a single pass would have
left, provided that no step fails in either.

The first pass leaves every cell as it was found or as a step of its plan leaves
it (`Pass.Kept`). So the second pass plans the steps that are missing, and about
the others it plans nothing (`Pass.Aftermath.attains_of_kept`). One case needs
care: a half whose head branch is empty is not told to be of its branch once it
has been created. The second pass takes it for a stray, deletes it, and creates
it anew, with the same content.
-/

namespace PlanSync.Pass

variable {clock : Nat → Timestamp} {i : Input} {m₀ m m' : Memory}
  {wanted wanted' : DesiredState} {owned owned' : OwnedObjects} {events : List Event}

/-! ## Complete passes -/

/-- **When all steps of a plan have been applied, those that last are attained.** -/
theorem attains_of_applied (h : Memory.Applied m₀ (Plan.compute wanted owned).steps m) :
    m₀.Attains (Plan.Lasting wanted owned) m where
  frame key hkey := h.frame key fun s hs hs' => by
    obtain ⟨t, ht, hkey'⟩ := Plan.exists_lasting (Plan.mem_steps.mp hs)
    exact hkey t ht (hkey'.trans hs')
  left s hs := by
    refine (h.left s (Plan.mem_steps.mpr hs.planned)).resolve_right ?_
    rintro ⟨hdelete, c, hc, hcreate, hkey⟩
    exact hs.last hdelete c (Plan.mem_steps.mp hc) hcreate hkey

theorem Aftermath.attains (h : Aftermath i m₀ wanted owned (Plan.compute wanted owned).steps m) :
    m₀.Attains (Plan.Lasting wanted owned) m :=
  attains_of_applied h.applied

/-- **A cell about which nothing is planned stays as it was found.** -/
theorem Aftermath.cell_eq {done : List Step} (h : Aftermath i m₀ wanted owned done m)
    {key : ObjectKey} (hkey : ∀ s, Plan.Planned wanted owned s → s.key ≠ key) :
    m.cell key = m₀.cell key :=
  h.applied.frame key fun s hs => hkey s (h.planned s hs)

/-! ## A store that a pass has left -/

section Kept

variable (hm₀ : m₀.Sound) (hm : m.Sound) (h : Surveyed i m₀ wanted owned)
  (h' : Aftermath i m wanted owned' (Plan.compute wanted owned').steps m')
include hm₀ hm h h'

/-- **What was not done is done by the second pass.** -/
theorem Aftermath.leaves_of_cell_eq {s : Step} (hs : Plan.Lasting wanted owned s)
    (hcell : m.cell s.key = m₀.cell s.key) : s.Leaves (m'.cell s.key) := by
  have hplanned : ∀ {t : Step}, t.key = s.key →
      (Plan.Planned wanted owned' t ↔ Plan.Planned wanted owned t) :=
    fun hkey => h.planned_iff hm₀ hm h'.surveyed (hkey ▸ hcell)
  refine h'.attains.left s ⟨(hplanned rfl).mpr hs.planned, fun hdelete t ht hcreate hkey => ?_⟩
  exact hs.last hdelete t ((hplanned hkey).mp ht) hcreate hkey

/-- **What was written stays, or is written again.** -/
theorem Aftermath.leaves_of_written (hi : i.Readable) (hcomma : i.CommaFree) {s : Step}
    (hs : Plan.Planned wanted owned s) (hop : s.operation ≠ .delete)
    (hleaves : s.Leaves (m.cell s.key)) : s.Leaves (m'.cell s.key) := by
  obtain ⟨k, id, pair, o, hp, ho, hkey, hderived, hconverged, hneeded⟩ :=
    h.exists_half_of_leaves hm₀ hi hs hop hleaves
  have hkey' := hkey.trans hderived
  by_cases htold : OwnedObjects.standing (i.origin k) o = .ofBranch id
  · rw [h'.cell_eq fun t ht => hkey ▸
      Surveyed.key_ne_of_converged hm hcomma h'.surveyed hp ho hkey' hconverged htold ht]
    exact hleaves
  -- an object that was there before is told by its number, so this one was
  -- created, and it is created again
  · have hmissing : (owned.pairOf id).half k = none := by
      refine Option.eq_none_iff_forall_ne_some.mpr fun current hcurrent => htold ?_
      obtain ⟨-, -, hstanding⟩ := (h.half_iff hm₀).mp hcurrent
      exact standing_of_covers_of_told h.derived hp hstanding (h.key_half hm₀ hcurrent) hkey'
        hconverged.covers
    rw [hmissing] at hneeded
    cases hneeded
    refine h'.attains.left _ (Plan.lasting_of_ne_delete (.create k hp ?_) hop)
    refine Option.eq_none_iff_forall_ne_some.mpr fun o' ho' => htold ?_
    obtain ⟨hholds, -, hstanding⟩ := (h'.surveyed.half_iff hm).mp ho'
    rw [ho.unique hholds (hkey'.trans (h'.surveyed.key_half hm ho').symm)]
    exact hstanding

/-- **What was deleted stays so**, unless something is created in its place. -/
theorem Aftermath.leaves_of_deleted {s t : Step} (hs : Plan.Lasting wanted owned s)
    (ht : Plan.Planned wanted owned t) (hdelete : t.operation = .delete) (hkey : t.key = s.key)
    (hnone : m.cell s.key = none) : s.Leaves (m'.cell s.key) := by
  have hplanned := hs.planned
  cases s with
  | delete key =>
    show m'.cell key = none
    have hnone : m.cell key = none := hnone
    rw [← hnone]
    exact h'.cell_eq fun t ht => h.key_ne_of_deleted hm₀ hm h'.surveyed hs rfl hnone ht
  | create k o =>
    cases hplanned with
    | @create id pair _ hp _ =>
      refine h'.attains.left _ (Plan.lasting_of_ne_delete (.create k hp ?_) fun h => by cases h)
      refine Option.eq_none_iff_forall_ne_some.mpr fun o ho => ?_
      -- nothing stands in the cell, so no half was found there
      obtain ⟨⟨j, hj, -⟩, -, -⟩ := (h'.surveyed.half_iff hm).mp ho
      rw [h'.surveyed.key_half hm ho] at hj
      rw [show (Step.create k (pair.half k)).key = _ from Input.key_half h.derived hp k] at hnone
      cases hnone.symm.trans hj
  | update k current o =>
    rcases hplanned.eq_or hm₀ h ht hkey.symm with rfl | ⟨hop, -⟩ | ⟨hop, -⟩
    · cases hdelete
    · cases hop
    · cases hop

/-- **A second pass attains the steps of the first plan**, whatever part of it the
first pass has done. -/
theorem Aftermath.attains_of_kept (hi : i.Readable) (hcomma : i.CommaFree)
    (hkept : ∀ key, Kept m₀ (.compute wanted owned) m key) :
    m₀.Attains (Plan.Lasting wanted owned) m' where
  frame key hkey := by
    have hnone : ∀ s, Plan.Planned wanted owned s → s.key ≠ key := fun s hs hs' => by
      obtain ⟨t, ht, hkey'⟩ := Plan.exists_lasting hs
      exact hkey t ht (hkey'.trans hs')
    have hsame : m.cell key = m₀.cell key := by
      refine (hkept key).resolve_right ?_
      rintro ⟨s, hs, hkey, -⟩
      exact hnone s (Plan.mem_steps.mp hs) hkey
    rw [← hsame]
    refine h'.cell_eq fun s hs hs' => hnone s ?_ hs'
    exact (h.planned_iff hm₀ hm h'.surveyed (hs' ▸ hsame)).mp hs
  left s hs := by
    rcases hkept s.key with hsame | ⟨t, ht, hkey, hleaves, -⟩
    · exact h'.leaves_of_cell_eq hm₀ hm h hs hsame
    have ht := Plan.mem_steps.mp ht
    by_cases hop : t.operation = .delete
    · refine h'.leaves_of_deleted hm₀ hm h hs ht hop hkey ?_
      cases t with
      | create | update => cases hop
      | delete => exact hleaves
    · obtain rfl := hs.eq hm₀ h (Plan.lasting_of_ne_delete ht hop) hkey.symm
      exact h'.leaves_of_written hm₀ hm h hi hcomma ht hop hleaves

end Kept

/-! ## Passes in which no step fails -/

/-- **No step failed**, be it that the pass was refused before it came to any. -/
def Unfailing (i : Input) (outcome : Except PassError ApplySummary) : Prop :=
  NoStepFailed i outcome ∨ ∃ cause, outcome = .error cause ∧ ∀ failures, cause ≠ .apply failures

/-- What a pass leaves of a store that cannot be surveyed. -/
theorem Reached.state_of_not_surveyed {r : Run Memory} (h : Reached i m₀ events r)
    (hnot : ∀ wanted owned, ¬ Surveyed i m₀ wanted owned) : r.state = m₀ := by
  cases h with
  | begun | listing | refused => rfl
  | applying _ h => exact absurd h.surveyed (hnot _ _)

/-- A pass that has come to apply a plan was not refused. -/
theorem Unfailing.noStepFailed {outcome : Except PassError ApplySummary} {plan : Plan}
    {units : List UnitRun} (h : Unfailing i outcome)
    (hresult : (Stage.applying plan units).result? i = some outcome) : NoStepFailed i outcome := by
  refine h.resolve_right fun ⟨cause, heq, hcause⟩ => ?_
  subst heq
  obtain ⟨-, failures, -, ⟨_, hok, -⟩ | ⟨herror, -⟩⟩ := result?_applying hresult
  · cases hok
  · exact hcause failures (Except.error.inj herror)

/-- **A pass in which no step fails has done all its steps**, or there was nothing
to survey. -/
theorem Reached.of_unfailing (hcalm : Calm events) {r : Run Memory} (h : Reached i m₀ events r)
    {outcome : Except PassError ApplySummary} (hresult : r.stage.result? i = some outcome)
    (hno : Unfailing i outcome) :
    (∃ wanted owned units, Applying i m₀ events wanted owned units r.state
        ∧ ∀ u ∈ units, u.remaining = [])
      ∨ ∀ wanted owned, ¬ Surveyed i m₀ wanted owned := by
  cases h with
  | begun => cases hresult
  | listing => cases hresult
  | refused _ _ hnot => exact .inr (hnot hcalm)
  | applying _ h =>
    exact .inl ⟨_, _, _, h, h.remaining_eq_nil hresult (hno.noStepFailed hresult)⟩

theorem Kept.cell {key : ObjectKey} (h : Kept m₀ (.compute wanted owned) m key) :
    m.cell key = m₀.cell key
      ∨ ∃ s, Plan.Planned wanted owned s ∧ s.key = key ∧ s.Leaves (m.cell key) :=
  h.imp_right fun ⟨s, hs, hkey, hleaves, _⟩ => ⟨s, Plan.mem_steps.mp hs, hkey, hleaves⟩

/-- A pass leaves every cell as it was found, or as a step of its plan leaves it. -/
theorem Reached.kept {r : Run Memory} (h : Reached i m₀ events r)
    (hs : Surveyed i m₀ wanted owned) (key : ObjectKey) :
    Kept m₀ (.compute wanted owned) r.state key := by
  cases h with
  | begun | listing | refused => exact .inl rfl
  | applying _ h =>
    obtain ⟨rfl, rfl⟩ := hs.unique h.surveyed
    exact h.follows.kept key

/-- **A pass that was cut short is made good by running it again.** Let a first
pass run in any order of calls, with any of them made to fail and a cancellation
at any moment; let a second pass with the same inputs run on what the first one
has left, and a third one on the store as it was in the beginning, each in any
order of calls and with none made to fail. If no step fails in these two, they
leave the same objects, apart from resource versions and times of creation. -/
theorem recovered_by_retry (hclock : ∀ n, (clock n).ReadsBack) {m : Memory}
    (hm : Memory.Reachable clock m) {i : Input} (hi : i.Readable) (hcomma : i.CommaFree)
    (first : List Event) {retry direct : List Event} (hretry : Calm retry) (hdirect : Calm direct)
    {retried reached : Except PassError ApplySummary} :
    let m₁ := (Run.inMemory clock i m first).state
    (Run.inMemory clock i m₁ retry).stage.result? i = some retried → Unfailing i retried →
    (Run.inMemory clock i m direct).stage.result? i = some reached → Unfailing i reached →
      (Run.inMemory clock i m₁ retry).state.SameContent (Run.inMemory clock i m direct).state := by
  intro m₁ hretried hunfailing hreached hunfailing'
  have hsound := hm.sound hclock
  have hfirst := Reached.inMemory hclock hsound i first
  have hsound₁ : m₁.Sound := hfirst.sound hsound
  have hpass := Reached.inMemory hclock hsound₁ i retry
  have hpass' := Reached.inMemory hclock hsound i direct
  rcases hpass'.of_unfailing hdirect hreached hunfailing' with
    ⟨wanted, owned, units, happlying, hdone⟩ | hnot
  · have hs := happlying.surveyed
    obtain ⟨owned₁, hs₁⟩ := hs.exists_of_cells hsound hi fun key => (hfirst.kept hs key).cell
    rcases hpass.of_unfailing hretry hretried hunfailing with
      ⟨wanted', owned', units', happlying', hdone'⟩ | hnot
    · obtain ⟨rfl, -⟩ := hs₁.unique happlying'.surveyed
      have hafter := happlying'.aftermath hsound₁ hi hretry.faultless hdone'
      refine (hafter.attains_of_kept hsound hsound₁ hs hi hcomma (hfirst.kept hs)).sameContent ?_
      exact (happlying.aftermath hsound hi hdirect.faultless hdone).attains
    · exact absurd hs₁ (hnot _ _)
  -- nothing can be surveyed, so no pass changes anything
  · have hsame : m₁ = m := hfirst.state_of_not_surveyed hnot
    rw [hpass'.state_of_not_surveyed hnot, hpass.state_of_not_surveyed (hsame ▸ hnot), hsame]
    exact .refl m

/-- A pass that is cut short between the two halves of a branch is made good. -/
theorem recovered_between_halves :
    let first := [.turn 0, .turn 0, .turn 1, .turn 0, .fault 0 (.transient "busy"), .cancel]
    let m₁ := (Run.inMemory stoppedClock sampleInput strayedMemory first).state
    let retry := Run.inMemory stoppedClock sampleInput m₁ ([0, 0, 0].map .turn)
    let direct := Run.inMemory stoppedClock sampleInput strayedMemory ([0, 0, 1, 0, 0].map .turn)
    retry.stage.result? sampleInput = some (.ok { created := 1 })
      ∧ direct.stage.result? sampleInput = some (.ok { created := 2, deleted := 1 })
      ∧ retry.state.SameContent direct.state := by
  intro first m₁ retry direct
  have hruns : (retry.stage.result? sampleInput).bind Except.toOption = some { created := 1 }
      ∧ (direct.stage.result? sampleInput).bind Except.toOption
        = some { created := 2, deleted := 1 } := by
    decide +kernel
  have hretried := Answer.eq_ok_of_toOption hruns.1
  have hreached := Answer.eq_ok_of_toOption hruns.2
  exact ⟨hretried, hreached, recovered_by_retry readsBack_stoppedClock reachable_strayedMemory
    readable_sampleInput commaFree_sampleInput first (calm_turns _) (calm_turns _) hretried
    (.inl trivial) hreached (.inl trivial)⟩

end PlanSync.Pass
