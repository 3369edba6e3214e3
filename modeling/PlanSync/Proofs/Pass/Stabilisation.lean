import PlanSync.Proofs.Pass.Idempotence

/-!
# Stores that come to rest

Two passes with the same inputs bring a store to rest, whatever they report:
no later pass changes it (`Pass.stable_after_two_passes`).

One pass is not enough. It may find a stray under the name of a desired half, so
that the half cannot be created before the stray is gone, and whether the stray
goes first depends on the order of calls. But a pass that comes to its end has
issued all its deletions, for no unit fails before a deletion. So the second
pass deletes nothing (`Pass.Cleared`), and a creation that fails in it fails
again ever after: what bars it is not owned, and no pass touches it. What
remains of the second plan is then the plan of the third pass, and it is stalled
(`Pass.Ended.stable`).
-/

namespace PlanSync

namespace Pass

variable {clock : Nat → Timestamp} {i : Input} {m₀ m : Memory} {wanted : DesiredState}
  {owned owned' : OwnedObjects} {units : List UnitRun} {done : List Step} {events : List Event}
  {k : Kind} {id : BranchId} {pair : DesiredPair}

/-- **Where the cell of a half is the same, the half is the same.** -/
theorem Surveyed.half_eq (hm₀ : m₀.Sound) (hm : m.Sound) (h : Surveyed i m₀ wanted owned)
    (h' : Surveyed i m wanted owned')
    (hcell : m.cell (i.derivedKey k id) = m₀.cell (i.derivedKey k id)) :
    (owned'.pairOf id).half k = (owned.pairOf id).half k := by
  refine Option.ext fun o => ?_
  rw [h'.half_iff hm, h.half_iff hm₀]
  refine and_congr_left fun ⟨howns, hstanding⟩ => ?_
  have hkey := Input.key_of_standing howns.here hstanding
  exact ⟨fun ho => ho.of_cell_eq (hkey ▸ hcell.symm), fun ho => ho.of_cell_eq (hkey ▸ hcell)⟩

/-! ## Passes that have ended -/

/-- **A pass has ended** without a fault: what is not done of its plan stands in
units that are stalled. -/
structure Ended (i : Input) (m₀ : Memory) (wanted : DesiredState) (owned : OwnedObjects)
    (units : List UnitRun) (done : List Step) (m : Memory) : Prop
    extends Aftermath i m₀ wanted owned done m where
  sound : m.Sound
  follows : Follows m₀ (.compute wanted owned) units m
  perm : (done ++ pending units).Perm (Plan.compute wanted owned).steps
  stalled : ∀ u ∈ units, u.remaining ≠ [] → Stalled m₀ u.remaining

theorem Applying.exists_ended (hm₀ : m₀.Sound) (hi : i.Readable) (hcalm : Calm events)
    (h : Applying i m₀ events wanted owned units m) (hfinished : ∀ u ∈ units, u.isFinished = true) :
    ∃ done, Ended i m₀ wanted owned units done m := by
  obtain ⟨done, hperm, happlied⟩ := h.progressed hcalm.faultless
  have hplanned : ∀ s ∈ done, Plan.Planned wanted owned s := fun s hs =>
    Plan.mem_steps.mp (hperm.mem_iff.mp (List.mem_append_left _ hs))
  refine ⟨done, ⟨hm₀, hi, h.surveyed, hplanned, happlied⟩, h.sound, h.follows, hperm, ?_⟩
  intro u hu hremaining
  refine h.blocked hcalm u hu fun hnone => hremaining ?_
  exact remaining_of_isFinished (hfinished u hu) hnone

/-- **A pass that gives a result has ended**, or it found nothing to survey. -/
theorem Reached.of_result (hm₀ : m₀.Sound) (hi : i.Readable) (hcalm : Calm events)
    {r : Run Memory} (h : Reached i m₀ events r) (hresult : (r.stage.result? i).isSome = true) :
    (∃ wanted owned units done, Ended i m₀ wanted owned units done r.state)
      ∨ r.state = m₀ ∧ Stable i m₀ := by
  obtain ⟨outcome, houtcome⟩ := Option.isSome_iff_exists.mp hresult
  cases h with
  | begun => cases houtcome
  | listing => cases houtcome
  | refused _ _ hnone =>
    exact .inr ⟨rfl, fun wanted owned hs => absurd hs (hnone hcalm wanted owned)⟩
  | @applying wanted owned units m _ h =>
    obtain ⟨done, hended⟩ := h.exists_ended hm₀ hi hcalm (result?_applying houtcome).1
    exact .inl ⟨wanted, owned, units, done, hended⟩

namespace Ended

/-- **A step was done, or stands in a unit.** -/
theorem done_or_pending (h : Ended i m₀ wanted owned units done m) {s : Step}
    (hs : Plan.Planned wanted owned s) : s ∈ done ∨ ∃ u ∈ units, s ∈ u.remaining := by
  have hmem := h.perm.mem_iff.mpr (Plan.mem_steps.mpr hs)
  exact (List.mem_append.mp hmem).imp_right List.mem_flatMap.mp

/-- **What a unit has left** is the end of what a desired branch needs, and its
first step is an impossible creation. -/
theorem exists_stalled (h : Ended i m₀ wanted owned units done m) {u : UnitRun} (hu : u ∈ units)
    {s : Step} (hs : s ∈ u.remaining) :
    ∃ id pair before k o rest, wanted.pairs.get? id = some pair
      ∧ Plan.convergeSteps (owned.pairOf id) pair = before ++ .create k o :: rest
      ∧ u.remaining = .create k o :: rest ∧ ¬ m₀.Admits o.key := by
  obtain ⟨k, o, rest, hremaining, hadmits⟩ := h.stalled u hu (List.ne_nil_of_mem hs)
  obtain ⟨before, hbefore⟩ := (h.follows.orderly u hu).ahead
  rw [hremaining] at hbefore
  have hfirst : Step.create k o ∈ u.change.steps :=
    h.follows.mem_change_steps hu (hremaining ▸ List.mem_cons_self)
  have hchange := Plan.mem_changes.mp (h.follows.mem_changes hu)
  obtain ⟨id, pair, hp, hconverge⟩ := hchange.of_ne_delete hfirst fun h => by cases h
  rw [hconverge] at hbefore
  exact ⟨id, pair, before, k, o, rest, hp, hbefore, hremaining, hadmits⟩

/-- **All deletions were done.** -/
theorem done_of_delete (h : Ended i m₀ wanted owned units done m) {s : Step}
    (hs : Plan.Planned wanted owned s) (hdelete : s.operation = .delete) : s ∈ done := by
  refine (h.done_or_pending hs).resolve_right fun ⟨u, hu, hmem⟩ => ?_
  obtain ⟨id, pair, before, k, o, rest, -, hsteps, hremaining, -⟩ := h.exists_stalled hu hmem
  rw [hremaining] at hmem
  -- what a unit has left converges a branch, and that deletes nothing
  obtain ⟨l, hconverge⟩ : ∃ l, Plan.converge? ((owned.pairOf id).half l) (pair.half l) = some s :=
    Plan.mem_convergeSteps.mp (hsteps ▸ List.mem_append_right _ hmem)
  exact (Plan.kind_of_converge? hconverge).2 hdelete

end Ended

/-! ## Nothing more to delete -/

/-- **A store is cleared**: what is owned is told to be of a desired branch. -/
def Cleared (i : Input) (wanted : DesiredState) (m : Memory) : Prop :=
  ∀ k (o : Object k), m.Holds o → i.Owns o →
    ∃ id pair, wanted.pairs.get? id = some pair
      ∧ OwnedObjects.standing (i.origin k) o = .ofBranch id

/-- **A pass that has ended leaves a cleared store.** -/
theorem Ended.cleared (h : Ended i m₀ wanted owned units done m) (htell : i.Telling) :
    Cleared i wanted m := by
  intro k o ho howns
  rcases h.old_or_new ho with ⟨ho, hold⟩ | ⟨id, pair, hp, hkey, hconverged⟩
  · exact h.standing_of_old (fun s hs hdelete => h.done_of_delete hs hdelete) ho howns hold
  · exact ⟨id, pair, hp, standing_of_covers htell h.surveyed.derived hp hkey hconverged.covers⟩

/-- **In a cleared store nothing is to be deleted.** -/
theorem Cleared.operation_ne_delete (h : Cleared i wanted m) (hm : m.Sound)
    (hs : Surveyed i m wanted owned) {s : Step} (hplanned : Plan.Planned wanted owned s) :
    s.operation ≠ .delete := by
  intro hdelete
  cases hplanned with
  | create | update => cases hdelete
  | remove k hw ho =>
    obtain ⟨hholds, howns, hstanding⟩ := (hs.half_iff hm).mp ho
    obtain ⟨id, pair, hp, hstanding'⟩ := h _ _ hholds howns
    cases hstanding.symm.trans hstanding'
    cases hw.symm.trans hp
  | clear hkey =>
    obtain ⟨o, hholds, howns, hstray, -⟩ := (hs.mem_strays_iff hm).mp hkey
    obtain ⟨id, pair, -, hstanding⟩ := h _ _ hholds howns
    cases hstray.symm.trans hstanding

/-- **In a cleared store a plan only converges.** -/
theorem Cleared.converge_of_changes (h : Cleared i wanted m) (hm : m.Sound)
    (hs : Surveyed i m wanted owned) {c : BranchChange} (hc : Plan.Changes wanted owned c) :
    ∃ id pair, wanted.pairs.get? id = some pair
      ∧ c.steps = Plan.convergeSteps (owned.pairOf id) pair ∧ c.steps ≠ [] := by
  cases hc with
  | @converge id pair hp hsteps => exact ⟨id, pair, hp, rfl, hsteps⟩
  | remove hw hp =>
    obtain ⟨k, o, ho⟩ := hs.exists_half hp
    exact absurd rfl (h.operation_ne_delete hm hs (.remove k hw ho))
  | clear hkey => exact absurd rfl (h.operation_ne_delete hm hs (.clear hkey))

/-! ## Rest -/

namespace Ended

/-- **What was not done is as it was found**, if nothing was to be deleted. -/
theorem cell_of_pending (h : Ended i m₀ wanted owned units done m) (hcleared : Cleared i wanted m₀)
    {u : UnitRun} (hu : u ∈ units) {s : Step} (hs : s ∈ u.remaining) :
    m.cell s.key = m₀.cell s.key := by
  have hpending : s ∈ pending units := List.mem_flatMap.mpr ⟨u, hu, hs⟩
  have hplanned : Plan.Planned wanted owned s :=
    Plan.mem_steps.mp (h.perm.mem_iff.mp (List.mem_append_right _ hpending))
  have hapart := (h.perm.pairwise_iff Step.Apart.symm).mpr (Plan.pairwise_steps h.before h.surveyed)
  refine h.applied.frame _ fun t ht hkey => ?_
  -- of two steps about one object one is a deletion
  rcases (List.pairwise_append.mp hapart).2.2 t ht s hpending hkey with
    ⟨-, hdelete⟩ | ⟨hdelete, -⟩
  · exact hcleared.operation_ne_delete h.before h.surveyed hplanned hdelete
  · exact hcleared.operation_ne_delete h.before h.surveyed (h.planned t ht) hdelete

/-- **The next pass plans a step for a half exactly if this one has it left.** -/
theorem converge?_iff (h : Ended i m₀ wanted owned units done m) (hcleared : Cleared i wanted m₀)
    (hcomma : i.CommaFree) (htell : i.Telling) (hs : Surveyed i m wanted owned')
    (hp : wanted.pairs.get? id = some pair) {s : Step} :
    Plan.converge? ((owned'.pairOf id).half k) (pair.half k) = some s
      ↔ Plan.converge? ((owned.pairOf id).half k) (pair.half k) = some s
        ∧ ∃ u ∈ units, s ∈ u.remaining := by
  have hsame : ∀ {t}, Plan.converge? ((owned.pairOf id).half k) (pair.half k) = some t →
      (∃ u ∈ units, t ∈ u.remaining) → (owned'.pairOf id).half k = (owned.pairOf id).half k := by
    rintro t ht ⟨u, hu, hmem⟩
    refine h.surveyed.half_eq h.before h.sound hs ?_
    rw [← Plan.key_of_converge? h.before h.surveyed hp ht]
    exact h.cell_of_pending hcleared hu hmem
  constructor
  · intro hnext
    -- a half for which everything was done is found again, and needs nothing
    have hfound : (∀ t, Plan.converge? ((owned.pairOf id).half k) (pair.half k) = some t →
        t ∈ done) → False := by
      intro hdone
      obtain ⟨o, ho, hkey, hconverged⟩ := h.exists_half hp hdone
      have hnone := Plan.converge?_eq_none_iff.mpr
        ⟨o, h.half_found h.sound hcomma htell hs hp ho hkey hconverged⟩
      cases hnone.symm.trans hnext
    cases ht : Plan.converge? ((owned.pairOf id).half k) (pair.half k) with
    | none => exact (hfound fun t ht' => by cases ht.symm.trans ht').elim
    | some t =>
      rcases h.done_or_pending (Plan.planned_of_converge? hp ht) with hdone | hpending
      · exact (hfound fun t' ht' => by cases ht.symm.trans ht'; exact hdone).elim
      · rw [hsame ht hpending, ht] at hnext
        obtain rfl : t = s := Option.some.inj hnext
        exact ⟨rfl, hpending⟩
  · rintro ⟨ht, hpending⟩
    rw [hsame ht hpending]
    exact ht

/-- **What a unit has left of a branch begins with a creation that stays
impossible**, and a step for the source of the branch is that creation. -/
theorem exists_create (h : Ended i m₀ wanted owned units done m) (hcleared : Cleared i wanted m₀)
    (hp : wanted.pairs.get? id = some pair) {s : Step}
    (hneeded : Plan.converge? ((owned.pairOf id).half k) (pair.half k) = some s)
    (hpending : ∃ u ∈ units, s ∈ u.remaining) :
    ∃ l o, Plan.converge? ((owned.pairOf id).half l) (pair.half l) = some (.create l o)
      ∧ (∃ u ∈ units, Step.create l o ∈ u.remaining) ∧ ¬ m.Admits o.key
      ∧ (s = .create l o ∨ (l = .gitRepository ∧ k = .terraform)) := by
  obtain ⟨u, hu, hmem⟩ := hpending
  obtain ⟨id', pair', before, l, o, rest, hp', hsteps, hremaining, hadmits⟩ :=
    h.exists_stalled hu hmem
  rw [hremaining] at hmem
  -- the unit is that of the branch
  obtain ⟨k', hneeded'⟩ : ∃ k',
      Plan.converge? ((owned.pairOf id').half k') (pair'.half k') = some s :=
    Plan.mem_convergeSteps.mp (hsteps ▸ List.mem_append_right _ hmem)
  obtain ⟨rfl, rfl⟩ := Input.derivedKey_injective
    ((Plan.key_of_converge? h.before h.surveyed hp hneeded).symm.trans
      (Plan.key_of_converge? h.before h.surveyed hp' hneeded'))
  cases hp.symm.trans hp'
  obtain ⟨l', hfirst⟩ : ∃ l', Plan.converge? ((owned.pairOf id).half l') (pair.half l')
      = some (.create l o) :=
    Plan.mem_convergeSteps.mp (hsteps ▸ List.mem_append_cons_self)
  obtain rfl : l = l' := (Plan.kind_of_converge? hfirst).1
  have hfirst_mem : Step.create l o ∈ u.remaining := hremaining ▸ List.mem_cons_self
  refine ⟨l, o, hfirst, ⟨u, hu, hfirst_mem⟩, fun ⟨hkey, hnone⟩ => hadmits ⟨hkey, ?_⟩, ?_⟩
  · exact (h.cell_of_pending hcleared hu hfirst_mem).symm.trans hnone
  · rcases List.mem_cons.mp hmem with rfl | hlater
    · exact .inl rfl
    · have hordered := Plan.pairwise_convergeSteps (owned.pairOf id) pair
      rw [hsteps] at hordered
      obtain ⟨hl, hk⟩ := (List.pairwise_cons.mp (List.pairwise_append.mp hordered).2.1).1 s hlater
      exact .inr ⟨hl, (Plan.kind_of_converge? hneeded).1.symm.trans hk⟩

/-- **What remains is stalled.** After a pass over a cleared store, every change
that another pass would plan begins with an impossible creation. -/
theorem stable (h : Ended i m₀ wanted owned units done m) (hcleared : Cleared i wanted m₀)
    (hcomma : i.CommaFree) (htell : i.Telling) : Stable i m := by
  intro wanted' owned' hs c hc
  cases hs.derived.symm.trans h.surveyed.derived
  obtain ⟨id, pair, hp, hsteps, hne⟩ :=
    (h.cleared htell).converge_of_changes h.sound hs (Plan.mem_changes.mp hc)
  have hnext : ∀ {k s}, Plan.converge? ((owned'.pairOf id).half k) (pair.half k) = some s ↔ _ :=
    h.converge?_iff hcleared hcomma htell hs hp
  rw [hsteps] at hne ⊢
  rw [Plan.convergeSteps_eq, List.flatMap_cons, List.flatMap_singleton] at hne ⊢
  -- the first step planned is the creation at which the unit stands
  cases hsource : Plan.converge? ((owned'.pairOf id).half .gitRepository)
      (pair.half .gitRepository) with
  | some s =>
    obtain ⟨hneeded, hpending⟩ := hnext.mp hsource
    obtain ⟨l, o, -, -, hcannot, hs⟩ := h.exists_create hcleared hp hneeded hpending
    obtain rfl : s = .create l o := hs.resolve_right fun h => by cases h.2
    exact ⟨l, o, _, rfl, hcannot⟩
  | none =>
    cases hconfiguration : Plan.converge? ((owned'.pairOf id).half .terraform)
        (pair.half .terraform) with
    | none =>
      rw [hsource, hconfiguration] at hne
      exact absurd rfl hne
    | some s =>
      obtain ⟨hneeded, hpending⟩ := hnext.mp hconfiguration
      obtain ⟨l, o, hl, hlpending, hcannot, hs⟩ := h.exists_create hcleared hp hneeded hpending
      rcases hs with rfl | ⟨rfl, -⟩
      · exact ⟨l, o, _, rfl, hcannot⟩
      -- the source could not be created, so it would be planned again
      · cases hsource.symm.trans (hnext.mpr ⟨hl, hlpending⟩)

end Ended

/-- **One pass clears a store**, or it finds nothing to survey. -/
theorem Reached.cleared (hm₀ : m₀.Sound) (hi : i.Readable) (htell : i.Telling) (hcalm : Calm events)
    {r : Run Memory} (h : Reached i m₀ events r) (hresult : (r.stage.result? i).isSome = true) :
    (∃ wanted, i.derive? = some wanted ∧ Cleared i wanted r.state)
      ∨ r.state = m₀ ∧ Stable i m₀ := by
  refine (h.of_result hm₀ hi hcalm hresult).imp_left ?_
  rintro ⟨wanted, owned, units, done, hended⟩
  exact ⟨wanted, hended.surveyed.derived, hended.cleared htell⟩

/-- **A pass over a cleared store leaves it stable.** -/
theorem Reached.stable (hm₀ : m₀.Sound) (hi : i.Readable) (hcomma : i.CommaFree)
    (htell : i.Telling) (hcalm : Calm events) {r : Run Memory} (h : Reached i m₀ events r)
    (hresult : (r.stage.result? i).isSome = true) (hwanted : i.derive? = some wanted)
    (hcleared : Cleared i wanted m₀) : Stable i r.state := by
  rcases h.of_result hm₀ hi hcalm hresult with
    ⟨wanted', owned, units, done, hended⟩ | ⟨hsame, hstable⟩
  · cases hwanted.symm.trans hended.surveyed.derived
    exact hended.stable hcleared hcomma htell
  · rw [hsame]
    exact hstable

/-- A store after some passes, one after the other. -/
def afterPasses (clock : Nat → Timestamp) (i : Input) (m : Memory) (passes : List (List Event)) :
    Memory :=
  passes.foldl (fun m events => (Run.inMemory clock i m events).state) m

/-- **A stable store stays as it is**, however many passes run. -/
theorem afterPasses_of_stable (hclock : ∀ n, (clock n).ReadsBack) (hm : m.Sound)
    (hstable : Stable i m) (passes : List (List Event)) : afterPasses clock i m passes = m := by
  unfold afterPasses
  induction passes with
  | nil => rfl
  | cons events passes ih =>
    rw [List.foldl_cons, (Reached.inMemory hclock hm i events).state_of_stable hstable]
    exact ih

/-- **Two passes bring a store to rest.** Let two passes run with the same
inputs, one after the other, each until it gives a result, whatever that is; no
later pass with these inputs changes the store, in whatever order the calls of
each come, whichever of them fail, and whenever it is cancelled. -/
theorem stable_after_two_passes (hclock : ∀ n, (clock n).ReadsBack) {m : Memory}
    (hm : Memory.Reachable clock m) {i : Input} (hi : i.Readable) (hcomma : i.CommaFree)
    (htell : i.Telling) {first second : List Nat}
    (hfirst : ((Run.inMemory clock i m (first.map .turn)).stage.result? i).isSome = true)
    (hsecond : ((Run.inMemory clock i (Run.inMemory clock i m (first.map .turn)).state
      (second.map .turn)).stage.result? i).isSome = true)
    (later : List (List Event)) :
    let m₂ := afterPasses clock i m [first.map .turn, second.map .turn]
    afterPasses clock i m₂ later = m₂ := by
  have hm₀ := hm.sound hclock
  have hpass₁ := Reached.inMemory hclock hm₀ i (first.map .turn)
  have hm₁ := hpass₁.sound hm₀
  have hpass₂ := Reached.inMemory hclock hm₁ i (second.map .turn)
  have hm₂ := hpass₂.sound hm₁
  refine afterPasses_of_stable hclock hm₂ ?_ later
  rcases hpass₁.cleared hm₀ hi htell (calm_turns first) hfirst with
    ⟨wanted, hwanted, hcleared⟩ | ⟨hsame, hstable⟩
  · exact hpass₂.stable hm₁ hi hcomma htell (calm_turns second) hsecond hwanted hcleared
  · rw [← hsame] at hstable
    rw [hpass₂.state_of_stable hstable]
    exact hstable

/-- A first pass fails at the name that the stray holds and then deletes the
stray, and a second one creates what was missing. -/
theorem stable_after_failed_creation :
    let m₁ := afterPasses stoppedClock sampleInput strayedMemory [[0, 0, 0, 1].map .turn]
    let m₂ := afterPasses stoppedClock sampleInput strayedMemory
      [[0, 0, 0, 1].map .turn, [0, 0, 0, 0].map .turn]
    m₁.lastVersion < m₂.lastVersion
      ∧ ∀ later, afterPasses stoppedClock sampleInput m₂ later = m₂ := by
  refine ⟨by decide +kernel, fun later => ?_⟩
  exact stable_after_two_passes readsBack_stoppedClock reachable_strayedMemory
    readable_sampleInput commaFree_sampleInput telling_sampleInput (by decide +kernel)
    (by decide +kernel) later

end Pass

end PlanSync
