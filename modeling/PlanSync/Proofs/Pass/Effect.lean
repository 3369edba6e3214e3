import PlanSync.Proofs.Pass.Schedule

/-!
# What steps do to a store in memory

A step that succeeds changes the cell of its object and no other
(`Step.Does`); a step that fails changes nothing, and unless it was cancelled
it fails because it could not be done (`Step.run_cases`).

From that follows what any number of steps do together, as long as they are
apart (`Memory.Applied`): every cell is as the last step that was done for it
left it, and a cell for which none was done is as it was. Two steps of one plan
that are about one object need not be told apart by when they are done: one
deletes a stray, the other creates the object that takes its name, and the
second can only be done after the first.
-/

namespace PlanSync

/-- **Stored as**: a value is the stored form of an object, whatever the store
has assigned to it. -/
def Object.StoredAs {k : Kind} (o : Object k) (j : Json) : Prop :=
  ∃ version created, (o.stamped version created).CreationReadsBack
    ∧ j = (o.stamped version created).toJson.sortKeys

/-- What is stored of a tidy object is held, with what the store has assigned. -/
theorem Object.StoredAs.holds {k : Kind} {o : Object k} {j : Json} {m : Memory}
    (h : o.StoredAs j) (ht : o.Tidy) (hj : m.cell o.key = some j) :
    ∃ version created, m.Holds (o.stamped version created) := by
  obtain ⟨version, created, hc, rfl⟩ := h
  exact ⟨version, created, Memory.holds_of_cell ht.stamped hc hj⟩

namespace Step

/-! ## One step -/

/-- What a step leaves in the cell of its object. -/
def Leaves : Step → Option Json → Prop
  | create _ o, cell => ∃ j, cell = some j ∧ o.StoredAs j
  | update _ _ o, cell => ∃ j, cell = some j ∧ o.StoredAs j
  | delete _, cell => cell = none

/-- A deletion leaves nothing. -/
theorem Leaves.ne_delete {s : Step} {j : Json} (h : s.Leaves (some j)) :
    s.operation ≠ .delete := by
  cases s with
  | create | update => exact fun hop => by cases hop
  | delete key => cases h

/-- What a step needs to be done. Deleting needs nothing, for what is already
gone counts as deleted. -/
def Can (m : Memory) : Step → Prop
  | create _ o => m.Admits o.key
  | update _ _ o => ∃ stored, m.Replaces o stored
  | delete _ => True

/-- **A step is done**: it was possible, leaves its cell as it should, and
leaves all other cells alone. -/
structure Does (s : Step) (m m' : Memory) : Prop where
  possible : s.Can m
  left : s.Leaves (m'.cell s.key)
  frame : ∀ key, key ≠ s.key → m'.cell key = m.cell key

theorem storedAs_write {m : Memory} {k : Kind} {o : Object k} {created : Option Timestamp}
    (hc : ∀ t, created = some t → t.ReadsBack) :
    ∃ j, (m.write o created).2.cell o.key = some j ∧ o.StoredAs j :=
  ⟨_, Memory.cell_write_self m o created, _, _, hc, rfl⟩

variable {clock : Nat → Timestamp} {m : Memory}

theorem run_of_cancelled {σ : Type} {store : Store σ} {flag : σ → Bool} {s : σ} (step : Step)
    (h : flag s = true) : step.run store flag s = Action.fail .cancelled s := if_pos h

theorem run_of_not_cancelled {σ : Type} {store : Store σ} {flag : σ → Bool} {s : σ} (step : Step)
    (h : flag s = false) : step.run store flag s = step.settle (step.issue store s) :=
  if_neg (by rw [h]; exact Bool.false_ne_true)

/-- Settling matters to deletions only. -/
theorem settle_of_ne_delete {σ : Type} {step : Step} (h : step.operation ≠ .delete)
    (r : Outcome σ StoreError Unit) : step.settle r = r := by
  cases step with
  | delete key => exact absurd rfl h
  | create k o => rfl
  | update k o o' => rfl

/-- Settling looks at the answer and not at the store. -/
theorem state_settle {σ : Type} (step : Step) (r : Outcome σ StoreError Unit) :
    (step.settle r).state = r.state := by
  cases step with
  | create | update => rfl
  | delete key =>
    unfold settle
    cases r.result with
    | ok _ => rfl
    | error e =>
      show (if e.isNotFound then _ else r).state = r.state
      split <;> rfl

/-- **A step has run**: it is done, or it was impossible and changed nothing. -/
def Ran (s : Step) (m : Memory) (r : Outcome Memory StoreError Unit) : Prop :=
  (r.result = .ok () ∧ s.Does m r.state ∧ r.state.Sound)
    ∨ ∃ e, r.result = .error e ∧ r.state = m ∧ ¬ s.Can m

section Discard

variable {σ α : Type} {call : Call σ α} {s s' : σ}

/-- What the store returns of a written object is not looked at. -/
theorem discard_ok {a : α} (h : call s = { result := .ok a, state := s' }) :
    (do let _ ← call; return () : Call σ Unit) s = { result := .ok (), state := s' } := by
  show Action.andThen call _ s = _
  unfold Action.andThen
  rw [h]
  rfl

theorem discard_error {e : StoreError} (h : call s = { result := .error e, state := s' }) :
    (do let _ ← call; return () : Call σ Unit) s = { result := .error e, state := s' } := by
  show Action.andThen call _ s = _
  unfold Action.andThen
  rw [h]

end Discard

theorem ran_create (hclock : ∀ n, (clock n).ReadsBack) (hm : m.Sound) (k : Kind) (o : Object k) :
    (create k o).Ran m ((create k o).issue (Memory.store clock) m) := by
  rcases Memory.create_cases clock m o with ⟨hadmits, h⟩ | ⟨hcannot, e, h⟩
  · have hc : ∀ t, some (clock (m.lastVersion + 1)) = some t → t.ReadsBack :=
      fun t ht => Option.some.inj ht ▸ hclock _
    rw [show (create k o).issue (Memory.store clock) m = _ from discard_ok h]
    exact .inl ⟨rfl, ⟨hadmits, storedAs_write hc, fun _ => Memory.cell_write_of_ne⟩,
      hm.write hadmits.1 hc⟩
  · rw [show (create k o).issue (Memory.store clock) m = _ from discard_error h]
    exact .inr ⟨e, rfl, rfl, hcannot⟩

theorem ran_update (clock : Nat → Timestamp) (hm : m.Sound) (k : Kind) (current o : Object k) :
    (update k current o).Ran m ((update k current o).issue (Memory.store clock) m) := by
  rcases Memory.update_cases clock m o with ⟨stored, hr, h⟩ | ⟨hcannot, e, h⟩
  · obtain ⟨j, hj, hd⟩ := hr.found
    have hc := (hm.key_of_decode hj hd).2
    rw [show (update k current o).issue (Memory.store clock) m = _ from discard_ok h]
    exact .inl ⟨rfl, ⟨⟨stored, hr⟩, storedAs_write hc, fun _ => Memory.cell_write_of_ne⟩,
      hm.write hr.storable hc⟩
  · rw [show (update k current o).issue (Memory.store clock) m = _ from discard_error h]
    exact .inr ⟨e, rfl, rfl, fun hcan => hcan.elim hcannot⟩

theorem ran_delete (clock : Nat → Timestamp) (hm : m.Sound) (key : ObjectKey) :
    (delete key).Ran m ((delete key).settle ((delete key).issue (Memory.store clock) m)) := by
  rcases Memory.delete_cases clock m key with ⟨-, h⟩ | ⟨hnone, h⟩
  · rw [show (delete key).issue (Memory.store clock) m = _ from h]
    refine .inl ⟨rfl, ⟨trivial, ?_, fun l hl => ?_⟩, hm.drop key⟩
    · exact (Memory.cell_drop m key key).trans (if_pos rfl)
    · exact (Memory.cell_drop m key l).trans (if_neg hl)
  · -- what is already gone counts as deleted
    rw [show (delete key).issue (Memory.store clock) m = _ from h]
    exact .inl ⟨rfl, ⟨trivial, hnone, fun _ _ => rfl⟩, hm⟩

/-- **A step is done, or it changes nothing.** -/
theorem run_cases (hclock : ∀ n, (clock n).ReadsBack) (hm : m.Sound) (flag : Memory → Bool)
    (hflag : flag m = false) (s : Step) : s.Ran m (s.run (Memory.store clock) flag m) := by
  rw [run_of_not_cancelled s hflag]
  cases s with
  | create k o =>
    rw [settle_of_ne_delete fun h => by cases h]
    exact ran_create hclock hm k o
  | update k current o =>
    rw [settle_of_ne_delete fun h => by cases h]
    exact ran_update clock hm k current o
  | delete key => exact ran_delete clock hm key

/-- **A call that does not get through changes nothing**, and only a deletion
can take it for a success. -/
theorem run_failing {σ : Type} (cause : StoreError) (flag : σ → Bool) (step : Step) (s : σ) :
    (step.run (Store.failing cause) flag s).state = s
      ∧ ((step.run (Store.failing cause) flag s).result = .ok () → step.operation = .delete) := by
  cases hflag : flag s with
  | true =>
    rw [run_of_cancelled step hflag]
    exact ⟨rfl, fun h => by cases h⟩
  | false =>
    rw [run_of_not_cancelled step hflag]
    cases step with
    | create k o => exact ⟨rfl, fun h => by cases h⟩
    | update k current o => exact ⟨rfl, fun h => by cases h⟩
    | delete key =>
      refine ⟨?_, fun _ => rfl⟩
      show (settle (delete key) (Action.fail cause s)).state = s
      simp only [settle, Action.fail]
      split <;> rfl

end Step

/-! ## Many steps -/

namespace Memory

/-- **Steps are applied**: of a store as it was, what a list of steps that were
done has made. Every cell is as it was or as a step has left it; and an object
was created only where nothing stood, be it that nothing ever did or that a
step deleted it. -/
structure Applied (m₀ : Memory) (done : List Step) (m : Memory) : Prop where
  frame : ∀ key, (∀ s ∈ done, s.key ≠ key) → m.cell key = m₀.cell key
  left : ∀ s ∈ done, s.Leaves (m.cell s.key)
    ∨ (s.operation = .delete ∧ ∃ c ∈ done, c.operation = .create ∧ c.key = s.key)
  order : ∀ c ∈ done, c.operation = .create →
    m₀.cell c.key = none ∨ ∃ d ∈ done, d.operation = .delete ∧ d.key = c.key

namespace Applied

variable {m₀ m m' : Memory} {done : List Step}

theorem refl (m : Memory) : Applied m [] m :=
  ⟨fun _ _ => rfl, fun _ hs => (by cases hs), fun _ hc => (by cases hc)⟩

theorem perm {done' : List Step} (h : Applied m₀ done m) (hp : done.Perm done') :
    Applied m₀ done' m where
  frame key hkey := h.frame key fun s hs => hkey s (hp.mem_iff.mp hs)
  left s hs := (h.left s (hp.mem_iff.mpr hs)).imp_right fun ⟨hd, c, hc, hcreate⟩ =>
    ⟨hd, c, hp.mem_iff.mp hc, hcreate⟩
  order c hc hcreate := (h.order c (hp.mem_iff.mpr hc) hcreate).imp_right
    fun ⟨d, hd, hdelete⟩ => ⟨d, hp.mem_iff.mp hd, hdelete⟩

/-- What is created or updated stands as it was left. -/
theorem leaves (h : Applied m₀ done m) {s : Step} (hs : s ∈ done) (hop : s.operation ≠ .delete) :
    s.Leaves (m.cell s.key) :=
  (h.left s hs).resolve_right fun hd => hop hd.1

/-- **A cell is as it was** and no step was about it, or it is as a step left it. -/
theorem cell_cases (h : Applied m₀ done m) (key : ObjectKey) :
    ((∀ s ∈ done, s.key ≠ key) ∧ m.cell key = m₀.cell key)
      ∨ ∃ s ∈ done, s.key = key ∧ s.Leaves (m.cell key) := by
  by_cases htouched : ∃ s ∈ done, s.key = key
  · right
    obtain ⟨s, hs, rfl⟩ := htouched
    rcases h.left s hs with hleaves | ⟨-, c, hc, hcreate, hkey⟩
    · exact ⟨s, hs, rfl, hleaves⟩
    · refine ⟨c, hc, hkey, hkey ▸ h.leaves hc fun hdelete => ?_⟩
      cases hcreate.symm.trans hdelete
  · left
    have hnone : ∀ s ∈ done, s.key ≠ key := fun s hs hkey => htouched ⟨s, hs, hkey⟩
    exact ⟨hnone, h.frame key hnone⟩

/-- **One more step** that is apart from those done, and deletes only what was
there before them. -/
theorem does (h : Applied m₀ done m) {s : Step} (hs : s.Does m m')
    (hapart : ∀ t ∈ done, s.Apart t) (hdelete : s.operation = .delete → m₀.cell s.key ≠ none) :
    Applied m₀ (s :: done) m' where
  frame key hkey := by
    rw [hs.frame key (hkey s List.mem_cons_self).symm]
    exact h.frame key fun t ht => hkey t (List.mem_cons_of_mem _ ht)
  left t ht := by
    rcases List.mem_cons.mp ht with rfl | ht
    · exact .inl hs.left
    -- the new step matters to an earlier one only if both are about one object,
    -- and then one of them creates and the other deletes it
    by_cases hkey : s.key = t.key
    · rcases hapart t ht hkey with ⟨hcreate, hdel⟩ | ⟨hdel, hcreate⟩
      · exact .inr ⟨hdel, s, List.mem_cons_self, hcreate, hkey⟩
      · -- what is deleted was there, so what was created had been deleted before
        rcases h.order t ht hcreate with hnone | ⟨d, hd, hdel', hkey'⟩
        · exact absurd (hkey ▸ hnone) (hdelete hdel)
        · rcases hapart d hd (hkey.trans hkey'.symm) with ⟨hop, -⟩ | ⟨-, hop⟩
          · cases hop.symm.trans hdel
          · cases hop.symm.trans hdel'
    · rw [hs.frame t.key fun h => hkey h.symm]
      exact (h.left t ht).imp_right fun ⟨hd, c, hc, hcreate⟩ =>
        ⟨hd, c, List.mem_cons_of_mem _ hc, hcreate⟩
  order c hc hcreate := by
    rcases List.mem_cons.mp hc with rfl | hc
    · by_cases htouched : ∃ t ∈ done, t.key = c.key
      · obtain ⟨t, ht, hkey⟩ := htouched
        rcases hapart t ht hkey.symm with ⟨-, hdel⟩ | ⟨hdel, -⟩
        · exact .inr ⟨t, List.mem_cons_of_mem _ ht, hdel, hkey⟩
        · cases hdel.symm.trans hcreate
      · have hsame := h.frame c.key fun t ht hkey => htouched ⟨t, ht, hkey⟩
        cases c with
        | create k o => exact .inl (hsame.symm.trans hs.possible.2)
        | update k o o' => cases hcreate
        | delete key => cases hcreate
    · exact (h.order c hc hcreate).imp_right fun ⟨d, hd, hdel⟩ =>
        ⟨d, List.mem_cons_of_mem _ hd, hdel⟩

end Applied

end Memory

end PlanSync
