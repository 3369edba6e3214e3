import PlanSync.Proofs.Pass.Creation
import PlanSync.Proofs.Store.History

/-!
# A pass is a sequence of edits

Whatever a pass does to a store, it does by edits, and each call of the pass is
at most one (`Pass.Run.state_next`). So a pass leads from reachable states to
reachable ones (`Pass.reachable_inMemory`), and what holds of every store that
calls can reach holds of the store at every moment of a pass.
-/

namespace PlanSync

variable {σ : Type} {clock : Nat → Timestamp}

namespace Step

/-- The edit that a step asks for. -/
def edit : Step → Memory.Edit
  | create k o => .create k o
  | update k _ o => .update k o
  | delete key => .delete key

theorem state_discard {α : Type} (call : Call σ α) (s : σ) :
    ((do let _ ← call; return () : Call σ Unit) s).state = (call s).state := by
  show (Action.andThen call _ s).state = _
  simp only [Action.andThen]
  split <;> rfl

theorem state_issue (step : Step) (m : Memory) :
    (step.issue (Memory.store clock) m).state = step.edit.apply clock m := by
  cases step with
  | create k o => exact state_discard ((Memory.store clock).create k o) m
  | update k current o => exact state_discard ((Memory.store clock).update k o) m
  | delete key => rfl

/-- **A step is an edit**, unless the pass has been cancelled. -/
theorem state_run (flag : Memory → Bool) (step : Step) (m : Memory) :
    (step.run (Memory.store clock) flag m).state
      = if flag m then m else step.edit.apply clock m := by
  cases hflag : flag m with
  | true =>
    rw [run_of_cancelled step hflag, if_pos rfl]
    rfl
  | false =>
    rw [run_of_not_cancelled step hflag, state_settle, state_issue, if_neg Bool.false_ne_true]

/-- **A step leaves every other object** as it was. -/
theorem cell_run_of_ne (hclock : ∀ n, (clock n).ReadsBack) {m : Memory} (hm : m.Sound)
    (flag : Memory → Bool) (step : Step) {key : ObjectKey} (hkey : key ≠ step.key) :
    (step.run (Memory.store clock) flag m).state.cell key = m.cell key := by
  cases hflag : flag m with
  | true => rw [state_run, if_pos hflag]
  | false =>
    rcases run_cases hclock hm flag hflag step with ⟨-, hdoes, -⟩ | ⟨-, -, hsame, -⟩
    · exact hdoes.frame key hkey
    · rw [hsame]

end Step

namespace Pass

variable {i : Input} {m : Memory} {events : List Event} {e : Event}

/-- **Listing changes nothing**, in a store where it does not. -/
theorem Stage.state_of_advance {store : Store σ} {cancelled : Bool} {place : Nat} {stage : Stage}
    {s : σ} (hlist : ∀ k ns selector, (store.list k ns selector s).state = s)
    (h : ∀ plan units, stage ≠ .applying plan units) :
    (stage.advance store cancelled i place s).2 = s := by
  cases stage with
  | applying plan units => exact absurd rfl (h plan units)
  | refused => rfl
  | begun =>
    rcases advance_begun store i cancelled place s with ⟨_, _, h, -, hs, -⟩ | ⟨_, _, h, -⟩
    · rw [h]
      exact hs.elim id fun hs => hs.trans (hlist ..)
    · rw [h]
      exact hlist ..
  | listing wanted ts =>
    rcases advance_listing store i cancelled place wanted ts s with ⟨_, h, -⟩ | ⟨_, h, -⟩
    · rw [h]
      exact hlist ..
    · rw [h]
      exact hlist ..

/-- **What a call of a pass does to the store**: nothing, or the edit of the next
step of a unit. -/
theorem Stage.state_advance (stage : Stage) (cancelled : Bool) (place : Nat) (m : Memory) :
    (stage.advance (Memory.store clock) cancelled i place m).2 = m
      ∨ ∃ plan units, stage = .applying plan units ∧ ∃ u ∈ units, ∃ step ∈ u.remaining,
        (stage.advance (Memory.store clock) cancelled i place m).2 = step.edit.apply clock m := by
  by_cases happlying : ∃ plan units, stage = .applying plan units
  · obtain ⟨plan, units, rfl⟩ := happlying
    rcases advance_applying (Memory.store clock) i cancelled plan units place m with
      h | ⟨before, later, u, step, rest, rfl, -, hnext, h⟩
    · exact .inl (congrArg Prod.snd h)
    · rw [h, Step.state_run]
      split
      · exact .inl rfl
      · exact .inr ⟨plan, _, rfl, u, List.mem_append_cons_self, step,
          hnext ▸ List.mem_cons_self, rfl⟩
  · exact .inl (Stage.state_of_advance (fun _ _ _ => rfl) fun plan units h =>
      happlying ⟨plan, units, h⟩)

/-- A call that does not get through changes nothing. -/
theorem Stage.state_advance_failing (stage : Stage) (cancelled : Bool) (place : Nat)
    (cause : StoreError) (s : σ) :
    (stage.advance (Store.failing cause) cancelled i place s).2 = s := by
  by_cases happlying : ∃ plan units, stage = .applying plan units
  · obtain ⟨plan, units, rfl⟩ := happlying
    rcases advance_applying (Store.failing cause) i cancelled plan units place s with
      h | ⟨before, later, u, step, rest, -, -, -, h⟩
    · exact congrArg Prod.snd h
    · rw [h]
      exact (Step.run_failing cause (fun _ => cancelled) step s).1
  · exact Stage.state_of_advance (fun _ _ _ => rfl) fun plan units h => happlying ⟨plan, units, h⟩

/-- **What an event does to the store**: nothing, or the edit of the next step of
a unit. -/
theorem Run.state_next (r : Run Memory) (e : Event) :
    (r.next (Memory.store clock) i e).state = r.state
      ∨ ∃ plan units, r.stage = .applying plan units ∧ ∃ u ∈ units, ∃ step ∈ u.remaining,
        (r.next (Memory.store clock) i e).state = step.edit.apply clock r.state := by
  cases e with
  | cancel => exact .inl rfl
  | turn place => exact r.stage.state_advance r.cancelled place r.state
  | fault place cause => exact .inl (r.stage.state_advance_failing r.cancelled place cause r.state)

/-- **A pass leads from reachable states to reachable ones.** -/
theorem reachable_inMemory (hm : Memory.Reachable clock m) (i : Input) (events : List Event) :
    Memory.Reachable clock (Run.inMemory clock i m events).state := by
  refine Run.after_induction (p := fun r => Memory.Reachable clock r.state) hm fun r e _ h => ?_
  rcases r.state_next e with hsame | ⟨-, -, -, -, -, step, -, hedit⟩
  · rw [hsame]
    exact h
  · rw [hedit]
    exact h.edit step.edit

end Pass

end PlanSync
