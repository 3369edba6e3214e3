import PlanSync.Action

/-!
# What actions come to

What an action reports is left aside where only its answer and the state it leaves count
(`Action.Leaves`). Both follow step by step from what the parts of the action come to.

Two actions that are alike come to the same in states that differ only where neither of them
looks (`Action.Alike`).
-/

namespace PlanSync.Action

variable {σ ε ε' α β γ : Type} {x : Action σ ε α} {s s' s'' : σ}

/-- **What an action comes to**, whatever it reports: its answer and the state it leaves. -/
def Leaves (x : Action σ ε α) (s : σ) (result : Except ε α) (s' : σ) : Prop :=
  (x s).result = result ∧ (x s).state = s'

theorem leaves_of_eq {result : Except ε α} (h : x s = { result, state := s' }) :
    x.Leaves s result s' := by
  rw [Leaves, h]
  exact ⟨rfl, rfl⟩

/-! ## One action after another -/

theorem Leaves.bind {f : α → Action σ ε β} {a : α} {result : Except ε β}
    (h : x.Leaves s (.ok a) s') (h' : (f a).Leaves s' result s'') :
    (x >>= f).Leaves s result s'' := by
  obtain ⟨hresult, hstate⟩ := h
  show (andThen x f s).result = _ ∧ (andThen x f s).state = _
  rw [andThen, hresult, hstate]
  exact h'

theorem Leaves.bind_error {f : α → Action σ ε β} {e : ε} (h : x.Leaves s (.error e) s') :
    (x >>= f).Leaves s (.error e) s' := by
  obtain ⟨hresult, hstate⟩ := h
  show (andThen x f s).result = _ ∧ (andThen x f s).state = _
  rw [andThen, hresult, hstate]
  exact ⟨rfl, rfl⟩

/-- **Working on an answer changes the answer only.** -/
theorem Leaves.map (f : α → β) {result : Except ε α} (h : x.Leaves s result s') :
    (do let a ← x; return f a : Action σ ε β).Leaves s (result.map f) s' := by
  cases result with
  | ok a => exact h.bind ⟨rfl, rfl⟩
  | error e => exact h.bind_error

theorem Leaves.mapError {f : ε → ε'} {result : Except ε α} (h : x.Leaves s result s') :
    (x.mapError f).Leaves s (result.mapError f) s' :=
  ⟨congrArg (Except.mapError f) h.1, h.2⟩

/-! ## Single actions -/

theorem leaves_ofExcept {y result : Except ε α} (h : y = result) (s : σ) :
    (ofExcept y : Action σ ε α).Leaves s result s := ⟨h, rfl⟩

theorem leaves_state (s : σ) : (state : Action σ ε σ).Leaves s (.ok s) s := ⟨rfl, rfl⟩

theorem leaves_report (log : Log) (s : σ) : (report log : Action σ ε Unit).Leaves s (.ok ()) s :=
  ⟨rfl, rfl⟩

theorem leaves_done (a : α) (s : σ) : (done a : Action σ ε α).Leaves s (.ok a) s := ⟨rfl, rfl⟩

/-- After a check that passes, the state is looked at. -/
theorem leaves_checked {a : α} {f : σ → Action σ ε β} {result : Except ε β}
    (h : (f s).Leaves s result s') :
    (ofExcept (.ok a) >>= fun _ => state >>= f : Action σ ε β).Leaves s result s' :=
  (leaves_ofExcept rfl s).bind ((leaves_state s).bind h)

/-- After a check that fails, nothing is done. -/
theorem fails_checked {y : Except ε α} {e : ε} (h : y = .error e) (f : α → Action σ ε β)
    (g : β → Action σ ε γ) (s : σ) :
    (ofExcept y >>= f >>= g) s = { result := .error e, state := s } := by
  subst h
  rfl

/-! ## The same on a state -/

/-- **How actions are put together** makes no difference. -/
theorem bind_assoc (x : Action σ ε α) (f : α → Action σ ε β) (g : β → Action σ ε γ) :
    (x >>= f) >>= g = x >>= fun a => f a >>= g := by
  funext s
  show andThen (andThen x f) g s = andThen x (fun a => andThen (f a) g) s
  simp only [andThen]
  cases (x s).result with
  | error e => rfl
  | ok a =>
    simp only
    cases (f a (x s).state).result with
    | error e => rfl
    | ok b => simp only [List.append_assoc]

theorem bind_congr {y : Action σ ε α} (h : x s = y s) (f : α → Action σ ε β) :
    (x >>= f) s = (y >>= f) s := by
  show andThen x f s = andThen y f s
  rw [andThen, andThen, h]

/-- After a check, only what is done on the state that is looked at counts. -/
theorem checked_congr {f g : σ → Action σ ε β} (y : Except ε α) (h : f s s = g s s) :
    (ofExcept y >>= fun _ => state >>= f) s = (ofExcept y >>= fun _ => state >>= g) s := by
  cases y with
  | error e => rfl
  | ok _ =>
    show (⟨(f s s).result, (f s s).state, [] ++ ([] ++ (f s s).log)⟩ : Outcome σ ε β)
      = ⟨(g s s).result, (g s s).state, [] ++ ([] ++ (g s s).log)⟩
    rw [h]

end PlanSync.Action

namespace PlanSync

/-! ## Actions in two runs -/

/-- **Two actions come to the same**: the same answer and the same reports, and
states that stand in a relation. -/
structure Action.Alike {σ σ' ε α : Type} (R : σ → σ' → Prop) (x : Action σ ε α)
    (x' : Action σ' ε α) (s : σ) (s' : σ') : Prop where
  result : (x s).result = (x' s').result
  log : (x s).log = (x' s').log
  state : R (x s).state (x' s').state

namespace Action.Alike

variable {σ σ' ε ε' α β : Type} {R : σ → σ' → Prop} {x : Action σ ε α} {x' : Action σ' ε α}
  {s : σ} {s' : σ'}

/-- **One after the other**: what follows needs to come to the same only on the
answer that both give. -/
theorem bind {f : α → Action σ ε β} {f' : α → Action σ' ε β} (h : Alike R x x' s s')
    (hf : ∀ a, (x s).result = .ok a → Alike R (f a) (f' a) (x s).state (x' s').state) :
    Alike R (x >>= f) (x' >>= f') s s' := by
  show Alike R (andThen x f) (andThen x' f') s s'
  have hresult := h.result
  cases ha : (x s).result with
  | error e =>
    rw [ha] at hresult
    refine ⟨?_, ?_, ?_⟩ <;> simp only [andThen, ha, ← hresult]
    · exact h.log
    · exact h.state
  | ok a =>
    rw [ha] at hresult
    have hnext := hf a ha
    refine ⟨?_, ?_, ?_⟩ <;> simp only [andThen, ha, ← hresult]
    · exact hnext.result
    · rw [h.log, hnext.log]
    · exact hnext.state

theorem mapError (g : ε → ε') (h : Alike R x x' s s') :
    Alike R (x.mapError g) (x'.mapError g) s s' :=
  ⟨congrArg (Except.mapError g) h.result, h.log, h.state⟩

/-- An answer that needs no state is the same in all states. -/
theorem ofExcept (y : Except ε α) (h : R s s') : Alike R (.ofExcept y) (.ofExcept y) s s' :=
  ⟨rfl, rfl, h⟩

theorem report (log : Log) (h : R s s') :
    Alike R (.report log : Action σ ε Unit) (.report log) s s' := ⟨rfl, rfl, h⟩

theorem done (a : α) (h : R s s') : Alike R (.done a : Action σ ε α) (.done a) s s' :=
  ⟨rfl, rfl, h⟩

end Action.Alike

end PlanSync
