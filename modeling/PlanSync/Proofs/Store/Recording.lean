import PlanSync.Apply
import PlanSync.Proofs.Action
import PlanSync.Proofs.Store.Requests

/-!
# Stores that record their calls

A store that *records* answers every call as a given store does, and keeps a list of
what it was asked and how it failed (`Store.recording`). What is proved of that list is
proved of the calls that the given store gets. Nothing is assumed about the store: its
calls may succeed or fail, with any error, as its state tells.
-/

namespace PlanSync

variable {σ α β : Type}

/-- The error of an answer, if it is one. -/
def Answer.error? {ε : Type} : Except ε α → Option ε
  | .ok _ => none
  | .error e => some e

/-- **An exchange with a store**: what was asked, and the error of the answer, if it was
one. -/
structure Exchange where
  request : Request
  error : Option StoreError

/-- A store and the record of its calls. -/
abbrev Recorded (σ : Type) : Type := σ × List Exchange

/-- A call that is recorded. -/
def recorded (request : Request) (call : Call σ α) : Call (Recorded σ) α := fun s =>
  let r := call s.1
  { result := r.result, state := (r.state, s.2 ++ [⟨request, Answer.error? r.result⟩]),
    log := r.log }

/-- **A store that records**: every call is answered as by the given store, and is written
down. -/
def Store.recording (store : Store σ) : Store (Recorded σ) where
  get k ns name := recorded (.get ⟨k, ns, name⟩) (store.get k ns name)
  list k ns selector := recorded (.list k ns selector) (store.list k ns selector)
  create k o := recorded (.create k o) (store.create k o)
  update k o := recorded (.update k o) (store.update k o)
  delete k ns name := recorded (.delete ⟨k, ns, name⟩) (store.delete k ns name)

theorem leaves_recorded (request : Request) (call : Call σ α) (s : Recorded σ) :
    (recorded request call).Leaves s (call s.1).result
      ((call s.1).state, s.2 ++ [⟨request, Answer.error? (call s.1).result⟩]) := ⟨rfl, rfl⟩

/-- What is done with an answer is not recorded. -/
theorem recorded_discard (request : Request) (call : Call σ α) (b : β) :
    (do let _ ← recorded request call; return b : Call (Recorded σ) β)
      = recorded request (do let _ ← call; return b) := by
  funext s
  show Action.andThen (recorded request call) _ s = recorded request (Action.andThen call _) s
  simp only [Action.andThen, recorded]
  obtain ⟨result, state, log⟩ := call s.1
  cases result with
  | ok a => rfl
  | error e => rfl

/-! ## Actions that agree -/

namespace Action

variable {ε ε' : Type}

/-- **Two actions agree**, but for what one of them records. -/
def Agree (x' : Action (Recorded σ) ε α) (x : Action σ ε α) : Prop :=
  ∀ s, (x' s).result = (x s.1).result ∧ (x' s).state.1 = (x s.1).state

variable {x' : Action (Recorded σ) ε α} {x : Action σ ε α}

theorem Agree.of_leaves {result : Except ε α} (h' : ∀ s, x'.Leaves s result s)
    (h : ∀ s, x.Leaves s result s) : Agree x' x := fun s => by
  obtain ⟨hresult', hstate'⟩ := h' s
  obtain ⟨hresult, hstate⟩ := h s.1
  rw [hresult', hresult, hstate', hstate]
  exact ⟨rfl, rfl⟩

theorem agree_ofExcept (y : Except ε α) :
    Agree (ofExcept y : Action (Recorded σ) ε α) (ofExcept y) := fun _ => ⟨rfl, rfl⟩

theorem agree_done (a : α) : Agree (done a : Action (Recorded σ) ε α) (done a) :=
  fun _ => ⟨rfl, rfl⟩

theorem Agree.mapError (h : Agree x' x) (f : ε → ε') : Agree (x'.mapError f) (x.mapError f) :=
  fun s => ⟨congrArg (Except.mapError f) (h s).1, (h s).2⟩

/-- Actions that agree do so one after the other. -/
theorem Agree.bind {f' : α → Action (Recorded σ) ε β} {f : α → Action σ ε β} (h : Agree x' x)
    (hf : ∀ a, Agree (f' a) (f a)) : Agree (x' >>= f') (x >>= f) := fun s => by
  obtain ⟨hresult, hstate⟩ := h s
  show (andThen x' f' s).result = (andThen x f s.1).result
    ∧ (andThen x' f' s).state.1 = (andThen x f s.1).state
  simp only [andThen, hresult]
  cases (x s.1).result with
  | error e => exact ⟨rfl, hstate⟩
  | ok a =>
    rw [← hstate]
    exact hf a (x' s).state

end Action

theorem agree_recorded (request : Request) (call : Call σ α) :
    Action.Agree (recorded request call) call := fun _ => ⟨rfl, rfl⟩

end PlanSync
