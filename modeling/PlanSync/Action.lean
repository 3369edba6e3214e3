import PlanSync.Log

/-!
# Actions

An *action* is something that is done with a state: it gives an answer or
fails, and either way leaves a state and reports behind. Actions are done one
after the other up to the first that fails.
-/

namespace PlanSync

/-- What an action leaves behind. -/
structure Outcome (σ ε α : Type) where
  result : Except ε α
  state : σ
  log : Log := []

/-- Something that is done with a state and may fail. -/
def Action (σ ε α : Type) : Type := σ → Outcome σ ε α

namespace Action

variable {σ ε ε' α β : Type}

/-- Succeed and do nothing. -/
def done (a : α) : Action σ ε α := fun s => { result := .ok a, state := s }

/-- Fail and do nothing. -/
def fail (e : ε) : Action σ ε α := fun s => { result := .error e, state := s }

/-- Report and do nothing. -/
def report (log : Log) : Action σ ε Unit := fun s => { result := .ok (), state := s, log }

/-- One action after another; nothing is done after a failure. -/
def andThen (x : Action σ ε α) (f : α → Action σ ε β) : Action σ ε β := fun s =>
  let r := x s
  match r.result with
  | .error e => { result := .error e, state := r.state, log := r.log }
  | .ok a =>
    let r' := f a r.state
    { result := r'.result, state := r'.state, log := r.log ++ r'.log }

instance : Monad (Action σ ε) where
  pure := done
  bind := andThen

/-- Give the failures of an action another type. -/
def mapError (f : ε → ε') (x : Action σ ε α) : Action σ ε' α := fun s =>
  let r := x s
  { result := r.result.mapError f, state := r.state, log := r.log }

/-- Look at the state. -/
def state : Action σ ε σ := fun s => { result := .ok s, state := s }

/-- An answer that needs no state. -/
def ofExcept (x : Except ε α) : Action σ ε α := fun s => { result := x, state := s }

end Action

end PlanSync
