import PlanSync.Store.Basic

/-!
# A store that fails on request

Wraps a store so that chosen calls fail without any effect, and so that a pass
is cancelled after a number of changing calls have reached the wrapped store.
A pass over the wrapped store shows how the planner behaves when calls fail
and when it is stopped half way.
-/

namespace PlanSync

/-- The calls that can be made to fail: by name, or by kind for lists. -/
inductive FaultPoint where
  | get (name : String)
  | list (kind : Kind)
  | create (name : String)
  | update (name : String)
  | delete (name : String)
  deriving DecidableEq

/-- A wrapped store. -/
structure Faulty (σ : Type) where
  inner : σ
  faults : List (FaultPoint × StoreError) := []
  /-- The number of changing calls that reached the wrapped store. -/
  calls : Nat := 0
  /-- The number of calls after which the pass is cancelled; zero for never. -/
  cancelAfter : Nat := 0
  cancelled : Bool := false

namespace Faulty

variable {σ α : Type}

/-- The failure of a call, if one is asked for. -/
def fault? (f : Faulty σ) (p : FaultPoint) : Option StoreError := List.lookup p f.faults

/-- Begin a new pass: nothing has been called yet. -/
def rearm (f : Faulty σ) (cancelled : Bool) (cancelAfter : Nat) : Faulty σ :=
  { f with calls := 0, cancelAfter, cancelled }

/-- Count a changing call. -/
def count (f : Faulty σ) : Faulty σ :=
  let calls := f.calls + 1
  { f with calls, cancelled := f.cancelled || (f.cancelAfter ≠ 0 && calls = f.cancelAfter) }

/-- A call that does not change the wrapped store, unless it is made to fail. -/
def look (p : FaultPoint) (call : Call σ α) : Call (Faulty σ) α := fun f =>
  match f.fault? p with
  | some e => { result := .error e, state := f }
  | none =>
    let r := call f.inner
    { result := r.result, state := { f with inner := r.state }, log := r.log }

/-- A changing call, unless it is made to fail. -/
def change (p : FaultPoint) (call : Call σ α) : Call (Faulty σ) α := fun f =>
  match f.fault? p with
  | some e => { result := .error e, state := f }
  | none =>
    let r := call f.inner
    { result := r.result, state := { f with inner := r.state }.count, log := r.log }

/-- The wrapped store as a store. -/
def store (s : Store σ) : Store (Faulty σ) where
  get k ns name := look (.get name) (s.get k ns name)
  list k ns selector := look (.list k) (s.list k ns selector)
  create k o := change (.create o.name) (s.create k o)
  update k o := change (.update o.name) (s.update k o)
  delete k ns name := change (.delete name) (s.delete k ns name)

end Faulty

end PlanSync
