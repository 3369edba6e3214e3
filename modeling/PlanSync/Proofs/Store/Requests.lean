import PlanSync.Store.Basic
import PlanSync.Proofs.Object.Stored

/-!
# Runs of requests

Clients talk to a store in *requests*. A store answers a request with the objects it
gives back, or with an error, and goes on from the state that the request leaves,
whether it succeeds or fails. So a run is a state and a list of requests, whoever
they come from, and its history can be read off any prefix of the list.

Nothing here is about a store in particular.
-/

namespace PlanSync

/-- **A copy**: an object that a store has given to a client. -/
abbrev Copy := Σ k : Kind, Object k

/-- What identifies the object of a copy. -/
def Copy.key (c : Copy) : ObjectKey := c.2.key

/-- The version of a copy. -/
def Copy.version (c : Copy) : Option String := c.2.metadata.resourceVersion

/-- **A request** to a store. -/
inductive Request where
  | get (key : ObjectKey)
  | list (k : Kind) (namespaceName : String) (selector : Selector)
  | create (k : Kind) (o : Object k)
  | update (k : Kind) (o : Object k)
  | delete (key : ObjectKey)

namespace Request

variable {σ : Type}

/-- The key that a request may change; none if it only looks. -/
def target? : Request → Option ObjectKey
  | get _ | list .. => none
  | create _ o => some o.key
  | update _ o => some o.key
  | delete key => some key

/-- The key of the object that a request creates; none if it creates none. -/
def creates? : Request → Option ObjectKey
  | create _ o => some o.key
  | _ => none

/-- Whether a request writes an object. -/
def isWrite : Request → Bool
  | create .. | update .. => true
  | _ => false

/-- A request that only looks does not write. -/
theorem isWrite_of_look {r : Request} (h : r.target? = none) : r.isWrite = false := by
  cases r with
  | get | list => rfl
  | create | update | delete => cases h

/-- **What a request writes, a reader can give.** -/
def Readable : Request → Prop
  | create _ o => o.Readable
  | update _ o => o.Readable
  | _ => True

/-- A request, answered with copies. -/
def issue (store : Store σ) : Request → Call σ (List Copy)
  | get key => do
    let o ← store.get key.kind key.namespaceName key.name
    return [⟨key.kind, o⟩]
  | list k namespaceName selector => do
    let os ← store.list k namespaceName selector
    return os.map (⟨k, ·⟩)
  | create k o => do
    let o ← store.create k o
    return [⟨k, o⟩]
  | update k o => do
    let o ← store.update k o
    return [⟨k, o⟩]
  | delete key => do
    store.delete key.kind key.namespaceName key.name
    return []

end Request

namespace Store

variable {σ : Type} (store : Store σ)

/-- The state that requests lead to. -/
def after (s : σ) (requests : List Request) : σ :=
  requests.foldl (fun s r => (r.issue store s).state) s

@[simp] theorem after_nil (s : σ) : store.after s [] = s := rfl

theorem after_cons (s : σ) (r : Request) (requests : List Request) :
    store.after s (r :: requests) = store.after (r.issue store s).state requests := rfl

theorem after_append (s : σ) (requests requests' : List Request) :
    store.after s (requests ++ requests') = store.after (store.after s requests) requests' :=
  List.foldl_append

theorem after_append_singleton (s : σ) (requests : List Request) (r : Request) :
    store.after s (requests ++ [r]) = (r.issue store (store.after s requests)).state :=
  store.after_append s requests [r]

/-- What comes after a request goes on from the state that it leaves. -/
theorem after_append_cons (s : σ) (before : List Request) (r : Request) (between : List Request) :
    store.after s (before ++ r :: between)
      = store.after (store.after s (before ++ [r])) between := by
  rw [← after_append, List.append_assoc, List.singleton_append]

/-- **After some requests, a request gives copies.** -/
def Gives (s : σ) (before : List Request) (r : Request) (copies : List Copy) : Prop :=
  (r.issue store (store.after s before)).result = .ok copies

/-- The answers to requests, in order. -/
def answers : σ → List Request → List (Except StoreError (List Copy))
  | _, [] => []
  | s, r :: requests => (r.issue store s).result :: answers (r.issue store s).state requests

theorem answers_append (s : σ) (requests requests' : List Request) :
    store.answers s (requests ++ requests')
      = store.answers s requests ++ store.answers (store.after s requests) requests' := by
  induction requests generalizing s with
  | nil => rfl
  | cons r requests ih => rw [List.cons_append, answers, answers, after_cons, ih, List.cons_append]

theorem length_answers (s : σ) (requests : List Request) :
    (store.answers s requests).length = requests.length := by
  induction requests generalizing s with
  | nil => rfl
  | cons r requests ih => rw [answers, List.length_cons, List.length_cons, ih]

/-- **The requests that succeed**, in order. -/
def succeeded : σ → List Request → List Request
  | _, [] => []
  | s, r :: requests =>
    match (r.issue store s).result with
    | .ok _ => r :: succeeded (r.issue store s).state requests
    | .error _ => succeeded (r.issue store s).state requests

/-- **What has succeeded since** a request was answered. -/
def succeededSince (s : σ) (before : List Request) (r : Request) (between : List Request) :
    List Request :=
  store.succeeded (store.after s (before ++ [r])) between

theorem length_succeeded_le (s : σ) (requests : List Request) :
    (store.succeeded s requests).length ≤ requests.length := by
  induction requests generalizing s with
  | nil => exact Nat.le_refl _
  | cons r requests ih =>
    rw [succeeded]
    split
    · exact Nat.succ_le_succ (ih _)
    · exact Nat.le_succ_of_le (ih _)

theorem succeeded_append (s : σ) (requests requests' : List Request) :
    store.succeeded s (requests ++ requests')
      = store.succeeded s requests ++ store.succeeded (store.after s requests) requests' := by
  induction requests generalizing s with
  | nil => rfl
  | cons r requests ih =>
    rw [List.cons_append, succeeded, succeeded, after_cons]
    cases (r.issue store s).result with
    | ok copies => rw [ih, List.cons_append]
    | error e => exact ih _

/-- **A request has succeeded** if it gave copies at its place in the run. -/
theorem mem_succeeded {s : σ} {requests : List Request} {r : Request} :
    r ∈ store.succeeded s requests
      ↔ ∃ before later copies, requests = before ++ r :: later ∧ store.Gives s before r copies := by
  induction requests generalizing s with
  | nil => simp [succeeded]
  | cons r' requests ih =>
    have htail : r ∈ store.succeeded (r'.issue store s).state requests
        → ∃ before later copies, r' :: requests = before ++ r :: later
          ∧ store.Gives s before r copies := by
      intro h
      obtain ⟨before, later, copies, rfl, hgives⟩ := ih.mp h
      exact ⟨r' :: before, later, copies, rfl, hgives⟩
    constructor
    · intro h
      rw [succeeded] at h
      split at h
      · next copies hok =>
        rcases List.mem_cons.mp h with rfl | h
        · exact ⟨[], requests, copies, rfl, hok⟩
        · exact htail h
      · exact htail h
    · rintro ⟨before, later, copies, heq, hgives⟩
      rw [succeeded]
      cases before with
      | nil =>
        obtain ⟨rfl, rfl⟩ := List.cons.inj heq
        have hok : (r'.issue store s).result = .ok copies := hgives
        rw [hok]
        exact List.mem_cons_self
      | cons _ before =>
        obtain ⟨rfl, rfl⟩ := List.cons.inj heq
        have hmem := ih.mpr ⟨before, later, copies, rfl, hgives⟩
        split
        · exact List.mem_cons_of_mem _ hmem
        · exact hmem

/-- **What every request of a run preserves, the run preserves.** -/
theorem after_induction {p : σ → Prop} {s : σ} {requests : List Request} (h : p s)
    (hnext : ∀ s, ∀ r ∈ requests, p s → p (r.issue store s).state) :
    p (store.after s requests) := by
  induction requests generalizing s with
  | nil => exact h
  | cons r requests ih =>
    exact ih (hnext s r List.mem_cons_self h) fun s r hr =>
      hnext s r (List.mem_cons_of_mem _ hr)

end Store

/-! ## A source that is created again

A small case to run stores on. A source is created, deleted, and created again; then
comes an update with the version that the source had when it was created first. -/

/-- A moment. -/
def noon : Timestamp :=
  { year := 2024, month := 5, day := 6, hour := 12, minute := 0, second := 0, nanosecond := 0 }

theorem readsBack_noon : noon.ReadsBack := by decide

/-- A source. -/
def plainSource : GitRepository where
  metadata := { name := "repo", namespaceName := "team" }
  spec := ({ url := "https://example.com/repo" } : GitRepositorySpec)

theorem readable_plainSource (version : Option String) :
    (plainSource.stamped version none).Readable := by
  refine Object.readable_of_tidy ⟨⟨fun _ _ hj => ?_, fun r hr => ?_⟩, fun _ hj => ?_⟩ fun _ ht => ?_
  · cases hj
  · cases hr
  · cases hj
  · cases ht

/-- The requests. -/
def madeAgain : List Request :=
  [.create .gitRepository plainSource, .delete plainSource.key,
    .create .gitRepository plainSource,
    .update .gitRepository (plainSource.stamped (some "1") none)]

theorem readable_madeAgain : ∀ r ∈ madeAgain, r.Readable := by
  simp only [madeAgain, List.forall_mem_cons]
  exact ⟨readable_plainSource none, trivial, readable_plainSource none, readable_plainSource _,
    fun _ hr => by cases hr⟩

end PlanSync
