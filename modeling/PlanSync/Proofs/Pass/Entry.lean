import PlanSync.Proofs.Action
import PlanSync.Proofs.Pass.Course
import PlanSync.Proofs.Store.Recording

/-!
# How passes are asked for

A pass is asked for with its inputs, or by the name of a template (`Pass.Entry`). In the
second case the template and its source are read from the store, and the provider is
asked for the pull requests; what is asked then, and what comes of it, is told by
`Pass.LookedUp`.

A pass looks whether it has been cancelled when it has its inputs. So a cancelled pass
that is asked for with its inputs does nothing, and one that is asked for by name does no
more than look for its inputs, and fails if it cannot find them
(`Pass.cancelled_from_the_start`).
-/

namespace PlanSync.Pass

variable {σ : Type}

/-- **How a pass is asked for**: with its inputs, or by the name of a template. -/
inductive Entry where
  | reconcile (i : Input)
  | poll (policy : ReferencePolicy) (provider : Provider) (namespaceName name : String)

namespace Entry

/-- The inputs of the pass. -/
def inputs (store : Store σ) : Entry → Action σ PassError Input
  | reconcile i => .done i
  | poll policy provider namespaceName name => do
    let (template, source) ← resolve store policy namespaceName name
    let prs ← pullRequests provider source
    return { template, source, pullRequests := prs }

/-- The call. -/
def call (store : Store σ) (flag : σ → Bool) : Entry → σ → Result × σ × Log
  | reconcile i => Pass.reconcile store flag i.template i.source i.pullRequests
  | poll policy provider namespaceName name =>
    Pass.poll store policy provider flag namespaceName name

/-- **A call runs the pass on its inputs**, or fails if they are not found. -/
theorem call_cases (store : Store σ) (flag : σ → Bool) (entry : Entry) (s : σ) :
    let found := entry.inputs store s
    let called := entry.call store flag s
    (∃ e, found.result = .error e ∧ called.1 = { outcome := .error e }
        ∧ called.2.1 = found.state)
      ∨ ∃ i, found.result = .ok i
        ∧ called.1 = (Pass.reconcile store flag i.template i.source i.pullRequests found.state).1
        ∧ called.2.1
          = (Pass.reconcile store flag i.template i.source i.pullRequests found.state).2.1 := by
  cases entry with
  | reconcile i => exact .inr ⟨i, rfl, rfl, rfl⟩
  | poll policy provider namespaceName name =>
    simp only [inputs, call, Pass.poll, bind, Action.andThen, pure, Action.done]
    cases hresolved : (resolve store policy namespaceName name s).result with
    | error e => exact .inl ⟨e, rfl, rfl, rfl⟩
    | ok found =>
      obtain ⟨template, source⟩ := found
      simp only
      cases hlisted : (pullRequests provider source
          (resolve store policy namespaceName name s).state).result with
      | error e => exact .inl ⟨e, rfl, rfl, rfl⟩
      | ok prs => exact .inr ⟨⟨template, source, prs⟩, rfl, rfl, rfl⟩

end Entry

/-! ## Looking for inputs -/

/-- The open pull requests that a provider lists for the repository of a source. -/
def openRequests (provider : Provider) (source : GitRepository) :
    Except PassError (List PullRequest) :=
  match Repository.ofUrl? (GitRepositorySpec.url source.spec) with
  | none => .error (.invalidRepositoryUrl (GitRepositorySpec.url source.spec))
  | some repository => (provider.list repository).1.mapError .provider

/-- Pull requests are listed without the store. -/
theorem leaves_pullRequests (provider : Provider) (source : GitRepository) (s : σ) :
    (pullRequests provider source).Leaves s (openRequests provider source) s := by
  unfold pullRequests openRequests
  cases Repository.ofUrl? (GitRepositorySpec.url source.spec) with
  | none => exact ⟨rfl, rfl⟩
  | some repository =>
    show Action.Leaves _ s ((provider.list repository).1.mapError PassError.provider) s
    refine (Action.leaves_report _ s).bind ?_
    cases (provider.list repository).1 with
    | error e => exact (Action.leaves_ofExcept rfl s).bind_error
    | ok prs =>
      exact (Action.leaves_ofExcept rfl s).bind ((Action.leaves_report _ s).bind ⟨rfl, rfl⟩)

/-- **How the inputs of a pass are looked up** by the name of a template: what the store
was asked, with the errors of its answers, and what came of it. -/
inductive LookedUp (policy : ReferencePolicy) (provider : Provider) (namespaceName name : String) :
    List Exchange → Except PassError Input → Prop
  | noTemplate (e : StoreError) :
    LookedUp policy provider namespaceName name
      [⟨.get ⟨.terraform, namespaceName, name⟩, some e⟩] (.error (.ofStore e))
  | notFollowable {template : Terraform} {cause : PassError}
      (href : followable policy template = .error cause) :
    LookedUp policy provider namespaceName name
      [⟨.get ⟨.terraform, namespaceName, name⟩, none⟩] (.error cause)
  | noSource {template : Terraform} {ns n : String}
      (href : followable policy template = .ok (ns, n)) (e : StoreError) :
    LookedUp policy provider namespaceName name
      [⟨.get ⟨.terraform, namespaceName, name⟩, none⟩, ⟨.get ⟨.gitRepository, ns, n⟩, some e⟩]
      (.error (.ofStore e))
  | found {template : Terraform} {ns n : String}
      (href : followable policy template = .ok (ns, n)) (source : GitRepository) :
    LookedUp policy provider namespaceName name
      [⟨.get ⟨.terraform, namespaceName, name⟩, none⟩, ⟨.get ⟨.gitRepository, ns, n⟩, none⟩]
      ((openRequests provider source).map (Input.mk template source))

theorem lookedUp_inputs (store : Store σ) (policy : ReferencePolicy) (provider : Provider)
    (namespaceName name : String) (s : Recorded σ) :
    let found := (Entry.poll policy provider namespaceName name).inputs store.recording s
    ∃ asked, found.state.2 = s.2 ++ asked
      ∧ LookedUp policy provider namespaceName name asked found.result := by
  suffices h : ∃ asked result s', LookedUp policy provider namespaceName name asked result
      ∧ ((Entry.poll policy provider namespaceName name).inputs store.recording).Leaves s result
        (s', s.2 ++ asked) by
    obtain ⟨asked, result, s', hlooked, hresult, hstate⟩ := h
    exact ⟨asked, congrArg Prod.snd hstate, hresult.symm ▸ hlooked⟩
  have hget := fun k ns n (s : Recorded σ) =>
    (leaves_recorded (.get ⟨k, ns, n⟩) (store.get k ns n) s).mapError (f := PassError.ofStore)
  have htemplate := hget .terraform namespaceName name s
  generalize store.get .terraform namespaceName name s.1 = answer at htemplate
  obtain ⟨result, s₁, log⟩ := answer
  cases result with
  | error e => exact ⟨_, _, s₁, .noTemplate e, htemplate.bind_error.bind_error⟩
  | ok template =>
    cases href : followable policy template with
    | error cause =>
      refine ⟨_, _, s₁, .notFollowable href, Action.Leaves.bind_error (htemplate.bind ?_)⟩
      exact (Action.leaves_ofExcept href _).bind_error
    | ok ref =>
      obtain ⟨ns, n⟩ := ref
      have hsource := hget .gitRepository ns n
        (s₁, s.2 ++ [⟨.get ⟨.terraform, namespaceName, name⟩, none⟩])
      generalize store.get .gitRepository ns n s₁ = answer at hsource
      obtain ⟨result, s₂, log'⟩ := answer
      cases result with
      | error e =>
        refine ⟨_, _, s₂, .noSource href e, ?_⟩
        rw [List.append_cons]
        exact Action.Leaves.bind_error
          (htemplate.bind ((Action.leaves_ofExcept href _).bind hsource.bind_error))
      | ok source =>
        refine ⟨_, _, s₂, .found href source, ?_⟩
        rw [List.append_cons]
        refine Action.Leaves.bind (a := (template, source)) (htemplate.bind
          ((Action.leaves_ofExcept href _).bind (hsource.bind ⟨rfl, rfl⟩))) ?_
        exact (leaves_pullRequests provider source _).map (Input.mk template source)

theorem ofStore_ne_apply (e : StoreError) (failures : ApplyFailures) :
    PassError.ofStore e ≠ .apply failures := by
  cases e <;> exact fun h => by cases h

theorem followable_ne_apply {policy : ReferencePolicy} {template : Terraform} {cause : PassError}
    (h : followable policy template = .error cause) (failures : ApplyFailures) :
    cause ≠ .apply failures := by
  rintro rfl
  simp only [followable] at h
  split at h
  · cases h
  · split at h <;> cases h

theorem openRequests_ne_apply {provider : Provider} {source : GitRepository} {cause : PassError}
    (h : openRequests provider source = .error cause) (failures : ApplyFailures) :
    cause ≠ .apply failures := by
  rintro rfl
  unfold openRequests at h
  split at h
  · cases h
  · next repository _ =>
    cases hlist : (provider.list repository).1 <;> rw [hlist] at h <;> cases h

namespace LookedUp

variable {policy : ReferencePolicy} {provider : Provider} {namespaceName name : String}
  {asked : List Exchange} {result : Except PassError Input}

/-- **Looking for inputs changes nothing**: the store is only asked for objects. -/
theorem gets (h : LookedUp policy provider namespaceName name asked result) :
    ∀ x ∈ asked, ∃ key, x.request = .get key := by
  cases h with
  | noTemplate | notFollowable =>
    rw [List.forall_mem_singleton]
    exact ⟨_, rfl⟩
  | noSource | found =>
    rw [List.forall_mem_cons, List.forall_mem_singleton]
    exact ⟨⟨_, rfl⟩, ⟨_, rfl⟩⟩

/-- A pass that does not get its inputs does not fail at a step. -/
theorem ne_apply {cause : PassError}
    (h : LookedUp policy provider namespaceName name asked (.error cause))
    (failures : ApplyFailures) : cause ≠ .apply failures := by
  generalize hresult : Except.error cause = result at h
  cases h with
  | noTemplate e | noSource _ e =>
    cases hresult
    exact ofStore_ne_apply e failures
  | notFollowable href =>
    cases hresult
    exact followable_ne_apply href failures
  | @found _ _ _ _ source =>
    cases hopen : openRequests provider source with
    | ok prs =>
      rw [hopen] at hresult
      cases hresult
    | error e =>
      rw [hopen] at hresult
      cases hresult
      exact openRequests_ne_apply hopen failures

end LookedUp

/-! ## Passes that are cancelled before they begin -/

/-- **A pass that is cancelled from the start changes nothing.** Asked for with its inputs,
it does not go to the store. Asked for by name, it looks for its inputs, and fails with
the reason if it does not find them; it goes to the store for nothing else. Otherwise it
fails for the cancellation. Nobody is told of any progress. -/
theorem cancelled_from_the_start (store : Store σ) (i : Input) (policy : ReferencePolicy)
    (provider : Provider) (namespaceName name : String) (s : σ) :
    let given := (Entry.reconcile i).call store.recording (fun _ => true) (s, [])
    let named := (Entry.poll policy provider namespaceName name).call store.recording
      (fun _ => true) (s, [])
    (given.1 = { outcome := .error .cancelled } ∧ given.2.1 = (s, []))
      ∧ ∃ asked result, named.2.1.2 = asked ∧ (∀ x ∈ asked, ∃ key, x.request = .get key)
        ∧ LookedUp policy provider namespaceName name asked result
        ∧ (∀ cause, result = .error cause → named.1 = { outcome := .error cause })
        ∧ ∀ i, result = .ok i → named.1 = { outcome := .error .cancelled } := by
  intro given named
  refine ⟨⟨rfl, rfl⟩, ?_⟩
  obtain ⟨asked, hstate, hlooked⟩ :=
    lookedUp_inputs store policy provider namespaceName name (s, [])
  rcases Entry.call_cases store.recording (fun _ => true)
    (.poll policy provider namespaceName name) (s, []) with
    ⟨e, herror, hcalled, hleft⟩ | ⟨i, hok, hcalled, hleft⟩
  · refine ⟨asked, .error e, (congrArg Prod.snd hleft).trans hstate, hlooked.gets,
      herror ▸ hlooked, fun cause h => ?_, fun _ h => by cases h⟩
    exact Except.error.inj h ▸ hcalled
  · exact ⟨asked, .ok i, (congrArg Prod.snd hleft).trans hstate, hlooked.gets, hok ▸ hlooked,
      fun _ h => (by cases h), fun _ _ => hcalled⟩

/-- A pass for a template that does not exist is cancelled, asks the store for it and
reports that it is not there. -/
theorem cancelled_poll_asks :
    let named := (Entry.poll {} (.fixed []) "team" "plan").call
      (Memory.store stoppedClock).recording (fun _ => true) ({}, [])
    named.2.1.2 ≠ [] ∧ named.1.outcome ≠ .error .cancelled := by
  refine ⟨List.cons_ne_nil _ _, fun h => ?_⟩
  cases h

end PlanSync.Pass
