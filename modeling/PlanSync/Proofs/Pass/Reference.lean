import PlanSync.Proofs.Pass.Sourced

/-!
# The source that a configuration refers to

A configuration that a pass has written refers to the source that is derived with
it, and that is there. A configuration that a pass has found and left alone, be it
because a step of its branch failed, refers to what it referred to before. What it
refers to is still there, too, unless the pass drops it for a reason of its own
(`Pass.referent_kept`): units do not wait for one another, and which object uses a
source is not looked at when the source is deleted. So there are two exceptions, a
source that is a stray, as after the template has switched to another one, and the
source of another branch that is not desired (`Pass.Dropped`).

Neither can be spared, nor can it be spared that the pass is driven truthfully, or that
template and source are such as can be read from a store: a template that keeps another
`sourceRef` among its unknown fields has that one written (`Pass.referents_lost`).
-/

namespace PlanSync

/-- The key of the source that a configuration refers to. -/
def Object.referent (o : Terraform) : ObjectKey :=
  ⟨.gitRepository, o.sourceRef.explicitNamespace.getD o.namespaceName, o.sourceRef.name⟩

namespace Pass

variable {clock : Nat → Timestamp} {i : Input} {m₀ m : Memory} {wanted : DesiredState}
  {owned : OwnedObjects} {units : List UnitRun} {done : List Step} {events : List Event}
  {id : BranchId} {pair : DesiredPair}

/-- **A derived configuration refers to the derived source.** -/
theorem referent_of_covers (hw : i.derive? = some wanted) (hp : wanted.pairs.get? id = some pair)
    {o : Terraform} (hkey : o.key = i.derivedKey .terraform id)
    (hcovers : o.Covers (pair.half .terraform)) : o.referent = i.derivedKey .gitRepository id := by
  obtain ⟨pr, -, rfl, -, rfl⟩ := Input.of_get?_pairs hw hp
  have hsame : TerraformSpec.same o.spec (DesiredState.terraformSpec i.template
      (pr.branchId.nameFrom i.source.name) pr.branchId) = true := hcovers.spec
  simp only [TerraformSpec.same, Bool.and_eq_true, decide_eq_true_eq] at hsame
  have href : o.sourceRef
      = { kind := i.template.sourceRef.kind
          name := pr.branchId.nameFrom i.source.name
          namespaceName := some i.template.namespaceName } := hsame.1.1.1.1
  have hns : o.namespaceName = i.template.namespaceName := congrArg ObjectKey.namespaceName hkey
  unfold Object.referent
  rw [href, hns]
  -- an empty namespace counts as none, and then the own one is meant
  show ObjectKey.mk _ ((Option.filter _ (some i.template.namespaceName)).getD _) _ = _
  rw [Option.filter_some]
  split <;> rfl

/-- **The source that a configuration refers to is dropped** by a pass that finds the
store: it is a stray, or it is the source of a branch that is not desired, of which
the configuration is not told to be. -/
def Dropped (i : Input) (m : Memory) (o : Terraform) : Prop :=
  ∃ wanted owned, Surveyed i m wanted owned
    ∧ (o.referent ∈ owned.strays
      ∨ ∃ id source, wanted.pairs.get? id = none ∧ (owned.pairOf id).source = some source
        ∧ source.key = o.referent ∧ (owned.pairOf id).terraform ≠ some o)

namespace Accounted

variable (h : Accounted i m₀ wanted owned units done m)
include h

/-- **What is written refers to a source that is there.** -/
theorem referent_of_leaves (hi : i.Readable) {s : Step} (hs : s ∈ done) {o : Terraform}
    (ho : m.Holds o) (hkey : s.key = o.key) (hleaves : s.Leaves (m.cell o.key)) :
    m.cell o.referent ≠ none := by
  have ⟨j, hj, _⟩ := ho
  have hop : s.operation ≠ .delete := Step.Leaves.ne_delete (hj ▸ hleaves)
  obtain ⟨k, id, pair, o', hp, ho', hkey', hderived, hconverged, hconverge⟩ :=
    h.surveyed.exists_half_of_leaves h.before hi (h.planned hs) hop (hkey ▸ hleaves)
  -- the cell holds one object only, and that is what the step has left
  have hsame : o'.key = o.key := hkey'.trans hkey
  obtain rfl : k = .terraform := congrArg ObjectKey.kind hsame
  obtain rfl : o' = o := ho'.unique ho hsame
  rw [referent_of_covers h.surveyed.derived hp (hkey'.trans hderived) hconverged.covers]
  exact h.source_of_written hp hconverge hs

/-- **What is left alone refers to a source that is there**, if it did before, unless
the source is dropped. -/
theorem referent_of_left {o : Terraform} (hcell : m₀.cell o.referent ≠ none)
    (hleft : ∀ s ∈ done, s.key ≠ o.key) : m.cell o.referent ≠ none ∨ Dropped i m₀ o := by
  rcases h.applied.cell_cases o.referent with ⟨-, hsame⟩ | ⟨s, hs, hkey, hleaves⟩
  · left
    rw [hsame]
    exact hcell
  · refine or_iff_not_imp_left.mpr fun hgone => ⟨wanted, owned, h.surveyed, ?_⟩
    rw [Decidable.not_not.mp hgone] at hleaves
    have hdelete := operation_of_leaves_none hleaves
    cases h.planned hs with
    | create | update => cases hdelete
    | clear hstray =>
      have hkey : _ = o.referent := hkey
      exact .inl (hkey ▸ hstray)
    | @remove id k source hw hsource =>
      have hkey : source.key = o.referent := hkey
      obtain rfl : k = .gitRepository := congrArg ObjectKey.kind hkey
      refine .inr ⟨id, source, hw, hsource, hkey, fun ho => ?_⟩
      exact hleft _ (h.removed_before_source hw ho hsource hs) rfl

end Accounted

/-- **A configuration keeps the source that it refers to.** If what an owned
configuration referred to was there when the pass began, and the configuration is
still there, then what it refers to now is there; or else the configuration is as it
was, and the pass drops the source that it refers to. This holds at every moment and
so at the end, in whatever order the calls come, whichever of them fail, and whenever
the pass is cancelled, as long as no failing call says of an object that is there that
it is not. -/
theorem referent_kept (hclock : ∀ n, (clock n).ReadsBack) {m : Memory}
    (hm : Memory.Reachable clock m) {i : Input} (hi : i.Readable) {events : List Event}
    (htruthful : Truthful clock i m events) {o : Terraform} (ho : m.Holds o) (howns : i.Owns o)
    (hcell : m.cell o.referent ≠ none) {o' : Terraform}
    (ho' : (Run.inMemory clock i m events).state.Holds o') (hkey : o'.key = o.key) :
    (Run.inMemory clock i m events).state.cell o'.referent ≠ none
      ∨ (o' = o ∧ Dropped i m o) := by
  rcases accounted_inMemory hclock (hm.sound hclock) htruthful with
    hsame | ⟨wanted, owned, units, done, h⟩
  · rw [hsame] at ho' ⊢
    rw [ho'.unique ho hkey]
    exact .inl hcell
  · rcases h.applied.cell_cases o'.key with ⟨hnone, hsame⟩ | ⟨s, hs, hkeys, hleaves⟩
    · have heq : o' = o := Memory.Holds.unique (ho'.of_cell_eq hsame.symm) ho hkey
      subst heq
      exact (h.referent_of_left hcell hnone).imp_right fun hdropped => ⟨rfl, hdropped⟩
    · exact .inl (h.referent_of_leaves hi hs ho' hkeys hleaves)

/-! ## Stores in which a source is in use

A store holds a configuration under the name that is derived for the pull request of
the sample. It refers to an owned source, which has another name. -/

/-- A source that bears the owner labels. -/
def usedSource (name : String) (number : Nat) : GitRepository where
  metadata := { name, namespaceName := "team", labels := ownerLabels "plan" number }
  spec := ({ url := "https://example.com/old" } : GitRepositorySpec)

/-- A configuration that refers to a source. -/
def usingTerraform (name : String) (number : Nat) : Terraform where
  metadata := { name := "plan-topic-7", namespaceName := "team", labels := ownerLabels "plan" number }
  spec := ({ sourceRef := { kind := "GitRepository", name, namespaceName := some "team" } } :
    TerraformSpec)

/-- A store with a source and a configuration that refers to it. The one is labelled
with one number, the other with another. -/
def usedMemory (name : String) (number number' : Nat) : Memory :=
  ((Memory.store stoppedClock).create .terraform (usingTerraform name number')
    ((Memory.store stoppedClock).create .gitRepository (usedSource name number) {}).state).state

theorem reachable_usedMemory (name : String) (number number' : Nat) :
    Memory.Reachable stoppedClock (usedMemory name number number') :=
  .create (.create .empty _ _) _ _

/-- A store after a switch of the source: what the configuration uses is a stray. -/
def switchedMemory : Memory := usedMemory "old-topic-7" 7 7

/-- The same store with a stranger under the name that is derived for the source. -/
def clashingMemory : Memory :=
  ((Memory.store stoppedClock).create .gitRepository
    { usedSource "repo-topic-7" 7 with
      metadata := { name := "repo-topic-7", namespaceName := "team" } } switchedMemory).state

/-- **A configuration refers to what is there**: it is held and owned, and so is what
it refers to. -/
structure Refers (i : Input) (m : Memory) (o : Terraform) : Prop where
  held : m.Holds o
  owned : i.Owns o
  there : m.cell o.referent ≠ none

instance (i : Input) {k : Kind} (o : Object k) : Decidable (i.Owns o) :=
  decidable_of_iff
    (o.namespaceName = i.template.namespaceName
      ∧ (o.labels.get? ownerLabel = some "true"
        ∧ o.labels.get? templateLabel = some i.template.name)
      ∧ ¬ (o.namespaceName = (i.origin k).namespaceName ∧ o.name = (i.origin k).name))
    ⟨fun ⟨here, ⟨marker, template⟩, other⟩ => ⟨here, ⟨marker, template⟩, other⟩,
      fun h => ⟨h.here, ⟨h.bears.marker, h.bears.template⟩, h.other⟩⟩

/-- Whether the configuration under a name is owned, and whether what it refers to is
there; none if there is no such configuration. -/
def found (i : Input) (m : Memory) (name : String) : Option (Bool × Bool) :=
  (m.get .terraform i.template.namespaceName name).toOption.map fun o =>
    (decide (i.Owns o), (m.cell o.referent).isSome)

theorem exists_of_found (hm : m.Sound) {name : String} {owns there : Bool}
    (h : found i m name = some (owns, there)) :
    ∃ o : Terraform, m.Holds o ∧ o.key = ⟨.terraform, i.template.namespaceName, name⟩
      ∧ decide (i.Owns o) = owns ∧ (m.cell o.referent).isSome = there := by
  obtain ⟨o, hholds, hkey, heq⟩ := hm.exists_of_get h
  exact ⟨o, hholds, hkey, (Prod.mk.inj heq).1, (Prod.mk.inj heq).2⟩

theorem refers_of_found (hm : m.Sound) {name : String} (h : found i m name = some (true, true)) :
    ∃ o, Refers i m o ∧ o.key = ⟨.terraform, i.template.namespaceName, name⟩ := by
  obtain ⟨o, hholds, hkey, howns, hthere⟩ := exists_of_found hm h
  exact ⟨o, ⟨hholds, of_decide_eq_true howns, Option.isSome_iff_ne_none.mp hthere⟩, hkey⟩

/-- The template has switched to another source, and the configuration follows before
the source that it used is deleted. -/
theorem referent_kept_when_switching :
    let m := (Run.inMemory stoppedClock sampleInput switchedMemory
      ([0, 0, 0, 0, 1].map .turn)).state
    m.cell (usedSource "old-topic-7" 7).key = none
      ∧ ∃ o o' : Terraform, Refers sampleInput switchedMemory o ∧ m.Holds o' ∧ o'.key = o.key
        ∧ (m.cell o'.referent ≠ none ∨ (o' = o ∧ Dropped sampleInput switchedMemory o)) := by
  have hm : Memory.Reachable stoppedClock switchedMemory := reachable_usedMemory ..
  have hfound : (((Run.inMemory stoppedClock sampleInput switchedMemory
        ([0, 0, 0, 0, 1].map .turn)).state.cell (usedSource "old-topic-7" 7).key).isNone,
      found sampleInput switchedMemory "plan-topic-7",
      found sampleInput (Run.inMemory stoppedClock sampleInput switchedMemory
        ([0, 0, 0, 0, 1].map .turn)).state "plan-topic-7")
      = (true, some (true, true), some (true, true)) := by decide +kernel
  simp only [Prod.mk.injEq] at hfound
  obtain ⟨hgone, hbefore, hafter⟩ := hfound
  obtain ⟨o, ho, hkey⟩ := refers_of_found (hm.sound readsBack_stoppedClock) hbefore
  obtain ⟨o', ho', hkey', -⟩ := exists_of_found
    ((reachable_inMemory hm _ _).sound readsBack_stoppedClock) hafter
  have hkey : o'.key = o.key := hkey'.trans hkey.symm
  refine ⟨Option.isNone_iff_eq_none.mp hgone, o, o', ho, ho', hkey, ?_⟩
  exact referent_kept readsBack_stoppedClock hm readable_sampleInput
    (truthful_of_faultless (calm_turns _).faultless) ho.held ho.owned ho.there ho' hkey

/-- **A pass loses what a configuration refers to**: it ends, and the configuration is
still there, but what it refers to is gone. -/
def LosesReferent (i : Input) (m : Memory) (events : List Event) : Prop :=
  ∃ o, Refers i m o
    ∧ ((Run.inMemory stoppedClock i m events).stage.result? i).isSome = true
    ∧ ∃ o' : Terraform, (Run.inMemory stoppedClock i m events).state.Holds o' ∧ o'.key = o.key
      ∧ (Run.inMemory stoppedClock i m events).state.cell o'.referent = none

/-- The same, worked out for the configuration under a name. -/
def losesReferent (i : Input) (m : Memory) (events : List Event) (name : String) : Bool :=
  let r := Run.inMemory stoppedClock i m events
  found i m name = some (true, true) && (r.stage.result? i).isSome
    && (found i r.state name).map Prod.snd = some false

theorem losesReferent_of_eq_true (hm : Memory.Reachable stoppedClock m) (name : String)
    (h : losesReferent i m events name = true) : LosesReferent i m events := by
  simp only [losesReferent, Bool.and_eq_true, decide_eq_true_eq] at h
  obtain ⟨⟨hbefore, hended⟩, hafter⟩ := h
  obtain ⟨o, hrefers, hkey⟩ := refers_of_found (hm.sound readsBack_stoppedClock) hbefore
  obtain ⟨⟨_, _⟩, hafter, rfl⟩ := Option.map_eq_some_iff.mp hafter
  obtain ⟨o', hholds, hkey', -, hgone⟩ := exists_of_found
    ((reachable_inMemory hm i events).sound readsBack_stoppedClock) hafter
  exact ⟨o, hrefers, hended, o', hholds, hkey'.trans hkey.symm,
    Option.not_isSome_iff_eq_none.mp (ne_true_of_eq_false hgone)⟩

/-- The sample with a template that keeps a reference to another source among its
unknown fields. No template that is read has one there, as a reader knows the field. -/
def overlaidInput : Input :=
  { sampleInput with
    template :=
      { sampleInput.template with
        spec :=
          ({ sourceRef := { kind := "GitRepository", name := "repo" }
             passthrough := .ofList [("sourceRef", .object [("kind", .string "GitRepository"),
               ("name", .string "elsewhere")])] } : TerraformSpec) } }

/-- **Neither exception can be spared, nor the truth of faults, nor readable inputs.** A
pass deletes a stray although the configuration that uses it could not be given the
derived source, whose name is taken. It deletes the source of a branch that is not
desired although a stray that uses it could not be deleted. It deletes the source of a
pair after it was told that the configuration of the pair was not there. And it writes
what a template keeps beside its reference over the reference that it derives. -/
theorem referents_lost :
    LosesReferent sampleInput clashingMemory ([0, 0, 0, 1].map .turn)
      ∧ LosesReferent closedInput (usedMemory "repo-old-3" 3 9)
          [.turn 0, .turn 0, .turn 0, .fault 1 (.transient "busy")]
      ∧ LosesReferent closedInput pairedMemory
          [.turn 0, .turn 0, .fault 0 (.notFound (closedInput.derivedKey .terraform ⟨"topic-7"⟩)),
            .turn 0]
      ∧ LosesReferent overlaidInput (usedMemory "repo-topic-7" 7 7) ([0, 0, 0, 0].map .turn) := by
  refine ⟨?_, ?_, ?_, ?_⟩
  · exact losesReferent_of_eq_true (.create (reachable_usedMemory ..) _ _) "plan-topic-7"
      (by decide +kernel)
  · exact losesReferent_of_eq_true (reachable_usedMemory ..) "plan-topic-7" (by decide +kernel)
  · exact losesReferent_of_eq_true reachable_pairedMemory "plan-topic-7" (by decide +kernel)
  · exact losesReferent_of_eq_true (reachable_usedMemory ..) "plan-topic-7" (by decide +kernel)

end Pass

end PlanSync
