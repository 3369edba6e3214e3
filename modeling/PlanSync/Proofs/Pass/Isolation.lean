import PlanSync.Proofs.Action
import PlanSync.Proofs.Store.Listing
import PlanSync.Proofs.Pass.Course

/-!
# Isolation of namespaces

What is planned for a template depends on nothing outside the namespace of the
template, if references to other namespaces are not followed. This is a statement
about two runs: two stores that hold the same in a namespace, and anything
elsewhere, answer alike (`Pass.isolated`).

A reference is chosen by the author of the template, so what has to be shown is
that the policy is asked before anything is looked up, and that the namespace it
allows is the one the template says it is in, which is the one it was found in.
The latter is an invariant of all that calls can make of a store, whatever times
the clock tells (`Memory.Reachable.keyed`). After that every listing is in the
namespace of the template, wherever the source lives.
-/

namespace PlanSync

/-! ## Names read back -/

open Decoder

/-- **The name and the namespace read back** whenever metadata can be read at all,
whatever becomes of the time of creation. -/
theorem Metadata.name_of_decoder {m m' : Metadata}
    (h : Metadata.decoder (.ofJson m.toJson.sortKeys) = .ok m') :
    m'.name = m.name ∧ m'.namespaceName = m.namespaceName := by
  have hjson : m.toJson = .object m.members := rfl
  rw [hjson] at h
  obtain ⟨taken, ht, h⟩ := Answer.bind_eq_ok.mp h
  obtain ⟨name, hname, h⟩ := Answer.bind_eq_ok.mp h
  obtain ⟨namespaceName, hspace, h⟩ := Answer.bind_eq_ok.mp h
  obtain ⟨_, -, h⟩ := Answer.bind_eq_ok.mp h
  obtain ⟨_, -, h⟩ := Answer.bind_eq_ok.mp h
  obtain ⟨_, -, h⟩ := Answer.bind_eq_ok.mp h
  obtain ⟨_, -, h⟩ := Answer.bind_eq_ok.mp h
  cases h
  have hn := m.nodup_members
  have hname' : taken.required "name" Decoder.string = .ok m.name := by
    rw [closedRecord_eq ht]
    exact required_stored hn (by decide) (by simp [lookup_members]) (string_stored _)
  have hspace' : taken.required "namespace" Decoder.string = .ok m.namespaceName := by
    rw [closedRecord_eq ht]
    exact required_stored hn (by decide) (by simp [lookup_members]) (string_stored _)
  exact ⟨Except.ok.inj (hname.symm.trans hname'), Except.ok.inj (hspace.symm.trans hspace')⟩

/-- **The key of an object reads back** whenever the object can be read at all. -/
theorem Object.key_of_decoder {k : Kind} {o o' : Object k}
    (h : Object.decoder k (.ofJson o.toJson.sortKeys) = .ok o') : o'.key = o.key := by
  have hjson : o.toJson = .object o.members := rfl
  rw [hjson] at h
  obtain ⟨taken, ht, h⟩ := Answer.bind_eq_ok.mp h
  obtain ⟨m, hm, h⟩ := Answer.bind_eq_ok.mp h
  obtain ⟨_, -, h⟩ := Answer.bind_eq_ok.mp h
  obtain ⟨_, -, h⟩ := Answer.bind_eq_ok.mp h
  cases h
  have hmetadata : List.lookup "metadata" o.members = some o.metadata.toJson := rfl
  rw [closedRecord_eq ht, Taken.required,
    lookup_takenAfter_stored o.nodup_members (knows_metadata k), hmetadata] at hm
  obtain ⟨hname, hspace⟩ := Metadata.name_of_decoder hm
  simp only [Object.key, Object.name, Object.namespaceName, hname, hspace]

namespace Memory

variable {clock clock' : Nat → Timestamp} {m m' : Memory} {k : Kind} {namespaceName : String}

/-! ## Cells say where they are -/

/-- **Keyed**: every cell has the stored form of an object with the key of the
cell. -/
def Keyed (m : Memory) : Prop :=
  ∀ key j, m.cell key = some j → ∃ o : Object key.kind, o.key = key ∧ j = o.toJson.sortKeys

theorem Keyed.write (hm : m.Keyed) (o : Object k) (created : Option Timestamp) :
    (m.write o created).2.Keyed := by
  intro key j hj
  rw [cell_write] at hj
  split at hj
  · next he =>
    subst he
    cases hj
    exact ⟨o.stamped _ created, rfl, rfl⟩
  · exact hm key j hj

theorem Keyed.drop (hm : m.Keyed) (key : ObjectKey) : (m.drop key).Keyed := by
  intro l j hj
  rw [cell_drop] at hj
  split at hj
  · cases hj
  · exact hm l j hj

/-- **Whatever calls can make of a store is keyed**, whatever times the clock
tells. -/
theorem Reachable.keyed (h : Reachable clock m) : m.Keyed := by
  induction h with
  | empty => exact fun _ _ hj => by cases hj
  | @create m _ k o ih =>
    rcases create_cases clock m o with ⟨-, h⟩ | ⟨-, e, h⟩
    · rw [h]
      exact ih.write o _
    · rw [h]
      exact ih
  | @update m _ k o ih =>
    rcases update_cases clock m o with ⟨stored, -, h⟩ | ⟨-, e, h⟩
    · rw [h]
      exact ih.write o _
    · rw [h]
      exact ih
  | @delete m _ k namespaceName name ih =>
    rcases delete_cases clock m ⟨k, namespaceName, name⟩ with ⟨-, h⟩ | ⟨-, h⟩
    · rw [h]
      exact ih.drop _
    · rw [h]
      exact ih

/-- **What is found says where it was found.** -/
theorem Keyed.key_of_get (hm : m.Keyed) {name : String} {o : Object k}
    (h : m.get k namespaceName name = .ok o) : o.key = ⟨k, namespaceName, name⟩ := by
  unfold get at h
  cases hj : m.objects.get? ⟨k, namespaceName, name⟩ with
  | none =>
    simp only [hj] at h
    cases h
  | some j =>
    simp only [hj] at h
    obtain ⟨o', hkey, rfl⟩ := hm _ _ hj
    exact (Object.key_of_decoder (decode_eq_ok.mp h)).trans hkey

/-! ## Stores that hold the same in a namespace -/

/-- **Two stores hold the same in a namespace**: whatever is asked for by its name
there, both give the same object or the same error. -/
def SameIn (namespaceName : String) (m m' : Memory) : Prop :=
  ∀ k name, m.get k namespaceName name = m'.get k namespaceName name

/-- Stores with the same cells in a namespace hold the same there. -/
theorem SameIn.of_cells (h : ∀ k name,
      m.cell ⟨k, namespaceName, name⟩ = m'.cell ⟨k, namespaceName, name⟩) :
    SameIn namespaceName m m' := fun k name => by
  have hcell : m.objects.get? ⟨k, namespaceName, name⟩ = m'.objects.get? ⟨k, namespaceName, name⟩ :=
    h k name
  simp only [get, hcell]

/-- **Creating an object in one namespace** leaves the others as they are. -/
theorem sameIn_create (clock : Nat → Timestamp) (m : Memory) {o : Object k}
    (h : o.namespaceName ≠ namespaceName) :
    SameIn namespaceName m ((store clock).create k o m).state := by
  refine .of_cells fun l name => ?_
  have hne : (⟨l, namespaceName, name⟩ : ObjectKey) ≠ o.key := fun heq =>
    h (congrArg ObjectKey.namespaceName heq).symm
  rcases create_cases clock m o with ⟨-, hcreate⟩ | ⟨-, e, hcreate⟩
  · rw [hcreate]
    exact (cell_write_of_ne hne).symm
  · rw [hcreate]

/-- What is read from a cell, if there is one. A missing object is told from one
that cannot be read. -/
theorem SameIn.map_decode (h : SameIn namespaceName m m') (name : String) :
    (m.cell ⟨k, namespaceName, name⟩).map (decode k)
      = (m'.cell ⟨k, namespaceName, name⟩).map (decode k) := by
  have hdecode : ∀ j e, decode k j = .error (.notFound e) → False := fun j e hd => by
    unfold decode at hd
    cases hf : Decoder.ofJson (Object.decoder k) j with
    | ok o =>
      rw [hf] at hd
      cases hd
    | error e =>
      rw [hf] at hd
      cases hd
  have hget := h k name
  simp only [get] at hget
  unfold cell
  cases hj : m.objects.get? ⟨k, namespaceName, name⟩ with
  | none =>
    cases hj' : m'.objects.get? ⟨k, namespaceName, name⟩ with
    | none => rfl
    | some j' =>
      simp only [hj, hj'] at hget
      exact (hdecode _ _ hget.symm).elim
  | some j =>
    cases hj' : m'.objects.get? ⟨k, namespaceName, name⟩ with
    | none =>
      simp only [hj, hj'] at hget
      exact (hdecode _ _ hget).elim
    | some j' =>
      simp only [hj, hj'] at hget
      exact congrArg some hget

/-- Decoding one after the other looks at what each is read as only. -/
theorem decodeAll_congr {js js' : List Json} (h : js.map (decode k) = js'.map (decode k))
    (selector : Selector) : decodeAll k selector js = decodeAll k selector js' := by
  induction js generalizing js' with
  | nil =>
    cases js' with
    | nil => rfl
    | cons j' js' => cases h
  | cons j js ih =>
    cases js' with
    | nil => cases h
    | cons j' js' =>
      obtain ⟨hhead, htail⟩ := List.cons.inj h
      rw [decodeAll, decodeAll, hhead, ih htail]

/-- **A namespace is listed alike** in stores that hold the same there. -/
theorem SameIn.list_eq (h : SameIn namespaceName m m') (k : Kind) (selector : Selector) :
    m.list k namespaceName selector = m'.list k namespaceName selector := by
  -- what is read from the cells of the namespace, beside the keys they stand under
  have hread : ∀ (m : Memory) key, List.lookup key (((m.objects.entries.filter fun e =>
        e.1.kind = k && e.1.namespaceName = namespaceName)).map fun e => (e.1, decode k e.2))
      = if key.kind = k ∧ key.namespaceName = namespaceName then (m.cell key).map (decode k)
        else none := fun m key => by
    have hfilter := Entries.lookup_filter
      (fun key : ObjectKey => decide (key.kind = k) && decide (key.namespaceName = namespaceName))
      key m.objects.entries
    rw [Entries.lookup_map, hfilter]
    simp only [Bool.and_eq_true, decide_eq_true_eq]
    split <;> rfl
  have hsorted : ∀ m : Memory, Entries.Sorted (((m.objects.entries.filter fun e =>
      e.1.kind = k && e.1.namespaceName = namespaceName)).map fun e => (e.1, decode k e.2)) :=
    fun m => List.pairwise_map.mpr (m.objects.sorted.filter _)
  have hentries := (hsorted m).ext (hsorted m') fun key => by
    rw [hread, hread]
    split
    · next hkey =>
      obtain ⟨l, ns, name⟩ := key
      obtain ⟨rfl, rfl⟩ := hkey
      exact h.map_decode name
    · rfl
  refine decodeAll_congr ?_ selector
  have hvalues := congrArg (List.map Prod.snd) hentries
  simp only [List.map_map] at hvalues
  simp only [valuesIn, List.map_map]
  exact hvalues

/-- Asking for an object of the namespace comes to the same. -/
theorem SameIn.alike_get (h : SameIn namespaceName m m') (k : Kind) (name : String) :
    Action.Alike (SameIn namespaceName) ((store clock).get k namespaceName name)
      ((store clock').get k namespaceName name) m m' := ⟨h k name, rfl, h⟩

/-- Listing the namespace comes to the same. -/
theorem SameIn.alike_list (h : SameIn namespaceName m m') (k : Kind) (selector : Selector) :
    Action.Alike (SameIn namespaceName) ((store clock).list k namespaceName selector)
      ((store clock').list k namespaceName selector) m m' := ⟨h.list_eq k selector, rfl, h⟩

end Memory

namespace Pass

open Memory

variable {clock clock' : Nat → Timestamp} {m m' : Memory} {namespaceName : String}

/-- **A reference that may be followed stays in the namespace**, where the policy
allows no other. -/
theorem namespace_of_followable {policy : ReferencePolicy} (hpolicy : policy.crossNamespace = false)
    {template : Terraform} {ns name : String} (h : followable policy template = .ok (ns, name)) :
    ns = template.namespaceName := by
  simp only [followable, hpolicy, Bool.not_false, Bool.true_and, decide_eq_true_eq] at h
  split at h
  · cases h
  · split at h
    · cases h
    · next hsame =>
      cases h
      exact Decidable.not_not.mp hsame

/-- The lookup of a template and its source. -/
theorem alike_resolve (hm : m.Keyed) (h : SameIn namespaceName m m') {policy : ReferencePolicy}
    (hpolicy : policy.crossNamespace = false) (name : String) :
    Action.Alike (SameIn namespaceName) (resolve (Memory.store clock) policy namespaceName name)
      (resolve (Memory.store clock') policy namespaceName name) m m' := by
  refine ((h.alike_get .terraform name).mapError _).bind fun template htemplate => ?_
  have hfound : m.get .terraform namespaceName name = .ok template :=
    Answer.mapError_eq_ok.mp htemplate
  have hspace : template.namespaceName = namespaceName :=
    congrArg ObjectKey.namespaceName (hm.key_of_get hfound)
  refine (Action.Alike.ofExcept _ h).bind fun (ns, n) href => ?_
  obtain rfl : ns = namespaceName := (namespace_of_followable hpolicy href).trans hspace
  exact ((h.alike_get .gitRepository n).mapError _).bind fun source _ => .done _ h

/-- What a template owns. -/
theorem alike_owned (template : Terraform) (h : SameIn template.namespaceName m m')
    (source : GitRepository) :
    Action.Alike (SameIn template.namespaceName) (owned (Memory.store clock) template source)
      (owned (Memory.store clock') template source) m m' := by
  refine Action.Alike.mapError _ ?_
  refine (h.alike_list .terraform _).bind fun terraforms _ => ?_
  refine (h.alike_list .gitRepository _).bind fun sources _ => ?_
  exact (Action.Alike.report _ h).bind fun _ _ => .done _ h

/-- What a pass would do. -/
theorem alike_plan (template : Terraform) (h : SameIn template.namespaceName m m')
    (source : GitRepository) (prs : List PullRequest) :
    Action.Alike (SameIn template.namespaceName) (plan (Memory.store clock) template source prs)
      (plan (Memory.store clock') template source prs) m m' := by
  refine (Action.Alike.ofExcept _ h).bind fun wanted _ => ?_
  refine (Action.Alike.report _ h).bind fun _ _ => ?_
  have howned : Action.Alike (SameIn template.namespaceName)
      (owned (Memory.store clock) template source) (owned (Memory.store clock') template source)
      m m' := alike_owned template h source
  refine howned.bind fun actual _ => ?_
  exact (Action.Alike.report _ howned.state).bind fun _ _ => .done _ howned.state

/-- **Namespaces are isolated.** Let a store be reached by calls, and let another
hold the same in a namespace, and anything elsewhere. With references to other
namespaces disabled, looking up a template of the namespace and its source gives the
same in both stores, be it an error. And for any template of the namespace and any
source, what it owns and what a pass would do are the same in both. Nothing that is
reported differs either. -/
theorem isolated (hm : Reachable clock m) (h : SameIn namespaceName m m') :
    (∀ policy : ReferencePolicy, policy.crossNamespace = false → ∀ name,
      Action.Alike (SameIn namespaceName) (resolve (Memory.store clock) policy namespaceName name)
        (resolve (Memory.store clock') policy namespaceName name) m m')
    ∧ ∀ template : Terraform, template.namespaceName = namespaceName → ∀ source,
      Action.Alike (SameIn namespaceName) (owned (Memory.store clock) template source)
        (owned (Memory.store clock') template source) m m'
      ∧ ∀ prs, Action.Alike (SameIn namespaceName) (plan (Memory.store clock) template source prs)
        (plan (Memory.store clock') template source prs) m m' := by
  refine ⟨fun policy hpolicy name => alike_resolve hm.keyed h hpolicy name, ?_⟩
  rintro template rfl source
  exact ⟨alike_owned template h source, alike_plan template h source⟩

/-- A store with the template and the source of the sample. -/
def resolvableMemory : Memory :=
  ((Memory.store stoppedClock).create .gitRepository sampleInput.source
    ((Memory.store stoppedClock).create .terraform sampleInput.template {}).state).state

theorem reachable_resolvableMemory : Reachable stoppedClock resolvableMemory :=
  .create (.create .empty _ _) _ _

/-- A source with the name of the sample's, in another namespace. -/
def elsewhereSource : GitRepository :=
  { sampleInput.source with metadata := { name := "repo", namespaceName := "elsewhere" } }

/-- The same store with a source elsewhere. -/
def crowdedMemory : Memory :=
  ((Memory.store stoppedClock).create .gitRepository elsewhereSource resolvableMemory).state

/-- A source of the same name elsewhere is not seen: template and source are found
as before, and the same is planned. -/
theorem isolated_from_elsewhere :
    let found := fun m => (resolve (Memory.store stoppedClock) { crossNamespace := false }
      "team" "plan" m).result
    let planned := fun m => (plan (Memory.store stoppedClock) sampleInput.template
      sampleInput.source sampleInput.pullRequests m).result
    SameIn "team" resolvableMemory crowdedMemory
      ∧ ¬ SameIn "elsewhere" resolvableMemory crowdedMemory
      ∧ (found resolvableMemory = found crowdedMemory
        ∧ (found resolvableMemory).toOption.isSome = true)
      ∧ planned resolvableMemory = planned crowdedMemory
      ∧ (planned resolvableMemory).toOption.map (·.changes.length) = some 1 := by
  have hsame : SameIn "team" resolvableMemory crowdedMemory := sameIn_create _ _ (by decide)
  obtain ⟨hresolve, hplan⟩ := isolated reachable_resolvableMemory hsame
  refine ⟨hsame, fun h => ?_, ⟨(hresolve _ rfl "plan").result, by decide +kernel⟩,
    ((hplan _ rfl _).2 _).result, by decide +kernel⟩
  have hfound : (resolvableMemory.get .gitRepository "elsewhere" "repo").toOption.isSome
      = (crowdedMemory.get .gitRepository "elsewhere" "repo").toOption.isSome := by rw [h]
  revert hfound
  decide +kernel

end Pass

end PlanSync
