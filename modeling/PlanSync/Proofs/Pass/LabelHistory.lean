import PlanSync.Proofs.LabelRecord
import PlanSync.Proofs.Pass.Convergence
import PlanSync.Proofs.Pass.Creation
import PlanSync.Proofs.Pass.Edits
import PlanSync.Proofs.Pass.Idempotence
import PlanSync.Proofs.Pass.Recognition
import PlanSync.Proofs.Pass.Upkeep

/-!
# Labels over many passes

The labels of a derived object belong to several owners. A pass owns those that it
derives, and those that an earlier pass has taken over from the template or the source;
the rest is left to others, who may change any label between passes. Nothing but an
annotation of the object tells one pass what the pass before has taken over.

So it has to be shown over a history: an object is created by a pass, or is found with
a record, and then others and passes take turns (`Pass.Tended`). After each pass its
labels are those that are derived, and of those that it had before the pass the ones
that are neither derived nor were taken over by the pass before; and its record lists
what this pass has taken over. So it is unless the head branch of the pull request is
empty, and then only what is derived is left (`Pass.labels_after_passes`).

For to every pass the object of an empty head branch is a stray. The pass has planned to
delete it and to create it again, and if it does all that it has to do about the branch,
then it did so in this order. That can happen, since units run side by side: a label of
somebody else is lost in a pass that succeeds (`Pass.label_lost_when_made_again`).
-/

namespace PlanSync.Pass

variable {clock : Nat → Timestamp} {i i' : Input} {m₀ m : Memory} {wanted wanted' : DesiredState}
  {owned : OwnedObjects} {events : List Event} {key : ObjectKey} {k : Kind} {id : BranchId}
  {pair pair' : DesiredPair} {dropped : List String} {before : Labels}
  {others : String → Option String}

/-! ## One pass -/

/-- **A pass keeps up an object**: the branch of the object is desired, and its unit
does all that it has to do. The labels that are taken over have plain keys, and the
numbers of pull requests are words of 64 bits. -/
structure KeepsUp (clock : Nat → Timestamp) (k : Kind) (id : BranchId) (key : ObjectKey)
    (i : Input) (m₀ : Memory) (events : List Event) : Prop where
  derivedKey : i.derivedKey k id = key
  plain : (i.origin k).labels.Plain
  numbers : ∀ pr ∈ i.pullRequests, pr.number < Text.wordBound
  desired : ∃ wanted pair, i.derive? = some wanted ∧ wanted.pairs.get? id = some pair
  done : ∃ plan units, (Run.inMemory clock i m₀ events).stage = .applying plan units
    ∧ BranchDone id units

theorem KeepsUp.number_lt (h : KeepsUp clock k id key i m₀ events) (hw : i.derive? = some wanted)
    (hp : wanted.pairs.get? id = some pair) : pair.pullRequest.number < Text.wordBound := by
  obtain ⟨pr, hpr, -, -, rfl⟩ := Input.of_get?_pairs hw hp
  exact h.numbers pr hpr.1

/-- **The labels that a pass leaves to others**, of the half that it has found: those
whose keys the pass before has not taken over. -/
def leftToOthers (half : Option (Object k)) (name : String) : Option String :=
  half.bind fun o => if name ∈ o.metadata.inheritedKeys then none else o.labels.get? name

/-- **The labels of an object after a pass** that derived some labels and left some to
others. -/
structure LabelsAfter (desired : Metadata) (others : String → Option String)
    (after : Metadata) : Prop where
  label : ∀ name, after.labels.get? name = (desired.labels.get? name).or (others name)
  record : after.annotations.get? inheritedRecord = desired.annotations.get? inheritedRecord

/-- A half that is found is written over. -/
theorem labelsAfter_overwrite (o : Object k) {desired : Metadata} {keys : String}
    (hrecord : desired.annotations.get? inheritedRecord = some keys) :
    LabelsAfter desired (leftToOthers (some o)) (o.metadata.overwrite desired) where
  label := o.metadata.get?_labels_overwrite_recorded desired
  record := by rw [Metadata.get?_annotations_overwrite, hrecord, Option.some_or]

/-- Where none is found, what is derived is stored. -/
theorem labelsAfter_self (k : Kind) (desired : Metadata) :
    LabelsAfter desired (leftToOthers (none : Option (Object k))) desired where
  label _ := Option.or_none.symm
  record := rfl

theorem LabelsAfter.of_eq {desired after after' : Metadata} (h : LabelsAfter desired others after)
    (hlabels : after'.labels = after.labels) (hannotations : after'.annotations = after.annotations) :
    LabelsAfter desired others after' := by
  refine ⟨fun name => ?_, ?_⟩
  · rw [hlabels]
    exact h.label name
  · rw [hannotations]
    exact h.record

/-- Every derived half has a record. -/
theorem get?_record_half (hw : i.derive? = some wanted) (hp : wanted.pairs.get? id = some pair)
    (k : Kind) : (pair.half k).metadata.annotations.get? inheritedRecord
      = some (Text.join "," (i.origin k).labels.takenOver) := by
  obtain ⟨pr, -, rfl, -, rfl⟩ := Input.of_get?_pairs hw hp
  rw [Input.metadata_half, DesiredState.get?_record_takenOver]

/-- **An object is labelled**: it is there, it can be read if template and source can
be, and its labels are those after a pass. -/
structure Labelled (i : Input) (m : Memory) (k : Kind) (key : ObjectKey) (desired : Metadata)
    (others : String → Option String) : Prop where
  there : m.cell key ≠ none
  held : i.Readable → ∃ o : Object k, m.Holds o ∧ o.key = key
  labels : ∀ o : Object k, m.Holds o → o.key = key → LabelsAfter desired others o.metadata

theorem labelled_of_holds {o : Object k} {desired : Metadata} (ho : m.Holds o) (hkey : o.key = key)
    (h : LabelsAfter desired others o.metadata) : Labelled i m k key desired others where
  there := ho.cell_ne_none hkey
  held _ := ⟨o, ho, hkey⟩
  labels o' ho' hkey' := by
    rw [ho'.unique ho (hkey'.trans hkey.symm)]
    exact h

theorem labelled_of_storedAs {o : Object k} {desired : Metadata} {j : Json}
    (hcell : m.cell key = some j) (hstored : o.StoredAs j) (hkey : o.key = key)
    (htidy : i.Readable → o.Tidy) (h : LabelsAfter desired others o.metadata) :
    Labelled i m k key desired others where
  there := by
    rw [hcell]
    exact Option.some_ne_none j
  held hi := by
    obtain ⟨version, created, hholds⟩ := hstored.holds (htidy hi) (hkey ▸ hcell)
    exact ⟨_, hholds, hkey⟩
  labels o' ho' hkey' := by
    obtain ⟨j', hj', hd⟩ := ho'
    rw [hkey', hcell] at hj'
    cases hj'
    obtain ⟨hlabels, hannotations⟩ := hstored.metadata hd
    exact h.of_eq hlabels hannotations

/-- **One pass** makes of the labels what it should, told by the half that it finds. -/
theorem KeepsUp.labelled (hclock : ∀ n, (clock n).ReadsBack) (hm₀ : m₀.Sound)
    (h : KeepsUp clock k id key i m₀ events) (hw : i.derive? = some wanted)
    (hp : wanted.pairs.get? id = some pair) :
    ∃ owned, Surveyed i m₀ wanted owned
      ∧ Labelled i (Run.inMemory clock i m₀ events).state k key (pair.half k).metadata
        (leftToOthers ((owned.pairOf id).half k)) := by
  obtain ⟨plan, units, hstage, hdone⟩ := h.done
  obtain rfl := h.derivedKey
  have hrecord := get?_record_half hw hp k
  obtain ⟨owned, hs, hleft⟩ := hdone.left (k := k) hclock hm₀ hstage hw hp
  refine ⟨owned, hs, ?_⟩
  rcases hleft with ⟨o, ho, hsettled, hsame⟩ | ⟨s, hconverge, hleaves⟩
  -- the half that is found needs no step, as it would be written over by itself
  · have hkey := hs.key_half hm₀ ho
    have hlabels := labelsAfter_overwrite o hrecord
    rw [Metadata.overwrite_eq_self (Bool.or_eq_false_iff.mp hsettled).2] at hlabels
    rw [ho]
    exact labelled_of_holds (((hs.half_iff hm₀).mp ho).1.of_cell_eq (hkey ▸ hsame)) hkey hlabels
  · cases ho : (owned.pairOf id).half k with
    | none =>
      rw [ho] at hconverge
      cases hconverge
      obtain ⟨j, hcell, hstored⟩ := hleaves
      exact labelled_of_storedAs hcell hstored (Input.key_half hw hp k)
        (fun hi => Input.tidy_half hi hw hp k) (labelsAfter_self k _)
    | some o =>
      rw [ho] at hconverge
      cases hd : o.differsFrom (pair.half k) with
      | false => cases (Plan.converge?_some_of_not_differs hd).symm.trans hconverge
      | true =>
        cases (Plan.converge?_some_of_differs hd).symm.trans hconverge
        obtain ⟨j, hcell, hstored⟩ := hleaves
        have hreadable := ((hs.half_iff hm₀).mp ho).1.readable
        have hkey := hs.key_half hm₀ ho
        exact labelled_of_storedAs hcell hstored hkey
          (fun hi => (Object.tidy_of_readable hreadable).overwrite (Input.tidy_half hi hw hp k))
          (labelsAfter_overwrite o hrecord)

/-! ## What a pass finds -/

/-- **Two objects have the same owner labels.** -/
def SameOwner (o o' : Object k) : Prop :=
  ∀ name ∈ ownerKeys, o'.labels.get? name = o.labels.get? name

theorem SameOwner.trans {o o' o'' : Object k} (h : SameOwner o o') (h' : SameOwner o' o'') :
    SameOwner o o'' := fun name hname => (h' name hname).trans (h name hname)

/-- The owner labels of a derived half. -/
theorem get?_ownerKey_half (hw : i.derive? = some wanted) (hp : wanted.pairs.get? id = some pair)
    (k : Kind) {name : String} (hname : name ∈ ownerKeys) :
    (pair.half k).labels.get? name
      = (ownerLabels i.template.name pair.pullRequest.number).get? name := by
  obtain ⟨pr, -, -, -, rfl⟩ := Input.of_get?_pairs hw hp
  show _ = (ownerLabels i.template.name pr.number).get? name
  obtain ⟨value, hvalue⟩ := exists_ownerLabel i.template.name pr.number hname
  rw [Input.get?_labels_half, hvalue, Option.some_or]

/-- **Halves that are derived under one id** have the same owner labels, if the names of
their templates are the same. -/
theorem sameOwner_halves (hw : i.derive? = some wanted) (hp : wanted.pairs.get? id = some pair)
    (hw' : i'.derive? = some wanted') (hp' : wanted'.pairs.get? id = some pair')
    (htemplate : i'.template.name = i.template.name) (k : Kind) :
    SameOwner (pair.half k) (pair'.half k) := by
  intro name hname
  have hnumber : pair'.pullRequest.number = pair.pullRequest.number := by
    obtain ⟨pr, -, hid, -, rfl⟩ := Input.of_get?_pairs hw hp
    obtain ⟨pr', -, hid', -, rfl⟩ := Input.of_get?_pairs hw' hp'
    exact (BranchId.of_inj.mp (hid'.trans hid.symm)).2
  rw [get?_ownerKey_half hw' hp' k hname, get?_ownerKey_half hw hp k hname, htemplate, hnumber]

/-- A pass leaves the owner labels that it derives. -/
theorem LabelsAfter.sameOwner (hw : i.derive? = some wanted)
    (hp : wanted.pairs.get? id = some pair) {o : Object k}
    (h : LabelsAfter (pair.half k).metadata others o.metadata) : SameOwner (pair.half k) o := by
  intro name hname
  obtain ⟨value, hvalue⟩ :=
    exists_ownerLabel i.template.name pair.pullRequest.number hname
  have hderived := (get?_ownerKey_half hw hp k hname).trans hvalue
  have hlabel := h.label name
  rw [show (pair.half k).metadata.labels.get? name = some value from hderived,
    Option.some_or] at hlabel
  exact hlabel.trans hderived.symm

/-- **What has the derived key and owner labels is owned.** -/
theorem owns_of_sameOwner (hw : i.derive? = some wanted) (hp : wanted.pairs.get? id = some pair)
    {o : Object k} (hkey : o.key = i.derivedKey k id) (howner : SameOwner (pair.half k) o) :
    i.Owns o where
  here := congrArg ObjectKey.namespaceName hkey
  bears :=
    have hbears := Input.bears_half hw hp k
    ⟨(howner _ (by decide)).trans hbears.marker, (howner _ (by decide)).trans hbears.template⟩
  other := Input.not_itself_of_key hkey

/-- **The labels that survive a pass** for a pull request, beside those that it derives:
those whose keys the pass before has not taken over, and none at all if the head branch
is empty. -/
def survivors (pr : PullRequest) (dropped : List String) (before : Labels) (name : String) :
    Option String :=
  if pr.headBranch = "" ∨ name ∈ dropped then none else before.get? name

theorem leftToOthers_of_missing (hm₀ : m₀.Sound) (hs : Surveyed i m₀ wanted owned)
    (hnone : m₀.cell (i.derivedKey k id) = none) (pr : PullRequest) :
    leftToOthers ((owned.pairOf id).half k) = survivors pr [] .empty := by
  have hmissing : (owned.pairOf id).half k = none :=
    Option.eq_none_iff_forall_ne_some.mpr fun o ho =>
      ((hs.half_iff hm₀).mp ho).1.cell_ne_none (hs.key_half hm₀ ho) hnone
  funext name
  rw [hmissing, survivors, SortedMap.get?_empty, ite_self]
  rfl

/-- **What is left to others of an object that is found** under the derived key and with
the derived owner labels. -/
theorem leftToOthers_of_found (hm₀ : m₀.Sound) (hs : Surveyed i m₀ wanted owned)
    (hp : wanted.pairs.get? id = some pair) (hnumber : pair.pullRequest.number < Text.wordBound)
    {o : Object k} (ho : m₀.Holds o) (hkey : o.key = i.derivedKey k id)
    (howner : SameOwner (pair.half k) o) :
    leftToOthers ((owned.pairOf id).half k)
      = survivors pair.pullRequest o.metadata.inheritedKeys o.labels := by
  have hstanding := standing_of_number hs.derived hp hnumber hkey (howner _ (by decide))
  funext name
  by_cases hhead : pair.pullRequest.headBranch = ""
  · rw [if_pos hhead] at hstanding
    -- only the object could be the half, but it is a stray
    have hmissing : (owned.pairOf id).half k = none := by
      refine Option.eq_none_iff_forall_ne_some.mpr fun o' ho' => ?_
      obtain ⟨hholds, -, hbranch⟩ := (hs.half_iff hm₀).mp ho'
      rw [hholds.unique ho ((hs.key_half hm₀ ho').trans hkey.symm)] at hbranch
      cases hstanding.symm.trans hbranch
    rw [hmissing, survivors, if_pos (.inl hhead)]
    rfl
  · rw [if_neg hhead] at hstanding
    rw [(hs.half_iff hm₀).mpr ⟨ho, owns_of_sameOwner hs.derived hp hkey howner, hstanding⟩]
    simp only [survivors, hhead, false_or]
    rfl

/-! ## Many passes -/

/-- **An object is tended**: a pass creates it, or finds it with a record and the owner
labels that the pass derives for it; and then others and passes take turns. What others
do is any sequence of calls, as long as the object is there afterwards with the owner
labels and the record that it had; the passes may have other inputs, as long as the
object is derived under the same key, from a template of the same name. Beside the inputs
of the last pass and the store after it stand the keys that were recorded, and the labels
that the object had, just before it. -/
inductive Tended (clock : Nat → Timestamp) (k : Kind) (id : BranchId) (key : ObjectKey) :
    Input → List String → Labels → Memory → Prop
  | created {i : Input} {m : Memory} {events : List Event} (hm : Memory.Reachable clock m)
      (hnone : m.cell key = none) (hpass : KeepsUp clock k id key i m events) :
    Tended clock k id key i [] .empty (Run.inMemory clock i m events).state
  | found {i : Input} {wanted : DesiredState} {pair : DesiredPair} {m : Memory}
      {events : List Event} {o : Object k} (hm : Memory.Reachable clock m) (ho : m.Holds o)
      (hkey : o.key = key) (hw : i.derive? = some wanted)
      (hp : wanted.pairs.get? id = some pair) (howner : SameOwner (pair.half k) o)
      (hpass : KeepsUp clock k id key i m events) :
    Tended clock k id key i o.metadata.inheritedKeys o.labels
      (Run.inMemory clock i m events).state
  | kept {i i' : Input} {dropped : List String} {before : Labels} {m : Memory}
      {edits : List Memory.Edit} {events : List Event} {o o' : Object k}
      (h : Tended clock k id key i dropped before m) (ho : m.Holds o) (hkey : o.key = key)
      (ho' : (edits.foldl (Memory.Edit.apply clock) m).Holds o') (hkey' : o'.key = key)
      (howner : SameOwner o o')
      (hrecord : o'.metadata.annotations.get? inheritedRecord
        = o.metadata.annotations.get? inheritedRecord)
      (hpass : KeepsUp clock k id key i' (edits.foldl (Memory.Edit.apply clock) m) events)
      (htemplate : i'.template.name = i.template.name) :
    Tended clock k id key i' (i.origin k).labels.takenOver o'.labels
      (Run.inMemory clock i' (edits.foldl (Memory.Edit.apply clock) m) events).state

namespace Tended

theorem reachable (h : Tended clock k id key i dropped before m) :
    Memory.Reachable clock m := by
  induction h with
  | created hm => exact reachable_inMemory hm _ _
  | found hm => exact reachable_inMemory hm _ _
  | kept _ _ _ _ _ _ _ _ _ ih => exact reachable_inMemory (ih.edits _) _ _

/-- The last pass kept the object up. -/
theorem keepsUp (h : Tended clock k id key i dropped before m) :
    ∃ m₀ events, KeepsUp clock k id key i m₀ events := by
  cases h with
  | created _ _ hpass => exact ⟨_, _, hpass⟩
  | found _ _ _ _ _ _ hpass => exact ⟨_, _, hpass⟩
  | kept _ _ _ _ _ _ _ hpass => exact ⟨_, _, hpass⟩

/-- **What is read in a record of plain labels** are the keys that were taken over. -/
theorem inheritedKeys_eq (h : Tended clock k id key i dropped before m) {stored : Metadata}
    (hrecord : stored.annotations.get? inheritedRecord
      = some (Text.join "," (i.origin k).labels.takenOver)) :
    stored.inheritedKeys = (i.origin k).labels.takenOver := by
  obtain ⟨_, _, hpass⟩ := h.keepsUp
  rw [← DesiredState.inheritedKeys_metadata_of_plain i.template "" 0 hpass.plain,
    Metadata.inheritedKeys, Metadata.inheritedKeys, DesiredState.get?_record_takenOver, hrecord]

/-- A pass that finds the object labels it. -/
theorem labelled_of_found (hclock : ∀ n, (clock n).ReadsBack) (hm₀ : m₀.Sound) {o : Object k}
    (ho : m₀.Holds o) (hkey : o.key = key) (hpass : KeepsUp clock k id key i m₀ events)
    (hw : i.derive? = some wanted) (hp : wanted.pairs.get? id = some pair)
    (howner : SameOwner (pair.half k) o) :
    Labelled i (Run.inMemory clock i m₀ events).state k key (pair.half k).metadata
      (survivors pair.pullRequest o.metadata.inheritedKeys o.labels) := by
  obtain ⟨owned, hs, hlabelled⟩ := hpass.labelled hclock hm₀ hw hp
  rw [leftToOthers_of_found hm₀ hs hp (hpass.number_lt hw hp) ho
    (hkey.trans hpass.derivedKey.symm) howner] at hlabelled
  exact hlabelled

/-- **After every pass an object that is tended is labelled**, with the labels of that
pass. -/
theorem labelled (hclock : ∀ n, (clock n).ReadsBack)
    (h : Tended clock k id key i dropped before m) (hw : i.derive? = some wanted)
    (hp : wanted.pairs.get? id = some pair) :
    Labelled i m k key (pair.half k).metadata (survivors pair.pullRequest dropped before) := by
  induction h generalizing wanted pair with
  | created hm hnone hpass =>
    have hm₀ := hm.sound hclock
    obtain ⟨owned, hs, hlabelled⟩ := hpass.labelled hclock hm₀ hw hp
    rw [leftToOthers_of_missing hm₀ hs (hpass.derivedKey ▸ hnone) pair.pullRequest] at hlabelled
    exact hlabelled
  | found hm ho hkey hw' hp' howner hpass =>
    cases hw'.symm.trans hw
    cases hp'.symm.trans hp
    exact labelled_of_found hclock (hm.sound hclock) ho hkey hpass hw hp howner
  | @kept i i' _ _ m edits events o o' h ho hkey ho' hkey' howner hrecord hpass htemplate ih =>
    -- the pass before has left its owner labels and its record, and others have not
    -- touched them
    obtain ⟨_, _, hbefore⟩ := h.keepsUp
    obtain ⟨_, _, hw₀, hp₀⟩ := hbefore.desired
    have hafter := (ih hw₀ hp₀).labels o ho hkey
    have hrecorded := hrecord.trans hafter.record
    rw [get?_record_half hw₀ hp₀] at hrecorded
    have howner' : SameOwner (pair.half k) o' :=
      (sameOwner_halves hw hp hw₀ hp₀ htemplate.symm k).trans
        ((hafter.sameOwner hw₀ hp₀).trans howner)
    have hlabelled := labelled_of_found hclock ((h.reachable.edits edits).sound hclock) ho' hkey'
      hpass hw hp howner'
    rw [h.inheritedKeys_eq hrecorded] at hlabelled
    exact hlabelled

end Tended

/-- **After each of any number of passes** the object is there, and its labels are
exactly those that the pass derives and, of those that it had just before, the ones
whose keys are neither derived nor were taken over by the pass before. If the head branch
is empty, then none of the latter are left. The record lists what this pass has taken
over, and reads back as that. -/
theorem labels_after_passes (hclock : ∀ n, (clock n).ReadsBack)
    (h : Tended clock k id key i dropped before m) (hw : i.derive? = some wanted)
    (hp : wanted.pairs.get? id = some pair) :
    m.cell key ≠ none ∧ (i.Readable → ∃ o : Object k, m.Holds o ∧ o.key = key)
      ∧ ∀ o : Object k, m.Holds o → o.key = key →
        (∀ name, o.labels.get? name = ((pair.half k).labels.get? name).or
            (if pair.pullRequest.headBranch = "" ∨ name ∈ dropped then none
              else before.get? name))
          ∧ o.metadata.annotations.get? inheritedRecord
            = some (Text.join "," (i.origin k).labels.takenOver)
          ∧ o.metadata.inheritedKeys = (i.origin k).labels.takenOver := by
  have hlabelled := h.labelled hclock hw hp
  refine ⟨hlabelled.there, hlabelled.held, fun o ho hkey => ?_⟩
  have hafter := hlabelled.labels o ho hkey
  have hrecord := hafter.record.trans (get?_record_half hw hp k)
  exact ⟨hafter.label, hrecord, h.inheritedKeys_eq hrecord⟩

/-! ### A label of somebody else -/

/-- The id of the pull request of the sample, from a head branch of the given name. -/
def headedBranch (head : String) : BranchId := .of head 7

/-- The key of the configuration that is derived for it. -/
def headedKey (head : String) : ObjectKey :=
  (headedInput head).derivedKey .terraform (headedBranch head)

/-- The calls of a pass that creates the two objects of the branch. -/
def creating : List Event := [0, 0, 0, 0].map .turn

/-- The store after such a pass. -/
def createdMemory (head : String) : Memory :=
  (Run.inMemory stoppedClock (headedInput head) {} creating).state

/-- What somebody does then: the configuration gets a label. -/
def tagging (head : String) : List Memory.Edit :=
  (((createdMemory head).get .terraform "team" (headedKey head).name).toOption.map fun o =>
    .update .terraform
      { o with metadata := { o.metadata with labels := o.labels.insert "team" "blue" } }).toList

/-- The store after that. -/
def taggedMemory (head : String) : Memory :=
  (tagging head).foldl (Memory.Edit.apply stoppedClock) (createdMemory head)

theorem reachable_createdMemory (head : String) :
    Memory.Reachable stoppedClock (createdMemory head) :=
  reachable_inMemory .empty _ _

theorem sound_taggedMemory (head : String) : (taggedMemory head).Sound :=
  ((reachable_createdMemory head).edits (tagging head)).sound readsBack_stoppedClock

/-- The pass creates the configuration. -/
theorem tended_creating (head : String)
    (hkeys : (headedInput head).derive?.map (·.pairs.keys) = some [headedBranch head])
    (hok : (Run.inMemory stoppedClock (headedInput head) {} creating).stage.result?
      (headedInput head) = some (.ok { created := 2 })) :
    Tended stoppedClock .terraform (headedBranch head) (headedKey head) (headedInput head) []
      .empty (createdMemory head) :=
  .created .empty rfl
    { derivedKey := rfl
      plain := show (sampleInput.origin .terraform).labels.Plain by decide
      numbers := fun pr hpr => by
        obtain rfl := List.mem_singleton.mp hpr
        show 7 < Text.wordBound
        decide
      desired := Input.exists_get?_of_keys hkeys (List.mem_singleton_self _)
      done := branchDone_of_ok hok (headedBranch head) }

/-- Then the configuration is there, with the label of somebody beside the others. -/
theorem exists_tagged (head : String)
    (hcreated : ((createdMemory head).get .terraform "team" (headedKey head).name).toOption.map
      (fun o => (ownerKeys.map o.labels.get?, o.metadata.annotations.get? inheritedRecord))
        = some ([some "true", some "7", some "plan"], some "app"))
    (htagged : ((taggedMemory head).get .terraform "team" (headedKey head).name).toOption.map
      (fun o => (ownerKeys.map o.labels.get?, o.metadata.annotations.get? inheritedRecord,
        o.labels.get? "team"))
        = some ([some "true", some "7", some "plan"], some "app", some "blue")) :
    ∃ o o' : Terraform, ((createdMemory head).Holds o ∧ o.key = headedKey head)
      ∧ ((taggedMemory head).Holds o' ∧ o'.key = headedKey head) ∧ SameOwner o o'
      ∧ o'.metadata.annotations.get? inheritedRecord
        = o.metadata.annotations.get? inheritedRecord
      ∧ o'.labels.get? "team" = some "blue" := by
  obtain ⟨o, ho, hkey, heq⟩ :=
    ((reachable_createdMemory head).sound readsBack_stoppedClock).exists_of_get hcreated
  obtain ⟨o', ho', hkey', heq'⟩ := (sound_taggedMemory head).exists_of_get htagged
  simp only [Prod.mk.injEq] at heq heq'
  refine ⟨o, o', ⟨ho, hkey⟩, ⟨ho', hkey'⟩, ?_, heq'.2.1.trans heq.2.symm, heq'.2.2⟩
  exact List.map_inj_left.mp (heq'.1.trans heq.1.symm)

/-! ### A pass that keeps it -/

/-- The sample, once its template has lost its label and got another. -/
def retaggedInput : Input :=
  { sampleInput with
    template :=
      { sampleInput.template with
        metadata :=
          { sampleInput.template.metadata with labels := .ofList [("tier", "gold")] } } }

theorem readable_retaggedInput : retaggedInput.Readable where
  template := by
    have htidy := Object.tidy_of_readable readable_sampleInput.template
    exact Object.readable_of_tidy ⟨htidy.spec, htidy.status⟩ fun _ ht => by cases ht
  source := readable_sampleInput.source

theorem desired_retaggedInput :
    ∃ wanted pair, retaggedInput.derive? = some wanted
      ∧ wanted.pairs.get? (headedBranch "topic") = some pair :=
  Input.exists_get?_of_keys (by decide +kernel) (List.mem_singleton_self (headedBranch "topic"))

/-- The calls of a pass that updates one of the two objects. -/
def updating : List Event := [0, 0, 0].map .turn

theorem keepsUp_updating :
    KeepsUp stoppedClock .terraform (headedBranch "topic") (headedKey "topic") retaggedInput
      (taggedMemory "topic") updating where
  derivedKey := by decide
  plain := by decide
  numbers := by decide
  desired := desired_retaggedInput
  done := by
    have hok : (Run.inMemory stoppedClock retaggedInput (taggedMemory "topic")
        updating).stage.result? retaggedInput = some (.ok { updated := 1 }) :=
      Answer.eq_ok_of_toOption (by decide +kernel)
    exact branchDone_of_ok hok (headedBranch "topic")

/-- The label of somebody else stays, while that of the template goes. -/
theorem foreign_label_stays :
    ∃ o : Terraform,
      (Run.inMemory stoppedClock retaggedInput (taggedMemory "topic") updating).state.Holds o
        ∧ o.key = headedKey "topic" ∧ o.labels.get? "team" = some "blue"
        ∧ o.labels.get? "app" = none ∧ o.labels.get? "tier" = some "gold"
        ∧ o.metadata.inheritedKeys = ["tier"] := by
  obtain ⟨wanted, pair, hw, hp⟩ := desired_retaggedInput
  obtain ⟨o, o', ⟨ho, hkey⟩, ⟨ho', hkey'⟩, howner, hrecord, hteam⟩ :=
    exists_tagged "topic" (by decide +kernel) (by decide +kernel)
  have htended := Tended.kept (tended_creating "topic" (by decide +kernel)
    (Answer.eq_ok_of_toOption (by decide +kernel))) ho hkey ho' hkey' howner hrecord
    keepsUp_updating rfl
  obtain ⟨-, hheld, hlabels⟩ := labels_after_passes readsBack_stoppedClock htended hw hp
  obtain ⟨o'', hholds, hkey''⟩ := hheld readable_retaggedInput
  obtain ⟨hlabel, -, hkeys⟩ := hlabels o'' hholds hkey''
  -- what is derived can be computed, for there is one pull request only
  obtain ⟨pr, hpr, -, -, rfl⟩ := Input.of_get?_pairs hw hp
  obtain rfl := List.mem_singleton.mp hpr.1
  refine ⟨o'', hholds, hkey'', ?_, ?_, ?_, hkeys.trans (by decide)⟩
  · rw [hlabel, hteam]
    decide
  · rw [hlabel, if_pos (.inr (by decide))]
    decide
  · rw [hlabel]
    rfl

/-! ### A pass that loses it -/

/-- **The plan is made after two turns.** -/
theorem Surveyed.after_two_turns (h : Surveyed i m wanted owned) :
    Run.inMemory clock i m [.turn 0, .turn 0]
      = ⟨.applying (.compute wanted owned) ((Plan.compute wanted owned).changes.map .start), false,
          m⟩ := by
  obtain ⟨hstate, hcancelled, hstage⟩ := Pass.after_two_turns (Memory.store clock) i m
  rw [plan_state] at hstate
  rw [h.plan_result] at hstage
  show Run.after (Memory.store clock) i ⟨.begun, false, m⟩ [.turn 0, .turn 0] = _
  generalize Run.after (Memory.store clock) i ⟨.begun, false, m⟩ [.turn 0, .turn 0] = r at *
  obtain ⟨stage, cancelled, state⟩ := r
  cases hstate
  cases hcancelled
  cases hstage
  rfl

/-- The calls of a pass that deletes the two objects as strays, and then creates them. -/
def remaking : List Event := [0, 0, 1, 2, 0, 0].map .turn

/-- The store after a pass without a head branch that has found the label. -/
def remadeMemory : Memory :=
  (Run.inMemory stoppedClock (headedInput "") (taggedMemory "") remaking).state

/-- The pass succeeds. -/
theorem result_remaking :
    (Run.inMemory stoppedClock (headedInput "") (taggedMemory "") remaking).stage.result?
      (headedInput "") = some (.ok { created := 2, deleted := 2 }) := by
  have hfound : (gather? (headedInput "") (taggedMemory "")).map (fun s => (s.2.strays,
      ((Run.after (Memory.store stoppedClock) (headedInput "")
        ⟨.applying (.compute s.1 s.2) ((Plan.compute s.1 s.2).changes.map .start), false,
          taggedMemory ""⟩ ([1, 2, 0, 0].map .turn)).stage.result? (headedInput "")).bind
            Except.toOption))
      = some ([headedKey "", (headedInput "").derivedKey .gitRepository (headedBranch "")],
          some { created := 2, deleted := 2 }) := by decide +kernel
  obtain ⟨⟨wanted, owned⟩, hgather, hfound⟩ := Option.map_eq_some_iff.mp hfound
  obtain ⟨hstrays, hresult⟩ := Prod.mk.inj hfound
  have hs : Surveyed (headedInput "") (taggedMemory "") wanted owned :=
    surveyed_of_survey? (survey?_of_gather? hgather (hstrays ▸ by decide))
  rw [show remaking = [.turn 0, .turn 0] ++ [1, 2, 0, 0].map .turn from rfl, Run.inMemory,
    Run.after_append]
  rw [show Run.after (Memory.store stoppedClock) (headedInput "") { state := taggedMemory "" }
    [.turn 0, .turn 0] = _ from hs.after_two_turns]
  exact Answer.eq_ok_of_toOption hresult

/-- **A label is lost**: without a head branch, the objects of the pair are created, and
somebody adds a label to one of them. The next pass finds both to be strays, and its
units run side by side: the strays are deleted, then the pair is created again. The pass
succeeds, and the object is there under its key, but the label has gone, although it is
neither derived nor was taken over by the pass before. -/
theorem label_lost_when_made_again :
    (Run.inMemory stoppedClock (headedInput "") (taggedMemory "") remaking).stage.result?
        (headedInput "") = some (.ok { created := 2, deleted := 2 })
      ∧ ∃ (wanted : DesiredState) (before : Labels) (o : Terraform),
        Tended stoppedClock .terraform ⟨"-7"⟩ ⟨.terraform, "team", "plan--7"⟩ (headedInput "")
          ["app"] before remadeMemory
        ∧ (headedInput "").derive? = some wanted
        ∧ wanted.pairs.get? ⟨"-7"⟩ = some (headedPair "")
        ∧ remadeMemory.Holds o ∧ o.key = ⟨.terraform, "team", "plan--7"⟩
        ∧ before.get? "team" = some "blue" ∧ (headedPair "").terraform.labels.get? "team" = none
        ∧ o.labels.get? "team" = none := by
  have hkeys : (headedInput "").derive?.map (·.pairs.keys) = some [headedBranch ""] := by
    decide +kernel
  obtain ⟨wanted, hw, hp⟩ := exists_headedPair "" hkeys
  obtain ⟨o, o', ⟨ho, hkey⟩, ⟨ho', hkey'⟩, howner, hrecord, hteam⟩ :=
    exists_tagged "" (by decide +kernel) (by decide +kernel)
  have hcreated := tended_creating "" hkeys (Answer.eq_ok_of_toOption (by decide +kernel))
  obtain ⟨_, _, hbefore⟩ := hcreated.keepsUp
  have htended := Tended.kept hcreated ho hkey ho' hkey' howner hrecord
    { hbefore with done := branchDone_of_ok result_remaking (headedBranch "") } rfl
  -- nothing survives where the head branch is empty
  have hlabelled := htended.labelled readsBack_stoppedClock hw hp
  obtain ⟨o'', hholds, hkey''⟩ := hlabelled.held
    ⟨readable_sampleInput.template, readable_sampleInput.source⟩
  have hlabel := (hlabelled.labels o'' hholds hkey'').label "team"
  have hderived : (headedPair "").terraform.labels.get? "team" = none := by decide +kernel
  refine ⟨result_remaking, wanted, o'.labels, o'', htended, hw, hp, hholds, hkey'', hteam,
    hderived, ?_⟩
  exact hlabel.trans (congrArg (Option.or · none) hderived)

end PlanSync.Pass
