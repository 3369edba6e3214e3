import PlanSync.Proofs.Object.Overwrite

/-!
# What detection tells

Whether a stored object needs writing is found out without writing it:
`Object.differsFrom` compares the specs, looks for wanted labels and annotations
that are missing or have another value, and for labels in the record that are no
longer wanted. `Object.overwrite` writes and never looks whether it has to. Here
the two are shown to say the same, for all objects: an object differs exactly if
writing would give another one, and what is written has all of the desired object
and of the stored one whatever the pass does not own
(`Object.detects_what_writing_changes`).

Objects are compared as the program compares them (`Object.same`), where a zero
with a sign is a zero.
-/

namespace PlanSync

/-! ## Equality of values goes both ways -/

theorem Binary64.same_comm (x y : Binary64) : x.same y = y.same x := by
  unfold Binary64.same
  by_cases h : x.magnitude = y.magnitude
  · simp only [h, eq_comm]
  · simp only [h, Ne.symm h, decide_false, Bool.false_and]

theorem JsonNumber.same_comm : ∀ m n : JsonNumber, m.same n = n.same m
  | .int _, .int _ => decide_eq_decide.mpr eq_comm
  | .float x, .float y => Binary64.same_comm x y
  | .int _, .float _ => rfl
  | .float _, .int _ => rfl

namespace Json

mutual

theorem same_comm : ∀ a b : Json, a.same b = b.same a
  | null, b => by cases b <;> rfl
  | bool _, b => by cases b <;> simp only [same, eq_comm]
  | number m, b => by cases b <;> simp only [same, m.same_comm]
  | string _, b => by cases b <;> simp only [same, eq_comm]
  | array xs, b => by cases b <;> simp only [same, sameItems_comm xs]
  | object xs, b => by cases b <;> simp only [same, sameMembers_comm xs]

theorem sameItems_comm : ∀ xs ys : List Json, sameItems xs ys = sameItems ys xs
  | [], [] => rfl
  | [], _ :: _ => rfl
  | _ :: _, [] => rfl
  | x :: xs, y :: ys => by rw [sameItems, sameItems, same_comm x y, sameItems_comm xs ys]

theorem sameMembers_comm :
    ∀ xs ys : List (String × Json), sameMembers xs ys = sameMembers ys xs
  | [], [] => rfl
  | [], _ :: _ => rfl
  | _ :: _, [] => rfl
  | (k, x) :: xs, (l, y) :: ys => by
    rw [sameMembers, sameMembers, same_comm x y, sameMembers_comm xs ys,
      decide_eq_decide.mpr (eq_comm (a := k) (b := l))]

end

end Json

theorem RepositoryRef.same_comm (r s : RepositoryRef) : r.same s = s.same r := by
  unfold RepositoryRef.same
  rw [Json.sameMembers_comm, decide_eq_decide.mpr (eq_comm (a := r.branch))]

theorem GitRepositorySpec.same_comm (s t : GitRepositorySpec) : s.same t = t.same s := by
  unfold GitRepositorySpec.same
  rw [Json.sameMembers_comm, decide_eq_decide.mpr (eq_comm (a := s.url))]
  cases s.reference with
  | none => cases t.reference <;> rfl
  | some r =>
    cases t.reference with
    | none => rfl
    | some u => simp only [r.same_comm u]

theorem TerraformSpec.same_comm (s t : TerraformSpec) : s.same t = t.same s := by
  unfold TerraformSpec.same
  rw [Json.sameMembers_comm]
  simp only [eq_comm]

theorem Kind.sameSpec_comm : ∀ {k : Kind} (s t : k.Spec), k.sameSpec s t = k.sameSpec t s
  | .terraform, s, t => TerraformSpec.same_comm s t
  | .gitRepository, s, t => GitRepositorySpec.same_comm s t

namespace Metadata

/-! ## What writing makes of labels -/

/-- **The labels that are written** are the wanted ones and, of the others, those
that are not in the record. Whether a label in the record is still there, or is
wanted again, makes no difference. -/
theorem get?_labels_overwrite_recorded (current desired : Metadata) (key : String) :
    (current.overwrite desired).labels.get? key
      = (desired.labels.get? key).or
          (if key ∈ current.inheritedKeys then none else current.labels.get? key) := by
  rw [get?_labels_overwrite]
  cases hwanted : desired.labels.get? key with
  | some value => rw [Option.some_or, Option.some_or]
  | none =>
    rw [Option.none_or, Option.none_or]
    by_cases hthere : current.labels.contains key = true
    · have hdropped : key ∈ droppedKeys current desired ↔ key ∈ current.inheritedKeys := by
        rw [droppedKeys, List.mem_filter, hthere,
          SortedMap.contains_eq_false_iff.mpr hwanted]
        exact and_iff_left rfl
      simp only [hdropped]
    · have habsent : current.labels.get? key = none :=
        SortedMap.contains_eq_false_iff.mp (Bool.eq_false_iff.mpr hthere)
      rw [habsent, ite_self, ite_self]

/-! ## Writing what does not differ -/

/-- Writing a map over one that lacks none of its entries changes nothing. -/
theorem overlay_eq_self {current wanted : Labels} (h : lacks current wanted = false) :
    current.overlay wanted = current := by
  refine SortedMap.ext_get? fun key => ?_
  rw [SortedMap.get?_overlay]
  cases hwanted : wanted.get? key with
  | none => exact Option.none_or
  | some value => rw [Option.some_or, lacks_eq_false_iff.mp h key value hwanted]

/-- **Metadata that does not differ is what writing gives.** -/
theorem overwrite_eq_self {current desired : Metadata}
    (h : current.differsFrom desired = false) : current.overwrite desired = current := by
  simp only [differsFrom, Bool.or_eq_false_iff, Bool.not_eq_false', List.isEmpty_iff] at h
  obtain ⟨⟨hlabels, hannotations⟩, hdropped⟩ := h
  unfold overwrite
  rw [hdropped, overlay_eq_self hannotations,
    show current.labels.eraseAll [] = current.labels from rfl, overlay_eq_self hlabels]

/-- **What writing does not change does not differ**: a wanted entry would be
there afterwards, and a dropped label would not. -/
theorem not_differsFrom_of_overwrite {current desired : Metadata}
    (h : current.overwrite desired = current) : current.differsFrom desired = false := by
  simp only [differsFrom, Bool.or_eq_false_iff, Bool.not_eq_false', List.isEmpty_iff]
  refine ⟨⟨lacks_eq_false_iff.mpr fun key value hwanted => ?_,
    lacks_eq_false_iff.mpr fun key value hwanted => ?_⟩,
    List.eq_nil_iff_forall_not_mem.mpr fun key hkey => ?_⟩
  · rw [← h]
    exact labels_overwrite_of_some hwanted
  · rw [← h]
    exact annotations_overwrite_of_some hwanted
  · have hthere : current.labels.contains key = true ∧ desired.labels.contains key = false := by
      simpa using (List.mem_filter.mp hkey).2
    have hwritten := get?_labels_overwrite current desired key
    rw [h, if_pos hkey, SortedMap.contains_eq_false_iff.mp hthere.2, Option.none_or] at hwritten
    rw [SortedMap.contains_eq_false_iff.mpr hwritten] at hthere
    exact Bool.false_ne_true hthere.1

theorem differsFrom_eq_false_iff {current desired : Metadata} :
    current.differsFrom desired = false ↔ current.overwrite desired = current :=
  ⟨overwrite_eq_self, not_differsFrom_of_overwrite⟩

end Metadata

namespace Object

variable {k : Kind}

/-- Equality of statuses. -/
def sameStatus : Option Json → Option Json → Bool
  | none, none => true
  | some a, some b => a.same b
  | _, _ => false

theorem sameStatus_refl : ∀ status : Option Json, sameStatus status status = true
  | none => rfl
  | some j => j.same_refl

/-- Equality of objects. -/
def same (o u : Object k) : Bool :=
  o.metadata = u.metadata && k.sameSpec o.spec u.spec && sameStatus o.status u.status

/-- **An object written over a stored one**: the spec of the desired object; the
name, the namespace, the status and what the store assigned as they were; as
annotations the desired ones and those of the stored object under other keys; as
labels the desired ones and those of the stored object under other keys that are
not in its record; and no others. -/
structure WrittenOver (current desired written : Object k) : Prop where
  spec : written.spec = desired.spec
  name : written.name = current.name
  namespaceName : written.namespaceName = current.namespaceName
  resourceVersion : written.metadata.resourceVersion = current.metadata.resourceVersion
  creationTimestamp : written.metadata.creationTimestamp = current.metadata.creationTimestamp
  status : written.status = current.status
  label : ∀ key, written.labels.get? key
    = (desired.labels.get? key).or
        (if key ∈ current.metadata.inheritedKeys then none else current.labels.get? key)
  annotation : ∀ key, written.metadata.annotations.get? key
    = (desired.metadata.annotations.get? key).or (current.metadata.annotations.get? key)

theorem writtenOver_overwrite (current desired : Object k) :
    current.WrittenOver desired (current.overwrite desired) where
  spec := rfl
  name := rfl
  namespaceName := rfl
  resourceVersion := rfl
  creationTimestamp := rfl
  status := rfl
  label := Metadata.get?_labels_overwrite_recorded _ _
  annotation := Metadata.get?_annotations_overwrite _ _

/-- The status is not written, so it is the same. -/
theorem overwrite_same_iff {current desired : Object k} :
    (current.overwrite desired).same current = true
      ↔ current.metadata.overwrite desired.metadata = current.metadata
        ∧ k.sameSpec desired.spec current.spec = true := by
  unfold same overwrite
  simp only [sameStatus_refl, Bool.and_true, Bool.and_eq_true, decide_eq_true_eq]

/-- **Detection tells what writing would change**, and writing keeps what the pass
does not own. -/
theorem detects_what_writing_changes (current desired : Object k) :
    (current.differsFrom desired = false
        ↔ (current.overwrite desired).same current = true)
      ∧ current.WrittenOver desired (current.overwrite desired) := by
  refine ⟨?_, writtenOver_overwrite current desired⟩
  rw [overwrite_same_iff, ← Metadata.differsFrom_eq_false_iff, Kind.sameSpec_comm]
  simp only [differsFrom, Bool.or_eq_false_iff, Bool.not_eq_false', and_comm]

end Object

end PlanSync
