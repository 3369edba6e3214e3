import PlanSync.Object.Overwrite
import PlanSync.Proofs.Object.Stored

/-!
# Detection and writing

A pass decides by `Object.differsFrom` whether a stored object needs writing,
and writes by `Object.overwrite`. What both are about is that an object *covers*
a desired one: it has its spec, all its labels and all its annotations.

An object that does not differ covers (`Object.covers_of_not_differsFrom`), and
so does one that was written (`Object.covers_overwrite`). That writing leaves
nothing to detect needs one thing more, for a stored object may also differ by
a label that was taken over earlier and is no longer wanted: the keys a desired
object records as taken over must be keys of labels it has
(`Metadata.Recorded`). Then an object that was written differs no more
(`Object.not_differsFrom_overwrite`).
-/

namespace PlanSync

/-! ## Equality of values -/

theorem Binary64.same_refl (x : Binary64) : x.same x = true := by
  rw [Binary64.same, decide_eq_true rfl, decide_eq_true rfl]
  rfl

namespace Json

mutual

theorem same_refl : ∀ j : Json, j.same j = true
  | null => rfl
  | bool _ => decide_eq_true rfl
  | number (.int _) => decide_eq_true rfl
  | number (.float x) => Binary64.same_refl x
  | string _ => decide_eq_true rfl
  | array xs => sameItems_refl xs
  | object xs => sameMembers_refl xs

theorem sameItems_refl : ∀ xs : List Json, sameItems xs xs = true
  | [] => rfl
  | x :: xs => by rw [sameItems, same_refl x, sameItems_refl xs, Bool.and_true]

theorem sameMembers_refl : ∀ xs : List (String × Json), sameMembers xs xs = true
  | [] => rfl
  | (k, x) :: xs => by
    rw [sameMembers, same_refl x, sameMembers_refl xs, decide_eq_true rfl, Bool.and_true,
      Bool.and_true]

end

end Json

theorem RepositoryRef.same_refl (r : RepositoryRef) : r.same r = true := by
  rw [RepositoryRef.same, Json.sameMembers_refl, decide_eq_true rfl, Bool.and_true]

theorem GitRepositorySpec.same_refl (s : GitRepositorySpec) : s.same s = true := by
  rw [GitRepositorySpec.same, Json.sameMembers_refl, decide_eq_true rfl]
  cases s.reference with
  | none => rfl
  | some r => exact congrArg (true && · && true) r.same_refl

theorem TerraformSpec.same_refl (s : TerraformSpec) : s.same s = true := by
  simp only [TerraformSpec.same, Json.sameMembers_refl, decide_true, Bool.and_true]

/-- **A spec equals itself.** -/
theorem Kind.sameSpec_refl : ∀ {k : Kind} (s : k.Spec), k.sameSpec s s = true
  | .terraform, s => TerraformSpec.same_refl s
  | .gitRepository, s => GitRepositorySpec.same_refl s

namespace Metadata

/-! ## Labels and annotations -/

theorem lacks_eq_false_iff {current wanted : Labels} :
    lacks current wanted = false
      ↔ ∀ key value, wanted.get? key = some value → current.get? key = some value := by
  rw [lacks, List.any_eq_false]
  simp only [decide_eq_true_eq, Decidable.not_not]
  constructor
  · exact fun h key value hv => h (key, value) (SortedMap.mem_entries_iff.mpr hv)
  · exact fun h e he => h e.1 e.2 (SortedMap.mem_entries_iff.mp he)

theorem get?_labels_overwrite (current desired : Metadata) (key : String) :
    (current.overwrite desired).labels.get? key
      = (desired.labels.get? key).or
          (if key ∈ droppedKeys current desired then none else current.labels.get? key) := by
  rw [overwrite, SortedMap.get?_overlay, SortedMap.get?_eraseAll]

theorem get?_annotations_overwrite (current desired : Metadata) (key : String) :
    (current.overwrite desired).annotations.get? key
      = (desired.annotations.get? key).or (current.annotations.get? key) := by
  rw [overwrite, SortedMap.get?_overlay]

/-- Writing never removes a label that is wanted. -/
theorem labels_overwrite_of_some {current desired : Metadata} {key value : String}
    (h : desired.labels.get? key = some value) :
    (current.overwrite desired).labels.get? key = some value := by
  rw [get?_labels_overwrite, h, Option.some_or]

theorem annotations_overwrite_of_some {current desired : Metadata} {key value : String}
    (h : desired.annotations.get? key = some value) :
    (current.overwrite desired).annotations.get? key = some value := by
  rw [get?_annotations_overwrite, h, Option.some_or]

/-! ## The record of labels taken over -/

/-- **Recorded**: metadata has a record of the labels it took over, and still
has every label in the record. -/
structure Recorded (m : Metadata) : Prop where
  record : ∃ keys, m.annotations.get? inheritedRecord = some keys
  kept : ∀ key ∈ m.inheritedKeys, m.labels.contains key = true

/-- The record of a desired object replaces the one that is stored. -/
theorem inheritedKeys_overwrite {current desired : Metadata} (h : desired.Recorded) :
    (current.overwrite desired).inheritedKeys = desired.inheritedKeys := by
  obtain ⟨keys, hkeys⟩ := h.record
  rw [inheritedKeys, inheritedKeys, hkeys, annotations_overwrite_of_some hkeys]

/-- Labels in the record of a desired object are wanted, so none is dropped. -/
theorem droppedKeys_eq_nil {current desired : Metadata} (h : desired.Recorded)
    (hkeys : current.inheritedKeys = desired.inheritedKeys) :
    droppedKeys current desired = [] := by
  rw [droppedKeys, hkeys, List.filter_eq_nil_iff]
  intro key hkey
  rw [h.kept key hkey, Bool.not_true, Bool.and_false]
  exact Bool.false_ne_true

theorem not_differsFrom_overwrite {current desired : Metadata} (h : desired.Recorded) :
    (current.overwrite desired).differsFrom desired = false := by
  rw [differsFrom, lacks_eq_false_iff.mpr fun _ _ => labels_overwrite_of_some,
    lacks_eq_false_iff.mpr fun _ _ => annotations_overwrite_of_some,
    droppedKeys_eq_nil h (inheritedKeys_overwrite h)]
  rfl

theorem not_differsFrom_self {m : Metadata} (h : m.Recorded) : m.differsFrom m = false := by
  rw [differsFrom, lacks_eq_false_iff.mpr fun _ _ => id, lacks_eq_false_iff.mpr fun _ _ => id,
    droppedKeys_eq_nil h rfl]
  rfl

end Metadata

namespace Object

variable {k : Kind}

/-! ## Covering -/

/-- **An object covers a desired one**: it has its spec, and all its labels and
annotations. Specs are compared as the pass compares them, so a zero may have
lost its sign. -/
structure Covers (o desired : Object k) : Prop where
  spec : k.sameSpec o.spec desired.spec = true
  labels : ∀ key value, desired.labels.get? key = some value → o.labels.get? key = some value
  annotations : ∀ key value, desired.metadata.annotations.get? key = some value →
    o.metadata.annotations.get? key = some value

/-- **What is not detected is as it should be.** -/
theorem covers_of_not_differsFrom {o desired : Object k} (h : o.differsFrom desired = false) :
    o.Covers desired := by
  simp only [differsFrom, Metadata.differsFrom, Bool.or_eq_false_iff, Bool.not_eq_false'] at h
  obtain ⟨hspec, ⟨hlabels, hannotations⟩, -⟩ := h
  exact ⟨hspec, Metadata.lacks_eq_false_iff.mp hlabels,
    Metadata.lacks_eq_false_iff.mp hannotations⟩

theorem covers_overwrite (current desired : Object k) :
    (current.overwrite desired).Covers desired :=
  ⟨Kind.sameSpec_refl _, fun _ _ => Metadata.labels_overwrite_of_some,
    fun _ _ => Metadata.annotations_overwrite_of_some⟩

theorem covers_self (o : Object k) : o.Covers o :=
  ⟨Kind.sameSpec_refl _, fun _ _ => id, fun _ _ => id⟩

theorem Covers.stamped {o desired : Object k} (h : o.Covers desired) (version : Option String)
    (created : Option Timestamp) : (o.stamped version created).Covers desired :=
  ⟨h.spec, h.labels, h.annotations⟩

/-! ## Writing leaves nothing to detect -/

/-- What the store assigns is not compared. -/
theorem differsFrom_stamped (o desired : Object k) (version : Option String)
    (created : Option Timestamp) :
    (o.stamped version created).differsFrom desired = o.differsFrom desired := rfl

/-- **An object that was written differs no more.** -/
theorem not_differsFrom_overwrite {current desired : Object k}
    (h : desired.metadata.Recorded) : (current.overwrite desired).differsFrom desired = false := by
  rw [differsFrom, show (current.overwrite desired).spec = desired.spec from rfl,
    Kind.sameSpec_refl]
  exact Metadata.not_differsFrom_overwrite h

/-- **A desired object does not differ from itself.** -/
theorem not_differsFrom_self {o : Object k} (h : o.metadata.Recorded) :
    o.differsFrom o = false := by
  rw [differsFrom, Kind.sameSpec_refl]
  exact Metadata.not_differsFrom_self h

/-! ## Writing keeps identity -/

theorem Tidy.overwrite {current desired : Object k} (h : current.Tidy) (h' : desired.Tidy) :
    (current.overwrite desired).Tidy :=
  ⟨h'.spec, h.status⟩

end Object

end PlanSync
