import Mathlib.Data.List.Basic
import Mathlib.Tactic.TFAE
import PlanSync.Proofs.Derived

/-!
# The record of labels taken over

A derived object carries the labels of what it is derived from and notes their
keys in an annotation, joined by commas. A later pass cuts the note at its commas
and leaves out empty keys, so that an empty note stands for no keys
(`Metadata.inheritedKeys`). What a pass reads back are therefore the non-empty
pieces of the keys that were written (`DesiredState.inheritedKeys_metadata`).

These are the keys themselves exactly if the keys are *plain*: none is empty and
none holds a comma (`DesiredState.record_exact_iff_plain`). Nothing keeps other
keys out of the labels of a template or a source. With one of them the note names
keys that were never taken over, and misses one that was: somebody else's label
is removed, and a label that the template has dropped stays
(`DesiredState.comma_breaks_record`).
-/

namespace PlanSync

/-! ## What is taken over -/

/-- The keys of the labels that every derived object carries. -/
def ownerKeys : List String := [ownerLabel, pullRequestLabel, templateLabel]

theorem contains_ownerLabels (template : String) (number : Nat) (key : String) :
    (ownerLabels template number).contains key = decide (key ∈ ownerKeys) := by
  rw [SortedMap.contains, get?_ownerLabels]
  by_cases howner : key = ownerLabel
  · simp [howner, ownerKeys]
  · by_cases hnumber : key = pullRequestLabel
    · simp [hnumber, ownerKeys, ownerLabel, pullRequestLabel]
    · by_cases htemplate : key = templateLabel
      · simp [htemplate, ownerKeys, ownerLabel, pullRequestLabel, templateLabel]
      · simp [howner, hnumber, htemplate, ownerKeys]

/-- Every owner label has a value. -/
theorem exists_ownerLabel (template : String) (number : Nat) {key : String}
    (h : key ∈ ownerKeys) : ∃ value, (ownerLabels template number).get? key = some value :=
  SortedMap.contains_iff.mp ((contains_ownerLabels template number key).trans (decide_eq_true h))

namespace Labels

/-- **The keys that are taken over** from labels: those that are no owner labels. -/
def takenOver (inherited : Labels) : List String := inherited.keys.filter (· ∉ ownerKeys)

/-- **Plain labels**: no key that is taken over is empty or holds a comma. -/
def Plain (inherited : Labels) : Prop :=
  ∀ key ∈ inherited.takenOver, key ≠ "" ∧ ',' ∉ key.toList

instance (inherited : Labels) : Decidable inherited.Plain :=
  inferInstanceAs (Decidable (∀ key ∈ inherited.takenOver, key ≠ "" ∧ ',' ∉ key.toList))

theorem nodup_takenOver (inherited : Labels) : inherited.takenOver.Nodup :=
  inherited.nodup_keys.filter _

end Labels

namespace Metadata

/-- No key that is read is empty or holds a comma. -/
theorem plain_of_mem_inheritedKeys {m : Metadata} {key : String} (h : key ∈ m.inheritedKeys) :
    key ≠ "" ∧ ',' ∉ key.toList := by
  rw [Metadata.inheritedKeys] at h
  cases hrecord : m.annotations.get? inheritedRecord with
  | none =>
    rw [hrecord] at h
    cases h
  | some keys =>
    rw [hrecord] at h
    obtain ⟨hpiece, hne⟩ := List.mem_filter.mp h
    exact ⟨of_decide_eq_true hne, Text.not_mem_of_mem_pieces hpiece⟩

/-- **A later pass drops exactly these**: whatever metadata is stored with the
record, and whatever is wanted by then, the labels that go are those that are
there under one of the keys and are wanted no more. -/
def DropsExactly (recorded : Metadata) (keys : List String) : Prop :=
  ∀ current desired : Metadata,
    current.annotations.get? inheritedRecord = recorded.annotations.get? inheritedRecord →
      ∀ key, key ∈ droppedKeys current desired
        ↔ key ∈ keys ∧ current.labels.contains key = true
          ∧ desired.labels.contains key = false

theorem dropsExactly_of_inheritedKeys {recorded : Metadata} {keys : List String}
    (h : ∀ key, key ∈ recorded.inheritedKeys ↔ key ∈ keys) : recorded.DropsExactly keys := by
  intro current desired hrecord key
  have hkeys : current.inheritedKeys = recorded.inheritedKeys := by
    rw [inheritedKeys, inheritedKeys, hrecord]
  rw [droppedKeys, List.mem_filter, hkeys, h, Bool.and_eq_true, Bool.not_eq_true']

/-- A key is in the record if its label would be dropped. -/
theorem DropsExactly.mem_inheritedKeys {recorded : Metadata} {keys : List String}
    (h : recorded.DropsExactly keys) {key : String} (hkey : key ∈ keys) :
    key ∈ recorded.inheritedKeys := by
  -- stored with one label under the key, and nothing is wanted
  have hdropped := (h { recorded with labels := SortedMap.empty.insert key "" }
    { recorded with labels := .empty } rfl key).mpr
      ⟨hkey, SortedMap.contains_iff.mpr ⟨"", by rw [SortedMap.get?_insert, if_pos rfl]⟩, rfl⟩
  exact (List.mem_filter.mp hdropped).1

end Metadata

namespace DesiredState

variable (template : Terraform) (name : String) (inherited : Labels) (number : Nat)

theorem get?_record_takenOver :
    (metadata template name inherited number).annotations.get? inheritedRecord
      = some (Text.join "," inherited.takenOver) := by
  rw [get?_record]
  simp only [contains_ownerLabels, Labels.takenOver, decide_not]

/-- **What a later pass reads** in the record: the non-empty pieces of the keys
that were taken over. -/
theorem inheritedKeys_metadata :
    (metadata template name inherited number).inheritedKeys
      = inherited.takenOver.flatMap fun key => (Text.pieces ',' key).filter (· ≠ "") := by
  rw [Metadata.inheritedKeys, get?_record_takenOver]
  show (Text.pieces ',' (Text.join (String.singleton ',') inherited.takenOver)).filter _ = _
  by_cases hnil : inherited.takenOver = []
  · rw [hnil]
    decide
  · rw [Text.pieces_join_eq_flatMap ',' hnil, List.filter_flatMap]

variable {inherited}

/-- **The record of plain labels reads back.** -/
theorem inheritedKeys_metadata_of_plain (h : inherited.Plain) :
    (metadata template name inherited number).inheritedKeys = inherited.takenOver := by
  have hpieces : ∀ key ∈ inherited.takenOver,
      (Text.pieces ',' key).filter (· ≠ "") = [key] := fun key hkey => by
    rw [Text.pieces_eq_singleton (h key hkey).2]
    exact List.filter_eq_self.mpr fun _ hmem =>
      List.mem_singleton.mp hmem ▸ decide_eq_true (h key hkey).1
  rw [inheritedKeys_metadata, List.flatMap_congr hpieces, List.flatMap_singleton']

variable (inherited)

/-- **The record is exact for plain labels only.** That it names just the keys
that were taken over, each once, and that a later pass drops just the labels that
were taken over, both hold if the labels are plain, and both fail if not. -/
theorem record_exact_iff_plain :
    List.TFAE [inherited.Plain,
      (∀ key, key ∈ (metadata template name inherited number).inheritedKeys
          ↔ key ∈ inherited.takenOver)
        ∧ (metadata template name inherited number).inheritedKeys.Nodup,
      (metadata template name inherited number).DropsExactly inherited.takenOver] := by
  tfae_have 1 → 2 := fun hplain => by
    rw [inheritedKeys_metadata_of_plain template name number hplain]
    exact ⟨fun _ => Iff.rfl, inherited.nodup_takenOver⟩
  tfae_have 2 → 3 := fun hexact => Metadata.dropsExactly_of_inheritedKeys hexact.1
  tfae_have 3 → 1 := fun hdrops key hkey =>
    Metadata.plain_of_mem_inheritedKeys (hdrops.mem_inheritedKeys hkey)
  tfae_finish

/-- A template with one label, whose key holds a comma. -/
def commaTemplate : Terraform where
  metadata :=
    { name := "plan", namespaceName := "team"
      labels := .ofList [("team,tier", "platform")] }
  spec := { sourceRef := { kind := "GitRepository", name := "repo" } }

/-- What is derived from it. -/
def commaMetadata : Metadata :=
  metadata commaTemplate "plan-topic-7" commaTemplate.labels 7

/-- **A comma breaks the record**: it names two keys that were not taken over. If
somebody puts a label under one of them, and the template loses its label, the
next pass removes the one of somebody and leaves the one of the template. -/
theorem comma_breaks_record :
    commaTemplate.labels.takenOver = ["team,tier"]
      ∧ commaMetadata.inheritedKeys = ["team", "tier"]
      ∧ (let stored := { commaMetadata with labels := commaMetadata.labels.insert "team" "blue" }
        let written := stored.overwrite (metadata commaTemplate "plan-topic-7" .empty 7)
        written.labels.get? "team" = none
          ∧ written.labels.get? "team,tier" = some "platform") := by
  decide +kernel

end DesiredState

end PlanSync
