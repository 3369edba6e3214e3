import PlanSync.Metadata
import PlanSync.Proofs.Json.Record

/-!
# Metadata reads back

What a store assigns and what labels an object carries survive being written
and read, whatever the labels are (`Metadata.decoder_stored`). The only
condition is on the time of creation: its written form has to be one that reads
as the same instant.

The first section is about members that may be left out. A record written with
them has its keys among the names of its fields, so they are distinct, and each
is found or missing as it was written.
-/

namespace PlanSync

/-- The written form of an instant reads as the instant. -/
def Timestamp.ReadsBack (t : Timestamp) : Prop := Timestamp.ofText? t.text = some t

instance (t : Timestamp) : Decidable t.ReadsBack := inferInstanceAs (Decidable (_ = _))

/-! ## Optional members -/

namespace Metadata

@[simp] theorem lookup_optionalMember (k key : String) (v : Option Json) :
    List.lookup k (optionalMember key v) = if k = key then v else none := by
  cases v with
  | none => simp [optionalMember]
  | some j => simp [optionalMember, Entries.lookup_cons]

/-- A member that may be left out has its own key, or none. -/
theorem keys_optionalMember (key : String) (v : Option Json) :
    ((optionalMember key v).map Prod.fst).Sublist [key] := by
  cases v with
  | none => exact List.nil_sublist _
  | some j => exact List.Sublist.refl _

end Metadata

namespace Decoder

variable {α : Type} {known : List FieldCheck} {name : String}

theorem suits_nil : Suits known [] := fun _ h => by cases h

/-- Members suit a record one by one, so groups of them can be put together. -/
theorem suits_append {xs ys : List (String × Json)} (hx : Suits known xs) (hy : Suits known ys) :
    Suits known (xs ++ ys) :=
  fun e he => (List.mem_append.mp he).elim (hx e) (hy e)

/-- A member whose value can be decoded suits. -/
theorem suits_member {f : Decoder α} {j : Json} {a : α}
    (hk : List.lookup name known = some (FieldCheck.of name f).2)
    (h : f (.ofJson j.sortKeys) = .ok a) : Suits known [(name, j)] := by
  intro e he check hc
  cases List.mem_singleton.mp he
  cases hk.symm.trans hc
  exact FieldCheck.of_eq_ok.mpr ⟨a, h⟩

/-- A record is written with a member in front of the rest. -/
theorem suits_cons {f : Decoder α} {j : Json} {a : α} {xs : List (String × Json)}
    (hk : List.lookup name known = some (FieldCheck.of name f).2)
    (h : f (.ofJson j.sortKeys) = .ok a) (hx : Suits known xs) :
    Suits known ((name, j) :: xs) :=
  suits_append (suits_member hk h) hx

/-- A member that may be left out suits if its value can be decoded. -/
theorem suits_optional {f : Decoder α} {v : Option Json}
    (hk : List.lookup name known = some (FieldCheck.of name f).2)
    (h : ∀ j, v = some j → ∃ a, f (.ofJson j.sortKeys) = .ok a) :
    Suits known (Metadata.optionalMember name v) := by
  cases v with
  | none => exact suits_nil
  | some j =>
    obtain ⟨a, ha⟩ := h j rfl
    exact suits_member hk ha

/-! ## Scalars and maps read back -/

theorem string_stored (s : String) : string (.ofJson (Json.string s).sortKeys) = .ok s := rfl

theorem bool_stored (b : Bool) : bool (.ofJson (Json.bool b).sortKeys) = .ok b := rfl

theorem option_string_stored (s : String) :
    option string (.ofJson (Json.string s).sortKeys) = .ok (some s) := rfl

/-- A map reads back entry by entry, where each value reads back from what it was written
as. -/
theorem members_ofMembers {β : Type} {f : Decoder α} {g : β → Json} {h : β → α}
    {xs : List (String × β)} (hf : ∀ b, f (.ofJson (g b)) = .ok (h b)) :
    members f (Document.ofMembers (xs.map fun e => (e.1, g e.2)))
      = .ok (xs.map fun e => (e.1, h e.2)) := by
  induction xs with
  | nil => rfl
  | cons e xs ih =>
    rw [List.map_cons, Document.ofMembers, members, hf, ih]
    rfl

/-- A list of texts reads back item by item. -/
theorem items_stored (xs : List String) :
    items string (Document.ofItems (xs.map Json.string)) = .ok xs := by
  induction xs with
  | nil => rfl
  | cons x xs ih =>
    rw [List.map_cons, Document.ofItems, items, ih]
    rfl

end Decoder

namespace Metadata

open Decoder

/-- Labels are written as they are kept, in the order of their keys, so sorting leaves them
as they are. -/
theorem tidy_labelsJson (ls : Labels) : (labelsJson ls).Tidy := by
  refine Json.tidy_object (List.pairwise_map.mpr ls.sorted) fun e he => ?_
  obtain ⟨e', -, rfl⟩ := List.mem_map.mp he
  rfl

/-- **Labels read back.** -/
theorem labelsDecoder_stored (ls : Labels) :
    labelsDecoder (.ofJson (labelsJson ls).sortKeys) = .ok ls := by
  rw [tidy_labelsJson ls, labelsJson, Document.ofJson, labelsDecoder, Decoder.map,
    members_ofMembers (h := id) fun s => rfl]
  refine congrArg Except.ok (SortedMap.ext_get? fun k => ?_)
  have hid : ls.entries.map (fun e => (e.1, id e.2)) = ls.entries := List.map_id _
  rw [hid, SortedMap.get?_ofList ls.sorted.nodup]
  rfl

/-- A time reads back if its text does. -/
theorem timestampDecoder_stored {t : Timestamp} (h : t.ReadsBack) :
    timestampDecoder (.ofJson (Json.string t.text).sortKeys) = .ok t := by
  rw [Timestamp.ReadsBack] at h
  simp only [timestampDecoder, string_stored, bind, Except.bind, h]
  rfl

theorem option_timestamp_stored {t : Timestamp} (h : t.ReadsBack) :
    option timestampDecoder (.ofJson (Json.string t.text).sortKeys) = .ok (some t) :=
  option_eq_ok (fun hd => by cases hd) (timestampDecoder_stored h)

/-! ## The record -/

/-- The members metadata is written with. -/
def members (m : Metadata) : List (String × Json) :=
  [("name", .string m.name), ("namespace", .string m.namespaceName)]
    ++ labelsMember "labels" m.labels
    ++ labelsMember "annotations" m.annotations
    ++ optionalMember "resourceVersion" (m.resourceVersion.map .string)
    ++ optionalMember "creationTimestamp" (m.creationTimestamp.map fun t => .string t.text)

/-- **Metadata is written in the order of its fields**, some of which may be left out. -/
theorem inOrder_members (m : Metadata) : InOrder fields m.members := by
  simp only [InOrder, members, labelsMember, List.map_append]
  exact ((((List.Sublist.refl ["name", "namespace"]).append (keys_optionalMember _ _)).append
    (keys_optionalMember _ _)).append (keys_optionalMember _ _)).append (keys_optionalMember _ _)

/-- No field is written twice. -/
theorem nodup_members (m : Metadata) : (m.members.map Prod.fst).Nodup :=
  m.inOrder_members.nodup (by decide)

/-- Labels suit the field that they are written for, also if there are none. -/
theorem suits_labelsMember {name : String} (ls : Labels)
    (hk : List.lookup name fields = some (FieldCheck.of name labelsDecoder).2) :
    Suits fields (labelsMember name ls) := by
  refine suits_optional hk fun j hj => ⟨ls, ?_⟩
  split at hj
  · cases hj
  · cases hj
    exact labelsDecoder_stored ls

/-- Labels that may be left out read back. -/
theorem withDefault_labels {m : Metadata} {name : String} {ls : Labels} (hk : Knows fields name)
    (h : List.lookup name m.members = if ls.isEmpty then none else some (labelsJson ls)) :
    (takenAfter fields .none (stored m.members)).withDefault name .empty labelsDecoder
      = .ok ls := by
  refine withDefault_stored (nodup_members m) hk h (fun j hj => ?_) (fun hnone => ?_)
  · split at hj
    · cases hj
    · cases hj
      exact labelsDecoder_stored ls
  · split at hnone
    · next he => exact (SortedMap.isEmpty_iff.mp he).symm
    · cases hnone

/-- Each member has a value that its field can be read of. Of all conditions only the one on
the time of creation is not met by itself. -/
theorem suits_members {m : Metadata} (h : ∀ t, m.creationTimestamp = some t → t.ReadsBack) :
    Suits fields m.members := by
  refine suits_append (suits_append (suits_append (suits_append ?_ ?_) ?_) ?_) ?_
  · exact suits_cons rfl (string_stored _) (suits_member rfl (string_stored _))
  · exact suits_labelsMember m.labels rfl
  · exact suits_labelsMember m.annotations rfl
  · refine suits_optional rfl fun j hj => ?_
    obtain ⟨v, -, rfl⟩ := Option.map_eq_some_iff.mp hj
    exact ⟨_, option_string_stored v⟩
  · refine suits_optional rfl fun j hj => ?_
    obtain ⟨t, ht, rfl⟩ := Option.map_eq_some_iff.mp hj
    exact ⟨some t, option_timestamp_stored (h t ht)⟩

/-- **What is found under each key**: the fields that may be left out are found only if there
is something to be written. -/
theorem lookup_members (m : Metadata) (k : String) :
    List.lookup k m.members
      = (((((if k = "name" then some (.string m.name)
          else if k = "namespace" then some (.string m.namespaceName) else none).or
        (if k = "labels" then if m.labels.isEmpty then none else some (labelsJson m.labels)
          else none)).or
        (if k = "annotations" then
          if m.annotations.isEmpty then none else some (labelsJson m.annotations) else none)).or
        (if k = "resourceVersion" then m.resourceVersion.map .string else none)).or
        (if k = "creationTimestamp" then m.creationTimestamp.map fun t => .string t.text
          else none)) := by
  simp only [members, labelsMember, List.lookup_append, lookup_optionalMember,
    Entries.lookup_cons, List.lookup_nil]

/-- **Metadata reads back.** -/
theorem decoder_stored {m : Metadata} (h : ∀ t, m.creationTimestamp = some t → t.ReadsBack) :
    decoder (.ofJson m.toJson.sortKeys) = .ok m := by
  have hjson : m.toJson = .object m.members := rfl
  have hn := nodup_members m
  have hname : (takenAfter fields .none (stored m.members)).required "name" Decoder.string
      = .ok m.name :=
    required_stored hn (by decide) (by simp [lookup_members]) (string_stored _)
  have hspace : (takenAfter fields .none (stored m.members)).required "namespace" Decoder.string
      = .ok m.namespaceName :=
    required_stored hn (by decide) (by simp [lookup_members]) (string_stored _)
  have hlabels : (takenAfter fields .none (stored m.members)).withDefault "labels" .empty
      labelsDecoder = .ok m.labels :=
    withDefault_labels (by decide) (by simp [lookup_members])
  have hannotations : (takenAfter fields .none (stored m.members)).withDefault "annotations" .empty
      labelsDecoder = .ok m.annotations :=
    withDefault_labels (by decide) (by simp [lookup_members])
  have hversion : (takenAfter fields .none (stored m.members)).optional "resourceVersion"
      Decoder.string = .ok m.resourceVersion :=
    optional_stored .string hn (by decide) (by simp [lookup_members])
      fun v _ => option_string_stored v
  have hcreated : (takenAfter fields .none (stored m.members)).optional "creationTimestamp"
      timestampDecoder = .ok m.creationTimestamp :=
    optional_stored (fun t => .string t.text) hn (by decide) (by simp [lookup_members])
      fun t ht => option_timestamp_stored (h t ht)
  -- all members are known, so the record is open for its fields to be read one by one
  rw [hjson, decoder, closedRecord_ok (suits_members h)]
  simp only [bind, Except.bind, hname, hspace, hlabels, hannotations, hversion, hcreated]
  rfl

end Metadata

end PlanSync
