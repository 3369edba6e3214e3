import PlanSync.Proofs.Json.Numbers
import PlanSync.Proofs.Object.Written

/-!
# Objects that a text keeps exactly

The numbers in an object are those in its status and in what its spec keeps; its metadata
has none, whatever a store writes there (`Object.numbers_toJson`). They all come from where
the object was read (`Object.numbers_of_decoder`). So an object that JSON gives has integers
of 64 bits only, and without doubles it is exact (`Object.Textual.exact`).

How deep an object is nested is decided by its spec and its status, too
(`Object.nesting_toJson_le_iff`), for metadata is nested no deeper than labels are.
-/

namespace PlanSync

open Decoder

/-! ## Metadata -/

namespace Json

/-- Members are written in groups, and so are their numbers. -/
theorem memberNumbers_append (xs ys : List (String × Json)) :
    memberNumbers (xs ++ ys) = memberNumbers xs ++ memberNumbers ys := by
  induction xs with
  | nil => rfl
  | cons e xs ih => rw [List.cons_append, memberNumbers, memberNumbers, ih, List.append_assoc]

theorem memberNumbers_optionalMember (name : String) (v : Option Json) :
    memberNumbers (Metadata.optionalMember name v) = v.elim [] numbers := by
  cases v with
  | none => rfl
  | some j => exact List.append_nil _

/-- A member that may be left out is nested as deeply as its value, if it has one. -/
theorem nesting_optionalMember_le_iff {name : String} {v : Option Json} {n : Nat} :
    (∀ e ∈ Metadata.optionalMember name v, e.2.nesting ≤ n) ↔ ∀ j ∈ v, j.nesting ≤ n := by
  cases v with
  | none => simp [Metadata.optionalMember]
  | some j => simp [Metadata.optionalMember]

theorem nesting_map_string_le {v : Option String} {n : Nat} :
    ∀ j ∈ v.map string, j.nesting ≤ n := by
  intro j hj
  obtain ⟨_, -, rfl⟩ := Option.map_eq_some_iff.mp hj
  exact Nat.zero_le n

/-- If no member has numbers, there are none. -/
theorem memberNumbers_eq_nil {xs : List (String × Json)} (h : ∀ e ∈ xs, e.2.numbers = []) :
    memberNumbers xs = [] := by
  refine List.eq_nil_iff_forall_not_mem.mpr fun n hn => ?_
  obtain ⟨e, he, hn⟩ := mem_memberNumbers.mp hn
  rw [h e he] at hn
  cases hn

end Json

open Json (numbers memberNumbers memberNumbers_append memberNumbers_optionalMember
  nesting_array_le_iff nesting_object_le_iff nesting_optionalMember_le_iff nesting_map_string_le)

namespace Metadata

/-- Metadata is made of strings and labels. -/
theorem string_or_labels_of_mem {m : Metadata} {e : String × Json} (he : e ∈ m.members) :
    (∃ s, e.2 = .string s) ∨ ∃ ls, e.2 = labelsJson ls := by
  have hlabels {name : String} {ls : Labels} (he : e ∈ labelsMember name ls) :
      ∃ ls, e.2 = labelsJson ls := by
    rw [labelsMember] at he
    split at he
    · cases he
    · exact ⟨ls, congrArg Prod.snd (List.mem_singleton.mp he)⟩
  have hoptional {α : Type} {name : String} {v : Option α} {write : α → String}
      (he : e ∈ optionalMember name (v.map fun a => .string (write a))) :
      ∃ s, e.2 = .string s := by
    cases v with
    | none => cases he
    | some a => exact ⟨write a, congrArg Prod.snd (List.mem_singleton.mp he)⟩
  simp only [members, List.mem_append, List.mem_cons, List.not_mem_nil, or_false] at he
  rcases he with ((((rfl | rfl) | he) | he) | he) | he
  · exact .inl ⟨_, rfl⟩
  · exact .inl ⟨_, rfl⟩
  · exact .inr (hlabels he)
  · exact .inr (hlabels he)
  · exact .inl (hoptional he)
  · exact .inl (hoptional he)

theorem numbers_labelsJson (ls : Labels) : (labelsJson ls).numbers = [] :=
  Json.memberNumbers_eq_nil fun e he => by
    obtain ⟨_, -, rfl⟩ := List.mem_map.mp he
    rfl

theorem nesting_labelsJson_le (ls : Labels) : (labelsJson ls).nesting ≤ 1 :=
  Json.nesting_object_le_iff.mpr fun e he => by
    obtain ⟨_, -, rfl⟩ := List.mem_map.mp he
    exact Nat.le_refl 0

/-- **There are no numbers in metadata.** -/
theorem numbers_toJson (m : Metadata) : m.toJson.numbers = [] :=
  Json.memberNumbers_eq_nil fun e he => by
    rcases string_or_labels_of_mem he with ⟨s, hs⟩ | ⟨ls, hls⟩
    · rw [hs]
      rfl
    · rw [hls]
      exact numbers_labelsJson ls

/-- Without numbers, all of them are exact. -/
theorem exact_toJson (m : Metadata) : m.toJson.Exact := by
  intro n hn
  rw [numbers_toJson] at hn
  cases hn

/-- Metadata is nested as deeply as labels and one level more. -/
theorem nesting_toJson_le (m : Metadata) : m.toJson.nesting ≤ 2 :=
  Json.nesting_object_le_iff.mpr fun e he => by
    rcases string_or_labels_of_mem he with ⟨s, hs⟩ | ⟨ls, hls⟩
    · rw [hs]
      exact Nat.zero_le 1
    · rw [hls]
      exact nesting_labelsJson_le ls

/-- **The text of metadata is read back.** -/
theorem isReadBack_toJson (m : Metadata) {level depth : Nat}
    (hdepth : depth + 2 < JsonText.depthLimit) : JsonText.IsReadBack level depth m.toJson := by
  have hnesting := m.nesting_toJson_le
  exact JsonText.isReadBack m.exact_toJson (by omega)

end Metadata

/-! ## Specs -/

/-- Neither a reference to a source nor a secret has any number: their fields are strings. -/
theorem SourceReference.numbers_toJson (r : SourceReference) : r.toJson.numbers = [] := by
  rw [toJson, numbers, memberNumbers_append, memberNumbers_optionalMember]
  cases r.namespaceName <;> rfl

theorem OutputsSecret.numbers_toJson (s : OutputsSecret) : s.toJson.numbers = [] := by
  have houtputs : (Json.ofStrings s.outputs).numbers = [] := by
    refine List.eq_nil_iff_forall_not_mem.mpr fun n hn => ?_
    obtain ⟨x, hx, hn⟩ := Json.mem_itemNumbers.mp hn
    obtain ⟨_, -, rfl⟩ := List.mem_map.mp hx
    cases hn
  rw [toJson, numbers, memberNumbers, memberNumbers_optionalMember]
  split
  · rfl
  · exact houtputs

/-- **The numbers of an open record** are those of what it keeps, as no field is a number.
That goes for sources and configurations, too. -/
theorem RepositoryRef.numbers_toJson (r : RepositoryRef) :
    r.toJson.numbers = memberNumbers r.passthrough.entries := by
  rw [toJson, numbers, memberNumbers_append, memberNumbers_optionalMember]
  cases r.branch <;> rfl

theorem GitRepositorySpec.numbers_toJson (s : GitRepositorySpec) :
    s.toJson.numbers = s.reference.elim [] (fun r => memberNumbers r.passthrough.entries)
      ++ memberNumbers s.passthrough.entries := by
  rw [toJson, numbers, memberNumbers_append, memberNumbers, memberNumbers_optionalMember]
  cases s.reference with
  | none => rfl
  | some r => exact congrArg (· ++ _) r.numbers_toJson

theorem TerraformSpec.numbers_toJson (s : TerraformSpec) :
    s.toJson.numbers = memberNumbers s.passthrough.entries := by
  have hsecret : (s.outputsSecret.map OutputsSecret.toJson).elim [] numbers = [] := by
    cases s.outputsSecret with
    | none => rfl
    | some secret => exact secret.numbers_toJson
  have hplan : (s.readablePlan.map Json.string).elim [] numbers = [] := by
    cases s.readablePlan <;> rfl
  simp only [toJson, numbers, memberNumbers_append, memberNumbers, memberNumbers_optionalMember,
    SourceReference.numbers_toJson, hsecret, hplan, List.nil_append]

/-! ### Nesting -/

theorem SourceReference.nesting_toJson_le (r : SourceReference) : r.toJson.nesting ≤ 1 := by
  rw [toJson, nesting_object_le_iff, List.forall_mem_append, List.forall_mem_cons,
    List.forall_mem_singleton, nesting_optionalMember_le_iff]
  exact ⟨⟨Nat.le_refl 0, Nat.le_refl 0⟩, nesting_map_string_le⟩

theorem OutputsSecret.nesting_toJson_le (s : OutputsSecret) : s.toJson.nesting ≤ 2 := by
  have houtputs : (Json.ofStrings s.outputs).nesting ≤ 1 :=
    nesting_array_le_iff.mpr fun x hx => by
      obtain ⟨_, -, rfl⟩ := List.mem_map.mp hx
      exact Nat.le_refl 0
  rw [toJson, nesting_object_le_iff, List.forall_mem_cons, nesting_optionalMember_le_iff]
  refine ⟨Nat.zero_le 1, fun j hj => ?_⟩
  split at hj
  · cases hj
  · cases hj
    exact houtputs

/-- **How deep a configuration is nested** is decided by what it keeps. -/
theorem TerraformSpec.nesting_toJson_le_iff (s : TerraformSpec) {n : Nat} :
    s.toJson.nesting ≤ n + 3 ↔ ∀ e ∈ s.passthrough.entries, e.2.nesting ≤ n + 2 := by
  have href : s.sourceRef.toJson.nesting ≤ n + 2 :=
    Nat.le_trans s.sourceRef.nesting_toJson_le (by omega)
  have hsecret : ∀ j ∈ s.outputsSecret.map OutputsSecret.toJson, j.nesting ≤ n + 2 := by
    intro j hj
    obtain ⟨secret, -, rfl⟩ := Option.map_eq_some_iff.mp hj
    exact Nat.le_trans secret.nesting_toJson_le (Nat.le_add_left 2 n)
  have honly : (Json.bool s.planOnly).nesting ≤ n + 2 := Nat.zero_le _
  simp only [toJson, nesting_object_le_iff, List.forall_mem_append, List.forall_mem_cons,
    nesting_optionalMember_le_iff]
  exact ⟨fun h => h.2, fun h => ⟨⟨⟨href, hsecret⟩, honly, nesting_map_string_le⟩, h⟩⟩

/-- **How deep a source is nested** is decided by what it and its reference keep. -/
theorem GitRepositorySpec.nesting_toJson_le_iff (s : GitRepositorySpec) {n : Nat} :
    s.toJson.nesting ≤ n + 2 ↔
      (∀ r ∈ s.reference, ∀ e ∈ r.passthrough.entries, e.2.nesting ≤ n)
        ∧ ∀ e ∈ s.passthrough.entries, e.2.nesting ≤ n + 1 := by
  have hurl : (Json.string s.url).nesting ≤ n + 1 := Nat.zero_le _
  have href (r : RepositoryRef) :
      r.toJson.nesting ≤ n + 1 ↔ ∀ e ∈ r.passthrough.entries, e.2.nesting ≤ n := by
    rw [RepositoryRef.toJson, nesting_object_le_iff, List.forall_mem_append,
      nesting_optionalMember_le_iff]
    exact ⟨fun h => h.2, fun h => ⟨nesting_map_string_le, h⟩⟩
  simp only [toJson, nesting_object_le_iff, List.forall_mem_append, List.forall_mem_cons,
    nesting_optionalMember_le_iff]
  cases s.reference with
  | none => simp [hurl]
  | some r => simp [hurl, href]

/-! ### Reading -/

/-- **A map has no numbers but those of the entries that it was made from.** -/
theorem Json.memberNumbers_ofList (xs : List (String × Json)) :
    memberNumbers (SortedMap.ofList xs).entries ⊆ memberNumbers xs := by
  intro n hn
  obtain ⟨e, he, hn⟩ := mem_memberNumbers.mp hn
  refine mem_memberNumbers.mpr ⟨e, ?_, hn⟩
  have hget := SortedMap.mem_entries_iff.mp he
  rw [SortedMap.ofList, SortedMap.get?_insertAll, SortedMap.get?_empty, Option.or_none] at hget
  exact List.mem_reverse.mp (Entries.mem_of_lookup hget)

section Kept

variable {d : Document}

/-- What is kept is read from the members that are not known, so its numbers stand in the
document. -/
theorem RepositoryRef.numbers_of_decoder {r : RepositoryRef} (h : decoder d = .ok r) :
    memberNumbers r.passthrough.entries ⊆ d.numbers := by
  obtain ⟨t, ht, h⟩ := Answer.bind_eq_ok.mp h
  obtain ⟨_, -, h⟩ := Answer.bind_eq_ok.mp h
  obtain ⟨kept, hkept, h⟩ := Answer.bind_eq_ok.mp h
  cases h
  exact List.Subset.trans (Json.memberNumbers_ofList kept) ((within_of_openRecord ht).kept hkept)

theorem GitRepositorySpec.numbers_of_decoder {s : GitRepositorySpec} (h : decoder d = .ok s) :
    s.toJson.numbers ⊆ d.numbers := by
  obtain ⟨t, ht, h⟩ := Answer.bind_eq_ok.mp h
  obtain ⟨_, -, h⟩ := Answer.bind_eq_ok.mp h
  obtain ⟨reference, href, h⟩ := Answer.bind_eq_ok.mp h
  obtain ⟨kept, hkept, h⟩ := Answer.bind_eq_ok.mp h
  cases h
  have hwithin := within_of_openRecord ht
  rw [numbers_toJson]
  refine List.append_subset.mpr
    ⟨?_, List.Subset.trans (Json.memberNumbers_ofList kept) (hwithin.kept hkept)⟩
  cases reference with
  | none => exact List.nil_subset _
  | some r =>
    obtain ⟨d', hd', hr⟩ := hwithin.optional href
    exact List.Subset.trans (RepositoryRef.numbers_of_decoder hr) hd'

theorem TerraformSpec.numbers_of_decoder {s : TerraformSpec} (h : decoder d = .ok s) :
    s.toJson.numbers ⊆ d.numbers := by
  obtain ⟨t, ht, h⟩ := Answer.bind_eq_ok.mp h
  obtain ⟨_, -, h⟩ := Answer.bind_eq_ok.mp h
  obtain ⟨_, -, h⟩ := Answer.bind_eq_ok.mp h
  obtain ⟨_, -, h⟩ := Answer.bind_eq_ok.mp h
  obtain ⟨_, -, h⟩ := Answer.bind_eq_ok.mp h
  obtain ⟨kept, hkept, h⟩ := Answer.bind_eq_ok.mp h
  cases h
  rw [numbers_toJson]
  exact List.Subset.trans (Json.memberNumbers_ofList kept) ((within_of_openRecord ht).kept hkept)

/-- **Reading a spec makes no numbers**, whatever the kind. -/
theorem Kind.numbers_of_specDecoder : ∀ {k : Kind} {s : k.Spec}, k.specDecoder d = .ok s →
    (k.specJson s).numbers ⊆ d.numbers
  | .terraform, _, h => TerraformSpec.numbers_of_decoder h
  | .gitRepository, _, h => GitRepositorySpec.numbers_of_decoder h

end Kept

/-! ## Objects -/

namespace Object

variable {k : Kind} {o : Object k} {version : Option String} {created : Option Timestamp}

/-- **The numbers in an object** are those of its spec and of its status. -/
theorem numbers_toJson (o : Object k) :
    o.toJson.numbers = (k.specJson o.spec).numbers ++ o.status.elim [] numbers := by
  simp only [toJson, numbers, memberNumbers_append, memberNumbers, memberNumbers_optionalMember,
    Metadata.numbers_toJson, List.nil_append, List.append_nil]

/-- **How deep an object is nested** is decided by its spec and its status. -/
theorem nesting_toJson_le_iff (o : Object k) {n : Nat} :
    o.toJson.nesting ≤ n + 3 ↔
      (k.specJson o.spec).nesting ≤ n + 2 ∧ ∀ j ∈ o.status, j.nesting ≤ n + 2 := by
  have hmetadata : o.metadata.toJson.nesting ≤ n + 2 :=
    Nat.le_trans o.metadata.nesting_toJson_le (Nat.le_add_left 2 n)
  rw [toJson, nesting_object_le_iff, List.forall_mem_append, List.forall_mem_cons,
    List.forall_mem_singleton, nesting_optionalMember_le_iff]
  exact ⟨fun ⟨⟨_, hspec⟩, hstatus⟩ => ⟨hspec, hstatus⟩,
    fun ⟨hspec, hstatus⟩ => ⟨⟨hmetadata, hspec⟩, hstatus⟩⟩

/-- **Reading an object makes no numbers.** -/
theorem numbers_of_decoder {d : Document} (h : decoder k d = .ok o) :
    o.toJson.numbers ⊆ d.numbers := by
  obtain ⟨t, ht, h⟩ := Answer.bind_eq_ok.mp h
  obtain ⟨_, -, h⟩ := Answer.bind_eq_ok.mp h
  obtain ⟨spec, hspec, h⟩ := Answer.bind_eq_ok.mp h
  obtain ⟨status, hstatus, h⟩ := Answer.bind_eq_ok.mp h
  cases h
  have hwithin := within_of_closedRecord ht
  obtain ⟨d', hd', hspec⟩ := hwithin.required hspec
  rw [numbers_toJson]
  refine List.append_subset.mpr ⟨List.Subset.trans (Kind.numbers_of_specDecoder hspec) hd', ?_⟩
  cases status with
  | none => exact List.nil_subset _
  | some j =>
    obtain ⟨d', hd', hj⟩ := hwithin.optional hstatus
    exact List.Subset.trans (Document.numbers_toJson hj) hd'

/-- **An object that JSON gives**: from a text, or from a value with numbers that reading can
give. -/
inductive FromJson (o : Object k) : Prop
  | text {s : String} (h : Decoder.ofText (decoder k) s = .ok o)
  | value {v : Json} (hv : ∀ n ∈ v.numbers, n.canonical = true)
      (h : Decoder.ofJson (decoder k) v = .ok o)

/-- Either way there is a document behind the object, with numbers that reading can give. -/
theorem FromJson.exists_document (h : o.FromJson) : ∃ d, d.Canonical ∧ decoder k d = .ok o := by
  cases h with
  | @text s h => exact ⟨_, Document.canonical_ofText s, (Decoder.ofText_eq_ok.mp h).1⟩
  | @value v hv h =>
    refine ⟨.ofJson v, fun n hn => hv n ?_, h⟩
    rwa [Document.numbers_ofJson] at hn

/-- **An object that a text can keep exactly**: JSON gives it, it holds no double, and it is
nested no deeper than can be read. -/
structure Textual (o : Object k) : Prop where
  fromJson : o.FromJson
  noDouble : ∀ x, JsonNumber.float x ∉ o.toJson.numbers
  shallow : o.toJson.nesting ≤ 127

namespace Textual

/-- An object that was read is tidy. -/
theorem tidy (h : o.Textual) : o.Tidy := by
  obtain ⟨d, -, hd⟩ := h.fromJson.exists_document
  exact tidy_of_readable ⟨d, hd⟩

/-- **Without doubles an object is exact**: its numbers stand in its document, where integers
fit 64 bits. -/
theorem exact (h : o.Textual) : o.toJson.Exact := by
  obtain ⟨d, hcanonical, hd⟩ := h.fromJson.exists_document
  intro n hn
  have hfits := hcanonical n (numbers_of_decoder hd hn)
  cases n with
  | int i => exact ⟨i, rfl, hfits⟩
  | float x => exact absurd hn (h.noDouble x)

end Textual

/-- What a store assigns is exact. -/
theorem exact_stamped (h : o.toJson.Exact) : (o.stamped version created).toJson.Exact := by
  intro n hn
  rw [numbers_toJson] at hn
  exact h n (o.numbers_toJson ▸ hn)

/-- What a store assigns does not make an object nested too deep. -/
theorem nesting_stamped_le (h : o.toJson.nesting ≤ 127) :
    (o.stamped version created).toJson.nesting ≤ 127 :=
  (nesting_toJson_le_iff (o.stamped version created)).mpr ((nesting_toJson_le_iff o).mp h)

end Object

end PlanSync
