import PlanSync.Proofs.Json.Order
import PlanSync.Proofs.Object.Stored

/-!
# Objects read back as they are written

An object is written with its members in the order of the fields, and what is kept
beside them after them; a store sorts all that. No decoder of a part of an object looks
at the order of members, and nothing that is written has a key twice. So a tidy object
that reads back from its stored form reads back from its written form, too
(`Object.decoder_toJson`).
-/

namespace PlanSync

open Decoder

/-! ## The parts of an object ignore the order -/

namespace Metadata

/-- Members read as strings exactly if each of them is one, and they are given in the order
in which they stand. -/
theorem members_string_eq_ok_iff {ms : List (String × Json)} {ys : List (String × String)} :
    Decoder.members string (Document.ofMembers ms) = .ok ys
      ↔ ms = ys.map fun e => (e.1, .string e.2) := by
  constructor
  · intro h
    induction ms generalizing ys with
    | nil =>
      cases h
      rfl
    | cons e ms ih =>
      obtain ⟨k, j⟩ := e
      obtain ⟨y, hy, h⟩ := Answer.bind_eq_ok.mp h
      obtain ⟨ys', hys, h⟩ := Answer.bind_eq_ok.mp h
      cases h
      rw [List.map_cons, ← ih hys]
      cases j <;> cases hy
      rfl
  · rintro rfl
    exact (members_ofMembers (h := id) fun s => rfl).trans (congrArg _ (List.map_id _))

/-- What is sorted into a string is that string. -/
theorem eq_string_of_sortKeys {j : Json} {s : String} (h : j.sortKeys = .string s) :
    j = .string s := by
  cases j with
  | string t => exact h
  | _ => cases h

/-- Members that are strings, as the strings that they are. -/
theorem exists_strings {ms : List (String × Json)} (h : ∀ e ∈ ms, ∃ s, e.2 = .string s) :
    ∃ zs : List (String × String), ms = zs.map fun e => (e.1, .string e.2) := by
  induction ms with
  | nil => exact ⟨[], rfl⟩
  | cons e ms ih =>
    rw [List.forall_mem_cons] at h
    obtain ⟨s, hs⟩ := h.1
    obtain ⟨zs, rfl⟩ := ih h.2
    exact ⟨(e.1, s) :: zs, by rw [List.map_cons, ← hs]⟩

/-- **Labels ignore the order**: they are read into a map, in which an order no longer shows,
and no key stands twice, so it does not matter which of two entries would win. -/
theorem ignoresOrder_labels : IgnoresOrder labelsDecoder := by
  intro j hj ls hls
  cases j with
  | object ms =>
    have hn := (Json.distinct_object.mp hj).1
    obtain ⟨ys, hys, hls⟩ := Answer.bind_eq_ok.mp hls
    cases hls
    have hys : stored ms = ys.map fun e => (e.1, .string e.2) := members_string_eq_ok_iff.mp hys
    have hstring : ∀ e ∈ ms, ∃ s, e.2 = .string s := fun e he => by
      have hfind : List.lookup e.1 (stored ms) = some e.2.sortKeys := by
        rw [lookup_stored hn, Entries.lookup_of_mem hn he]
        rfl
      obtain ⟨y, -, hy⟩ := List.mem_map.mp (hys ▸ Entries.mem_of_lookup hfind)
      exact ⟨y.2, eq_string_of_sortKeys (Prod.mk.inj hy).2.symm⟩
    obtain ⟨zs, rfl⟩ := exists_strings hstring
    -- turning values into strings leaves the keys, which are distinct on either side
    have hkeys : ∀ zs : List (String × String),
        (zs.map fun e => (e.1, Json.string e.2)).map Prod.fst = zs.map Prod.fst := fun zs => by
      rw [List.map_map]
      rfl
    refine Answer.bind_eq_ok.mpr ⟨zs, members_string_eq_ok_iff.mpr rfl, ?_⟩
    refine congrArg Except.ok (SortedMap.ext_get? fun k => ?_)
    rw [SortedMap.get?_ofList (hkeys zs ▸ hn),
      SortedMap.get?_ofList (hkeys ys ▸ hys ▸ nodup_stored _)]
    -- both lists have the same strings under the same keys
    have hfind := lookup_stored hn k
    rw [hys, Entries.lookup_map, Entries.lookup_map, Option.map_map] at hfind
    exact (Option.map_injective (fun _ _ => Json.string.inj) hfind).symm
  | _ => exact hls

theorem ignoresOrder_timestamp : IgnoresOrder timestampDecoder := .of_eq fun j => by
  cases j <;> rfl

/-- **Metadata ignores the order of its members**, since each of its fields is looked up by
name and ignores the order within its value. The records below go the same way. -/
theorem ignoresOrder : IgnoresOrder decoder := by
  refine .closed (by decide) ?_ fun t t' h => ?_
  · simp only [fields, List.forall_mem_cons]
    exact ⟨ignoresOrder_string.check _, ignoresOrder_string.check _, ignoresOrder_labels.check _,
      ignoresOrder_labels.check _, ignoresOrder_string.option.check _,
      ignoresOrder_timestamp.option.check _, nofun⟩
  · exact (h.required (by decide) ignoresOrder_string).bind fun _ =>
      (h.required (by decide) ignoresOrder_string).bind fun _ =>
      (h.withDefault (by decide) ignoresOrder_labels _).bind fun _ =>
      (h.withDefault (by decide) ignoresOrder_labels _).bind fun _ =>
      (h.optional (by decide) ignoresOrder_string).bind fun _ =>
      (h.optional (by decide) ignoresOrder_timestamp).bind fun _ => .refl _

end Metadata

theorem SourceReference.ignoresOrder : IgnoresOrder decoder := by
  refine .closed (by decide) ?_ fun t t' h => ?_
  · simp only [fields, List.forall_mem_cons]
    exact ⟨ignoresOrder_string.check _, ignoresOrder_string.check _,
      ignoresOrder_string.option.check _, nofun⟩
  · exact (h.required (by decide) ignoresOrder_string).bind fun _ =>
      (h.required (by decide) ignoresOrder_string).bind fun _ =>
      (h.optional (by decide) ignoresOrder_string).bind fun _ => .refl _

theorem OutputsSecret.ignoresOrder : IgnoresOrder decoder := by
  refine .closed (by decide) ?_ fun t t' h => ?_
  · simp only [fields, List.forall_mem_cons]
    exact ⟨ignoresOrder_string.check _, ignoresOrder_string.list.check _, nofun⟩
  · exact (h.required (by decide) ignoresOrder_string).bind fun _ =>
      (h.withDefault (by decide) ignoresOrder_string.list _).bind fun _ => .refl _

/-- A reference to a repository keeps the members that it does not know, and keeps them in a
map: what is kept ignores the order, too. -/
theorem RepositoryRef.ignoresOrder : IgnoresOrder decoder := by
  refine .opened (by decide) ?_ fun t t' h => ?_
  · simp only [fields, List.forall_mem_cons]
    exact ⟨ignoresOrder_string.option.check _, nofun⟩
  · exact (h.optional (by decide) ignoresOrder_string).bind fun _ =>
      h.bind_kept fun _ => .ok _

theorem GitRepositorySpec.ignoresOrder : IgnoresOrder decoder := by
  refine .opened (by decide) ?_ fun t t' h => ?_
  · simp only [fields, List.forall_mem_cons]
    exact ⟨ignoresOrder_string.check _, RepositoryRef.ignoresOrder.option.check _, nofun⟩
  · exact (h.required (by decide) ignoresOrder_string).bind fun _ =>
      (h.optional (by decide) RepositoryRef.ignoresOrder).bind fun _ =>
      h.bind_kept fun _ => .ok _

/-- Within the spec of a Terraform the parts are records of their own, innermost first: the
reference to a source and the secret for outputs, then the spec itself. -/
theorem TerraformSpec.ignoresOrder : IgnoresOrder decoder := by
  refine .opened (by decide) ?_ fun t t' h => ?_
  · simp only [fields, List.forall_mem_cons]
    exact ⟨SourceReference.ignoresOrder.check _, OutputsSecret.ignoresOrder.option.check _,
      ignoresOrder_bool.check _, ignoresOrder_string.option.check _, nofun⟩
  · exact (h.required (by decide) SourceReference.ignoresOrder).bind fun _ =>
      (h.optional (by decide) OutputsSecret.ignoresOrder).bind fun _ =>
      (h.withDefault (by decide) ignoresOrder_bool _).bind fun _ =>
      (h.optional (by decide) ignoresOrder_string).bind fun _ =>
      h.bind_kept fun _ => .ok _

/-- Whatever the kind, its spec ignores the order. -/
theorem Kind.ignoresOrder_spec : ∀ k : Kind, IgnoresOrder k.specDecoder
  | .terraform => TerraformSpec.ignoresOrder
  | .gitRepository => GitRepositorySpec.ignoresOrder

/-- **An object ignores the order of its members**, at any depth. Its status is kept as the
value it is, and a value is read into one that is sorted anyway. -/
theorem Object.ignoresOrder (k : Kind) : IgnoresOrder (decoder k) := by
  refine .closed ?_ ?_ fun t t' h => ?_
  · exact show ["metadata", "spec", "status"].Nodup by decide
  · simp only [fields, List.forall_mem_cons]
    exact ⟨Metadata.ignoresOrder.check _, k.ignoresOrder_spec.check _,
      ignoresOrder_json.option.check _, nofun⟩
  · exact (h.required (knows_metadata k) Metadata.ignoresOrder).bind fun _ =>
      (h.required (knows_spec k) k.ignoresOrder_spec).bind fun _ =>
      (h.optional (knows_status k) ignoresOrder_json).bind fun _ => .refl _

/-! ## Nothing is written twice -/

namespace Json

/-- Members are written in groups, one after the other; each group answers for its values. -/
theorem distinct_of_mem_append {xs ys : List (String × Json)} (hx : ∀ e ∈ xs, e.2.Distinct)
    (hy : ∀ e ∈ ys, e.2.Distinct) : ∀ e ∈ xs ++ ys, e.2.Distinct :=
  fun e he => (List.mem_append.mp he).elim (hx e) (hy e)

theorem distinct_of_mem_cons {name : String} {j : Json} {xs : List (String × Json)}
    (hj : j.Distinct) (hx : ∀ e ∈ xs, e.2.Distinct) : ∀ e ∈ (name, j) :: xs, e.2.Distinct :=
  List.forall_mem_cons.mpr ⟨hj, hx⟩

/-- A member that may be left out adds no value, or the one that it has. -/
theorem distinct_of_mem_optional {name : String} {v : Option Json} (h : ∀ j ∈ v, j.Distinct) :
    ∀ e ∈ Metadata.optionalMember name v, e.2.Distinct := by
  intro e he
  cases v with
  | none => cases he
  | some j =>
    cases List.mem_singleton.mp he
    exact h j rfl

theorem distinct_of_mem_map {α : Type} {v : Option α} {f : α → Json} (h : ∀ a, (f a).Distinct) :
    ∀ j ∈ v.map f, j.Distinct := by
  intro j hj
  obtain ⟨a, -, rfl⟩ := Option.map_eq_some_iff.mp hj
  exact h a

/-- What is kept is tidy. -/
theorem distinct_of_mem_kept {known : List FieldCheck} {rest : SortedMap String Json}
    (h : KeptBeside known rest) : ∀ e ∈ rest.entries, e.2.Distinct :=
  fun e he => distinct_of_tidy (h e.1 e.2 (SortedMap.mem_entries_iff.mp he)).2

end Json

open Json

/-- Labels are written only if there are any, each key once. -/
theorem Metadata.distinct_labelsMember (name : String) (ls : Labels) :
    ∀ e ∈ labelsMember name ls, e.2.Distinct := by
  refine distinct_of_mem_optional fun j hj => ?_
  split at hj
  · cases hj
  · cases hj
    exact distinct_of_tidy (tidy_labelsJson ls)

/-- Metadata has no key twice, neither among its own members nor within its labels and
annotations. -/
theorem Metadata.distinct_toJson (m : Metadata) : m.toJson.Distinct := by
  refine distinct_object.mpr ⟨m.nodup_members, ?_⟩
  refine distinct_of_mem_append (distinct_of_mem_append (distinct_of_mem_append
    (distinct_of_mem_append ?_ (distinct_labelsMember _ _)) (distinct_labelsMember _ _)) ?_) ?_
  · exact distinct_of_mem_cons trivial (distinct_of_mem_cons trivial nofun)
  · exact distinct_of_mem_optional (distinct_of_mem_map fun _ => trivial)
  · exact distinct_of_mem_optional (distinct_of_mem_map fun _ => trivial)

/-- **Metadata reads back in the order in which it is written.** -/
theorem Metadata.decoder_toJson {m : Metadata}
    (h : ∀ t, m.creationTimestamp = some t → t.ReadsBack) : decoder (.ofJson m.toJson) = .ok m :=
  ignoresOrder m.toJson m.distinct_toJson m (decoder_stored h)

theorem SourceReference.distinct_toJson (r : SourceReference) : r.toJson.Distinct := by
  have horder : InOrder fields r.members := by
    simp only [InOrder, members, List.map_append]
    exact (List.Sublist.refl ["kind", "name"]).append (Metadata.keys_optionalMember _ _)
  refine distinct_object.mpr ⟨horder.nodup (by decide), ?_⟩
  exact distinct_of_mem_append
    (distinct_of_mem_cons trivial (distinct_of_mem_cons trivial (List.forall_mem_nil _)))
    (distinct_of_mem_optional (distinct_of_mem_map fun _ => trivial))

theorem OutputsSecret.distinct_toJson (s : OutputsSecret) : s.toJson.Distinct := by
  have horder : InOrder fields s.members := (Metadata.keys_optionalMember _ _).cons_cons _
  refine distinct_object.mpr ⟨horder.nodup (by decide), ?_⟩
  refine distinct_of_mem_cons trivial (distinct_of_mem_optional fun j hj => ?_)
  split at hj
  · cases hj
  · cases hj
    refine distinct_array.mpr fun x hx => ?_
    obtain ⟨t, -, rfl⟩ := List.mem_map.mp hx
    trivial

/-- Where members are kept beside the known ones, they must not be called like these: that is
the part of tidiness that keeps the keys of the whole apart. -/
theorem RepositoryRef.distinct_toJson {r : RepositoryRef} (h : r.Tidy) : r.toJson.Distinct := by
  have horder : InOrder fields r.fixed := Metadata.keys_optionalMember _ _
  refine distinct_object.mpr ⟨nodup_beside (by decide) horder h, ?_⟩
  exact distinct_of_mem_append (distinct_of_mem_optional (distinct_of_mem_map fun _ => trivial))
    (distinct_of_mem_kept h)

theorem GitRepositorySpec.distinct_toJson {s : GitRepositorySpec} (h : s.Tidy) :
    s.toJson.Distinct := by
  obtain ⟨hrest, href⟩ := h
  have horder : InOrder fields s.fixed := (Metadata.keys_optionalMember _ _).cons_cons _
  refine distinct_object.mpr ⟨nodup_beside (by decide) horder hrest, ?_⟩
  refine distinct_of_mem_cons trivial (distinct_of_mem_append ?_ (distinct_of_mem_kept hrest))
  refine distinct_of_mem_optional fun j hj => ?_
  obtain ⟨r, hr, rfl⟩ := Option.map_eq_some_iff.mp hj
  exact RepositoryRef.distinct_toJson (href r hr)

/-- A tidy spec has no key twice, and neither has its reference nor its secret. -/
theorem TerraformSpec.distinct_toJson {s : TerraformSpec} (h : s.Tidy) : s.toJson.Distinct := by
  refine distinct_object.mpr ⟨nodup_beside (by decide) s.inOrder_fixed h, ?_⟩
  refine distinct_of_mem_append (distinct_of_mem_append (distinct_of_mem_cons
    s.sourceRef.distinct_toJson ?_) (distinct_of_mem_cons trivial ?_)) (distinct_of_mem_kept h)
  · exact distinct_of_mem_optional (distinct_of_mem_map OutputsSecret.distinct_toJson)
  · exact distinct_of_mem_optional (distinct_of_mem_map fun _ => trivial)

/-- Whatever the kind, a tidy spec is written with no key twice. -/
theorem Kind.distinct_specJson : ∀ {k : Kind} {s : k.Spec}, k.TidySpec s →
    (k.specJson s).Distinct
  | .terraform, _, h => TerraformSpec.distinct_toJson h
  | .gitRepository, _, h => GitRepositorySpec.distinct_toJson h

namespace Object

variable {k : Kind} {o : Object k}

/-- **A tidy object is written with no key twice**, at any depth. -/
theorem distinct_toJson (h : o.Tidy) : o.toJson.Distinct := by
  refine distinct_object.mpr ⟨o.nodup_members, ?_⟩
  refine distinct_of_mem_append (distinct_of_mem_cons o.metadata.distinct_toJson
    (distinct_of_mem_cons (Kind.distinct_specJson h.spec) nofun)) ?_
  exact distinct_of_mem_optional fun j hj => distinct_of_tidy (h.status j hj).1

/-- **A tidy object reads back as it is written.** -/
theorem decoder_toJson (h : o.Tidy) (hc : o.CreationReadsBack) :
    decoder k (.ofJson o.toJson) = .ok o :=
  ignoresOrder k o.toJson (distinct_toJson h) o (decoder_stored h hc)

end Object

end PlanSync
