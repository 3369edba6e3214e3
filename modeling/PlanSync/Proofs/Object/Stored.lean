import PlanSync.Proofs.Object.Spec

/-!
# Objects read back

What a store keeps of an object is its value with all members sorted. A *tidy*
object reads back from there unchanged (`Object.decoder_stored`), and whatever
was read is tidy. Of an object that is not tidy at least the metadata is never
mistaken: if its stored form can be read, name, labels and version come out as
they were (`Object.metadata_of_decoder_stored`).
-/

namespace PlanSync

open Decoder

namespace Object

variable {k : Kind}

/-- **An object that reading can give.** -/
def Readable (o : Object k) : Prop := ∃ d, Object.decoder k d = .ok o

/-- **Tidy**: the spec keeps tidy values under names of their own, and so is
the status, if it has one. -/
structure Tidy (o : Object k) : Prop where
  spec : k.TidySpec o.spec
  status : ∀ j, o.status = some j → j.Tidy ∧ j ≠ .null

/-- The written form of the time of creation reads back. -/
def CreationReadsBack (o : Object k) : Prop :=
  ∀ t, o.metadata.creationTimestamp = some t → t.ReadsBack

/-- The members of an object. -/
def members (o : Object k) : List (String × Json) :=
  [("metadata", o.metadata.toJson), ("spec", k.specJson o.spec)]
    ++ Metadata.optionalMember "status" o.status

theorem inOrder_members (o : Object k) : InOrder (fields k) o.members := by
  simp only [InOrder, members, List.map_append]
  exact (List.Sublist.refl ["metadata", "spec"]).append (Metadata.keys_optionalMember _ _)

theorem nodup_members (o : Object k) : (o.members.map Prod.fst).Nodup :=
  o.inOrder_members.nodup (show ["metadata", "spec", "status"].Nodup by decide)

theorem ofJson_ne_null {j : Json} (h : j ≠ .null) : Document.ofJson j ≠ .null := by
  cases j with
  | null => exact absurd rfl h
  | _ => exact fun hd => by cases hd

theorem option_status_stored {j : Json} (h : j.Tidy ∧ j ≠ .null) :
    option Decoder.json (.ofJson j.sortKeys) = .ok (some j) := by
  rw [h.1]
  exact option_eq_ok (ofJson_ne_null h.2) (Document.toJson_ofJson_of_tidy h.1)

theorem knows_metadata (k : Kind) : Knows (fields k) "metadata" := rfl

theorem knows_spec (k : Kind) : Knows (fields k) "spec" := rfl

theorem knows_status (k : Kind) : Knows (fields k) "status" := rfl

/-- **A tidy object reads back.** -/
theorem decoder_stored {o : Object k} (h : o.Tidy) (hc : o.CreationReadsBack) :
    decoder k (.ofJson o.toJson.sortKeys) = .ok o := by
  have hjson : o.toJson = .object o.members := rfl
  have hn := o.nodup_members
  have hs : Suits (fields k) o.members := by
    refine suits_append (suits_cons rfl (Metadata.decoder_stored hc)
      (suits_member rfl (Kind.specDecoder_stored h.spec))) ?_
    exact suits_optional rfl fun j hj => ⟨_, option_status_stored (h.status j hj)⟩
  have hmetadata : (takenAfter (fields k) .none (stored o.members)).required "metadata"
      Metadata.decoder = .ok o.metadata :=
    required_stored hn (knows_metadata k) (by simp [members, Entries.lookup_cons])
      (Metadata.decoder_stored hc)
  have hspec : (takenAfter (fields k) .none (stored o.members)).required "spec"
      k.specDecoder = .ok o.spec :=
    required_stored hn (knows_spec k) (by simp [members, Entries.lookup_cons])
      (Kind.specDecoder_stored h.spec)
  have hstatus : (takenAfter (fields k) .none (stored o.members)).optional "status"
      Decoder.json = .ok o.status :=
    optional_stored id hn (knows_status k) (by simp [members, Entries.lookup_cons])
      fun j hj => option_status_stored (h.status j hj)
  rw [hjson, decoder, closedRecord_ok hs]
  simp only [bind, Except.bind, hmetadata, hspec, hstatus]
  rfl

/-- **The metadata of a stored object is never mistaken.** -/
theorem metadata_of_decoder_stored {o o' : Object k} (hc : o.CreationReadsBack)
    (h : decoder k (.ofJson o.toJson.sortKeys) = .ok o') : o'.metadata = o.metadata := by
  have hjson : o.toJson = .object o.members := rfl
  rw [hjson] at h
  obtain ⟨taken, ht, h⟩ := Answer.bind_eq_ok.mp h
  obtain ⟨m, hm, h⟩ := Answer.bind_eq_ok.mp h
  obtain ⟨_, -, h⟩ := Answer.bind_eq_ok.mp h
  obtain ⟨_, -, h⟩ := Answer.bind_eq_ok.mp h
  cases h
  have hmetadata : taken.required "metadata" Metadata.decoder = .ok o.metadata := by
    rw [closedRecord_eq ht]
    exact required_stored o.nodup_members (knows_metadata k)
      (by simp [members, Entries.lookup_cons]) (Metadata.decoder_stored hc)
  exact Except.ok.inj (hm.symm.trans hmetadata)

/-- **What was read is tidy.** -/
theorem tidy_of_readable {o : Object k} (h : o.Readable) : o.Tidy := by
  obtain ⟨d, h⟩ := h
  obtain ⟨taken, -, h⟩ := Answer.bind_eq_ok.mp h
  obtain ⟨m, -, h⟩ := Answer.bind_eq_ok.mp h
  obtain ⟨s, hs, h⟩ := Answer.bind_eq_ok.mp h
  obtain ⟨status, hstatus, h⟩ := Answer.bind_eq_ok.mp h
  cases h
  refine ⟨?_, fun j hj => ?_⟩
  · rw [Taken.required] at hs
    split at hs
    · exact Kind.tidySpec_of_specDecoder hs
    · cases hs
  · cases hj
    obtain ⟨d, hnull, hd⟩ := exists_of_optional hstatus
    refine ⟨Document.tidy_of_toJson hd, fun hj => hnull ?_⟩
    exact Document.eq_null_of_toJson (hj ▸ hd)

/-- **What is tidy can be read**, if its time of creation reads back. -/
theorem readable_of_tidy {o : Object k} (h : o.Tidy) (hc : o.CreationReadsBack) : o.Readable :=
  ⟨_, decoder_stored h hc⟩

/-! ## Versions -/

/-- An object as a store writes it: with the version and the time of creation
that the store assigns. -/
def stamped (o : Object k) (version : Option String) (created : Option Timestamp) : Object k :=
  { o with
    metadata := { o.metadata with resourceVersion := version, creationTimestamp := created } }

theorem Tidy.stamped {o : Object k} {version : Option String} {created : Option Timestamp}
    (h : o.Tidy) : (o.stamped version created).Tidy := ⟨h.spec, h.status⟩

end Object

end PlanSync
