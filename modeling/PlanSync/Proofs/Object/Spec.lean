import PlanSync.Object.Basic
import PlanSync.Proofs.Object.Metadata

/-!
# Specs read back

A spec is an open record: fields with a type of their own, and a map of others
that are kept. Writing puts them side by side, so a spec reads back only if
none of the kept members has the name of a field. That is the first half of
being *tidy*; the other is that the kept values are. Every spec that was read
is tidy (`Kind.tidySpec_of_specDecoder`), and every tidy spec reads back
(`Kind.specDecoder_stored`).
-/

namespace PlanSync

open Decoder

/-! ## Closed records inside specs -/

/-- The members of a reference to a source. -/
def SourceReference.members (r : SourceReference) : List (String × Json) :=
  [("kind", .string r.kind), ("name", .string r.name)]
    ++ Metadata.optionalMember "namespace" (r.namespaceName.map .string)

/-- The members are written in the order of the fields, so none comes twice. -/
theorem SourceReference.inOrder_members (r : SourceReference) : InOrder fields r.members := by
  simp only [InOrder, members, List.map_append]
  exact (List.Sublist.refl ["kind", "name"]).append (Metadata.keys_optionalMember _ _)

theorem SourceReference.nodup_members (r : SourceReference) : (r.members.map Prod.fst).Nodup :=
  r.inOrder_members.nodup (by decide)

/-- **A reference to a source reads back.** -/
theorem SourceReference.decoder_stored (r : SourceReference) :
    decoder (.ofJson r.toJson.sortKeys) = .ok r := by
  have hjson : r.toJson = .object r.members := rfl
  have hn := r.nodup_members
  have hs : Suits fields r.members := by
    refine suits_append (suits_cons rfl (string_stored _) (suits_member rfl (string_stored _))) ?_
    refine suits_optional rfl fun j hj => ?_
    obtain ⟨v, -, rfl⟩ := Option.map_eq_some_iff.mp hj
    exact ⟨_, option_string_stored v⟩
  have hkind : (takenAfter fields .none (stored r.members)).required "kind" Decoder.string
      = .ok r.kind :=
    required_stored hn (by decide) (by simp [members, Entries.lookup_cons]) (string_stored _)
  have hname : (takenAfter fields .none (stored r.members)).required "name" Decoder.string
      = .ok r.name :=
    required_stored hn (by decide) (by simp [members, Entries.lookup_cons]) (string_stored _)
  have hspace : (takenAfter fields .none (stored r.members)).optional "namespace" Decoder.string
      = .ok r.namespaceName :=
    optional_stored .string hn (by decide) (by simp [members, Entries.lookup_cons])
      fun v _ => option_string_stored v
  rw [hjson, decoder, closedRecord_ok hs]
  simp only [bind, Except.bind, hkind, hname, hspace]
  rfl

/-- Strings read back as a list. -/
theorem Decoder.list_string_stored (xs : List String) :
    Decoder.list Decoder.string (.ofJson (Json.ofStrings xs).sortKeys) = .ok xs := by
  have htidy : (Json.ofStrings xs).Tidy := by
    refine Json.tidy_array fun x hx => ?_
    obtain ⟨s, -, rfl⟩ := List.mem_map.mp hx
    rfl
  rw [htidy, Json.ofStrings, Document.ofJson, Decoder.list, items_stored]
  rfl

namespace OutputsSecret

/-- The member for the outputs. -/
def outputsMember (s : OutputsSecret) : Option Json :=
  if s.outputs.isEmpty then none else some (.ofStrings s.outputs)

/-- The members of the secret for outputs. -/
def members (s : OutputsSecret) : List (String × Json) :=
  ("name", .string s.name) :: Metadata.optionalMember "outputs" s.outputsMember

/-- The outputs read back where they are written. -/
theorem outputs_stored {s : OutputsSecret} {j : Json} (h : s.outputsMember = some j) :
    Decoder.list Decoder.string (.ofJson j.sortKeys) = .ok s.outputs := by
  rw [outputsMember] at h
  split at h
  · cases h
  · cases h
    exact list_string_stored s.outputs

/-- Where they are not written, the default is what they are. -/
theorem outputs_of_none {s : OutputsSecret} (h : s.outputsMember = none) : [] = s.outputs := by
  rw [outputsMember] at h
  split at h
  · next he => exact (List.isEmpty_iff.mp he).symm
  · cases h

theorem inOrder_members (s : OutputsSecret) : InOrder fields s.members :=
  (Metadata.keys_optionalMember _ _).cons_cons _

theorem nodup_members (s : OutputsSecret) : (s.members.map Prod.fst).Nodup :=
  s.inOrder_members.nodup (by decide)

/-- **The secret for outputs reads back.** -/
theorem decoder_stored (s : OutputsSecret) : decoder (.ofJson s.toJson.sortKeys) = .ok s := by
  have hjson : s.toJson = .object s.members := rfl
  have hn := s.nodup_members
  have hs : Suits fields s.members :=
    suits_cons rfl (string_stored _) (suits_optional rfl fun j hj => ⟨_, outputs_stored hj⟩)
  have hname : (takenAfter fields .none (stored s.members)).required "name" Decoder.string
      = .ok s.name :=
    required_stored hn (by decide) (by simp [members, Entries.lookup_cons]) (string_stored _)
  have houtputs : (takenAfter fields .none (stored s.members)).withDefault "outputs" []
      (Decoder.list Decoder.string) = .ok s.outputs :=
    withDefault_stored hn (by decide) (by simp [members, Entries.lookup_cons])
      (fun j hj => outputs_stored hj) outputs_of_none
  rw [hjson, decoder, closedRecord_ok hs]
  simp only [bind, Except.bind, hname, houtputs]
  rfl

end OutputsSecret

/-! ## Tidy specs -/

/-- A tidy reference keeps tidy values under names of their own. -/
def RepositoryRef.Tidy (r : RepositoryRef) : Prop := KeptBeside fields r.passthrough

/-- A tidy configuration keeps tidy values under names of their own. -/
def TerraformSpec.Tidy (s : TerraformSpec) : Prop := KeptBeside fields s.passthrough

/-- A tidy source keeps tidy values under names of their own, and so does its
reference. -/
def GitRepositorySpec.Tidy (s : GitRepositorySpec) : Prop :=
  KeptBeside fields s.passthrough ∧ ∀ r, s.reference = some r → r.Tidy

/-- Tidy specs of either kind. -/
def Kind.TidySpec : (k : Kind) → k.Spec → Prop
  | .terraform => TerraformSpec.Tidy
  | .gitRepository => GitRepositorySpec.Tidy

/-! ## References -/

namespace RepositoryRef

/-- The known members of a reference. -/
def fixed (r : RepositoryRef) : List (String × Json) :=
  Metadata.optionalMember "branch" (r.branch.map .string)

theorem inOrder_fixed (r : RepositoryRef) : InOrder fields r.fixed :=
  Metadata.keys_optionalMember _ _

/-- **A tidy reference reads back.** -/
theorem decoder_stored {r : RepositoryRef} (h : r.Tidy) :
    decoder (.ofJson r.toJson.sortKeys) = .ok r := by
  have hjson : r.toJson = .object (r.fixed ++ r.passthrough.entries) := rfl
  have hn := nodup_beside (by decide) r.inOrder_fixed h
  have hs : Suits fields r.fixed := suits_optional rfl fun j hj => by
    obtain ⟨v, -, rfl⟩ := Option.map_eq_some_iff.mp hj
    exact ⟨_, option_string_stored v⟩
  have hbranch : (takenAfter fields .none (stored (r.fixed ++ r.passthrough.entries))).optional
      "branch" Decoder.string = .ok r.branch :=
    optional_stored .string hn (by decide) ((lookup_beside h (by decide)).trans (by simp [fixed]))
      fun v _ => option_string_stored v
  obtain ⟨kept, hkept, hrest⟩ := kept_stored (by decide) r.inOrder_fixed h
  rw [hjson, decoder, openRecord_ok (suits_beside hs h)]
  simp only [bind, Except.bind, hbranch, hkept, hrest]
  rfl

/-- What was read as a reference keeps only what is not a field. -/
theorem tidy_of_decoder {d : Document} {r : RepositoryRef} (h : decoder d = .ok r) : r.Tidy := by
  obtain ⟨taken, ht, h⟩ := Answer.bind_eq_ok.mp h
  obtain ⟨branch, -, h⟩ := Answer.bind_eq_ok.mp h
  obtain ⟨kept, hk, h⟩ := Answer.bind_eq_ok.mp h
  cases h
  exact keptBeside_of_openRecord ht hk

end RepositoryRef

/-! ## Sources -/

namespace GitRepositorySpec

/-- The known members of a source. -/
def fixed (s : GitRepositorySpec) : List (String × Json) :=
  ("url", .string s.url) :: Metadata.optionalMember "ref" (s.reference.map RepositoryRef.toJson)

theorem inOrder_fixed (s : GitRepositorySpec) : InOrder fields s.fixed :=
  (Metadata.keys_optionalMember _ _).cons_cons _

/-- An object never reads as a missing reference. -/
theorem option_reference_stored {r : RepositoryRef} (h : r.Tidy) :
    option RepositoryRef.decoder (.ofJson r.toJson.sortKeys) = .ok (some r) :=
  congrArg (Except.map some) (RepositoryRef.decoder_stored h)

/-- **A tidy source reads back.** -/
theorem decoder_stored {s : GitRepositorySpec} (h : s.Tidy) :
    decoder (.ofJson s.toJson.sortKeys) = .ok s := by
  obtain ⟨hrest, href⟩ := h
  have hjson : s.toJson = .object (s.fixed ++ s.passthrough.entries) := rfl
  have hn := nodup_beside (by decide) s.inOrder_fixed hrest
  have hs : Suits fields s.fixed := by
    refine suits_cons rfl (string_stored _) (suits_optional rfl fun j hj => ?_)
    obtain ⟨r, hr, rfl⟩ := Option.map_eq_some_iff.mp hj
    exact ⟨_, option_reference_stored (href r hr)⟩
  have hurl : (takenAfter fields .none (stored (s.fixed ++ s.passthrough.entries))).required
      "url" Decoder.string = .ok s.url :=
    required_stored hn (by decide)
      ((lookup_beside hrest (by decide)).trans (by simp [fixed, Entries.lookup_cons]))
      (string_stored _)
  have hreference : (takenAfter fields .none (stored (s.fixed ++ s.passthrough.entries))).optional
      "ref" RepositoryRef.decoder = .ok s.reference :=
    optional_stored RepositoryRef.toJson hn (by decide)
      ((lookup_beside hrest (by decide)).trans (by simp [fixed, Entries.lookup_cons]))
      fun r hr => option_reference_stored (href r hr)
  obtain ⟨kept, hkept, hmap⟩ := kept_stored (by decide) s.inOrder_fixed hrest
  rw [hjson, decoder, openRecord_ok (suits_beside hs hrest)]
  simp only [bind, Except.bind, hurl, hreference, hkept, hmap]
  rfl

/-- What was read as a source is tidy, and so is its reference. -/
theorem tidy_of_decoder {d : Document} {s : GitRepositorySpec} (h : decoder d = .ok s) :
    s.Tidy := by
  obtain ⟨taken, ht, h⟩ := Answer.bind_eq_ok.mp h
  obtain ⟨url, -, h⟩ := Answer.bind_eq_ok.mp h
  obtain ⟨reference, href, h⟩ := Answer.bind_eq_ok.mp h
  obtain ⟨kept, hk, h⟩ := Answer.bind_eq_ok.mp h
  cases h
  refine ⟨keptBeside_of_openRecord ht hk, fun r hr => ?_⟩
  cases hr
  obtain ⟨d, -, hd⟩ := exists_of_optional href
  exact RepositoryRef.tidy_of_decoder hd

end GitRepositorySpec

/-! ## Configurations -/

namespace TerraformSpec

/-- The known members of a configuration. -/
def fixed (s : TerraformSpec) : List (String × Json) :=
  ("sourceRef", s.sourceRef.toJson)
    :: Metadata.optionalMember "writeOutputsToSecret" (s.outputsSecret.map OutputsSecret.toJson)
    ++ ("planOnly", .bool s.planOnly)
    :: Metadata.optionalMember "storeReadablePlan" (s.readablePlan.map .string)

theorem option_secret_stored (s : OutputsSecret) :
    option OutputsSecret.decoder (.ofJson s.toJson.sortKeys) = .ok (some s) :=
  congrArg (Except.map some) (OutputsSecret.decoder_stored s)

theorem inOrder_fixed (s : TerraformSpec) : InOrder fields s.fixed := by
  simp only [InOrder, fixed, List.map_append, List.map_cons]
  exact ((Metadata.keys_optionalMember _ _).cons_cons _).append
    ((Metadata.keys_optionalMember _ _).cons_cons _)

/-- Each known member has a value that its field can be read of. -/
theorem suits_fixed (s : TerraformSpec) : Suits fields s.fixed := by
  refine suits_append (suits_cons rfl (SourceReference.decoder_stored _) ?_)
    (suits_cons rfl (bool_stored _) ?_)
  · refine suits_optional rfl fun j hj => ?_
    obtain ⟨v, -, rfl⟩ := Option.map_eq_some_iff.mp hj
    exact ⟨_, option_secret_stored v⟩
  · refine suits_optional rfl fun j hj => ?_
    obtain ⟨v, -, rfl⟩ := Option.map_eq_some_iff.mp hj
    exact ⟨_, option_string_stored v⟩

/-- **A tidy configuration reads back.** -/
theorem decoder_stored {s : TerraformSpec} (h : s.Tidy) :
    decoder (.ofJson s.toJson.sortKeys) = .ok s := by
  have hjson : s.toJson = .object (s.fixed ++ s.passthrough.entries) := rfl
  have hn := nodup_beside (by decide) s.inOrder_fixed h
  generalize ht : takenAfter fields .none (stored (s.fixed ++ s.passthrough.entries)) = taken
  have hsource : taken.required "sourceRef" SourceReference.decoder = .ok s.sourceRef :=
    ht ▸ required_stored hn (by decide)
      ((lookup_beside h (by decide)).trans (by simp [fixed, Entries.lookup_cons]))
      (SourceReference.decoder_stored _)
  have hsecret : taken.optional "writeOutputsToSecret" OutputsSecret.decoder
      = .ok s.outputsSecret :=
    ht ▸ optional_stored OutputsSecret.toJson hn (by decide)
      ((lookup_beside h (by decide)).trans
        (by simp [fixed, List.lookup_append, Entries.lookup_cons]))
      fun v _ => option_secret_stored v
  have honly : taken.withDefault "planOnly" false Decoder.bool = .ok s.planOnly :=
    ht ▸ withDefault_stored (v := some (.bool s.planOnly)) hn (by decide)
      ((lookup_beside h (by decide)).trans
        (by simp [fixed, List.lookup_append, Entries.lookup_cons]))
      (fun j hj => by cases hj; exact bool_stored _) (fun hj => by cases hj)
  have hreadable : taken.optional "storeReadablePlan" Decoder.string = .ok s.readablePlan :=
    ht ▸ optional_stored .string hn (by decide)
      ((lookup_beside h (by decide)).trans
        (by simp [fixed, List.lookup_append, Entries.lookup_cons]))
      fun v _ => option_string_stored v
  obtain ⟨kept, hkept, hmap⟩ := kept_stored (by decide) s.inOrder_fixed h
  rw [ht] at hkept
  rw [hjson, decoder, openRecord_ok (suits_beside s.suits_fixed h), ht]
  simp only [bind, Except.bind, hsource, hsecret, honly, hreadable, hkept, hmap]
  rfl

/-- What was read as a configuration keeps only what is not a field. -/
theorem tidy_of_decoder {d : Document} {s : TerraformSpec} (h : decoder d = .ok s) :
    s.Tidy := by
  obtain ⟨taken, ht, h⟩ := Answer.bind_eq_ok.mp h
  obtain ⟨_, -, h⟩ := Answer.bind_eq_ok.mp h
  obtain ⟨_, -, h⟩ := Answer.bind_eq_ok.mp h
  obtain ⟨_, -, h⟩ := Answer.bind_eq_ok.mp h
  obtain ⟨_, -, h⟩ := Answer.bind_eq_ok.mp h
  obtain ⟨kept, hk, h⟩ := Answer.bind_eq_ok.mp h
  cases h
  exact keptBeside_of_openRecord ht hk

end TerraformSpec

/-! ## Both kinds -/

/-- **A tidy spec reads back.** -/
theorem Kind.specDecoder_stored : ∀ {k : Kind} {s : k.Spec}, k.TidySpec s →
    k.specDecoder (.ofJson (k.specJson s).sortKeys) = .ok s
  | .terraform, _, h => TerraformSpec.decoder_stored h
  | .gitRepository, _, h => GitRepositorySpec.decoder_stored h

/-- **A spec that was read is tidy.** -/
theorem Kind.tidySpec_of_specDecoder : ∀ {k : Kind} {d : Document} {s : k.Spec},
    k.specDecoder d = .ok s → k.TidySpec s
  | .terraform, _, _, h => TerraformSpec.tidy_of_decoder h
  | .gitRepository, _, _, h => GitRepositorySpec.tidy_of_decoder h

end PlanSync
