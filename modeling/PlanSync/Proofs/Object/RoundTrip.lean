import PlanSync.Proofs.Object.Written
import PlanSync.Proofs.Derived

/-!
# Reading and writing lose nothing

An object that is read from a value and written again is the same object, and what the
value says beyond the fields that derivation controls is in what is written: every other
key of the spec, and of the reference of a source, with the value that it had, `null`
included, and no key that was not there (`Object.round_trips`). The same holds for what
derivation builds from the object.

Values are compared as they are stored, with their members sorted. A value may give the
object as the array of its fields; it is written as an object in any case.
-/

namespace PlanSync

/-! ## Looking into the value of an object -/

namespace Json

/-- A member of a value, if it is an object that has it. -/
def field? (key : String) : Json → Option Json
  | object ms => member? key ms
  | _ => none

/-- The spec in the value of an object, which may be given by its fields in order. -/
def spec? (v : Json) : Option Json := member? "spec" (v.named ["metadata", "spec", "status"])

/-- A key of the spec in the value of an object, with the value sorted. -/
def specField (v : Json) (key : String) : Option Json := v.sortKeys.spec?.bind (field? key)

/-- A key of the reference in the spec of a source. -/
def refField (v : Json) (key : String) : Option Json := (v.specField "ref").bind (field? key)

end Json

namespace Kind

/-- **The keys of a spec that derivation controls.** -/
def controlled : Kind → List String
  | terraform => TerraformSpec.fields.map Prod.fst
  | gitRepository => GitRepositorySpec.fields.map Prod.fst

example : controlled .terraform
    = ["sourceRef", "writeOutputsToSecret", "planOnly", "storeReadablePlan"] := rfl

example : controlled .gitRepository = ["url", "ref"] := rfl

/-- The other keys of a spec. -/
def passthrough : (k : Kind) → k.Spec → SortedMap String Json
  | terraform => TerraformSpec.passthrough
  | gitRepository => GitRepositorySpec.passthrough

/-- The keys of the reference in a spec, other than the branch; for a planning
configuration `ref` is a key like any other. -/
def keptRef : (k : Kind) → k.Spec → String → Option Json
  | terraform, s, key => ((TerraformSpec.passthrough s).get? "ref").bind (Json.field? key)
  | gitRepository, s, key =>
    (GitRepositorySpec.reference s).bind fun r => r.passthrough.get? key

end Kind

namespace Decoder

variable {known : List FieldCheck} {name : String} {v : Json} {t : Taken}
  {other : Document → Except ReadError Unit}

theorem knows_iff : Knows known name ↔ name ∈ known.map Prod.fst := by
  rw [Knows, Option.isSome_iff_ne_none, ne_eq, Entries.lookup_eq_none_iff_not_mem, Decidable.not_not]

/-! ## What is read -/

/-- **No known member is taken twice.** -/
theorem lookup_reverse_of_takeMembers {xs : List (String × Json)} {taken : Taken}
    (hk : Knows known name)
    (h : takeMembers known other taken (Document.ofMembers xs) = .ok t) :
    (List.lookup name taken.fields ≠ none → List.lookup name xs = none)
      ∧ List.lookup name xs.reverse = List.lookup name xs := by
  -- what has been taken grows with every member
  induction xs generalizing taken with
  | nil => exact ⟨fun _ => rfl, rfl⟩
  | cons e xs ih =>
    obtain ⟨k, x⟩ := e
    rw [List.reverse_cons, List.lookup_append, Entries.lookup_cons, Entries.lookup_cons,
      List.lookup_nil]
    rw [Document.ofMembers, takeMembers] at h
    split at h
    · next check hcheck =>
      split at h
      · cases h
      · next hfree =>
        obtain ⟨_, -, h⟩ := Answer.bind_eq_ok.mp h
        obtain ⟨htaken, hreverse⟩ := ih h
        rw [hreverse]
        by_cases he : name = k
        · subst he
          have hnone : List.lookup name xs = none := htaken (by
            rw [List.lookup_append, Entries.lookup_cons, if_pos rfl]
            simp)
          rw [hnone, if_pos rfl]
          refine ⟨fun hsome => ?_, rfl⟩
          exact absurd (Option.isSome_iff_ne_none.mpr hsome) hfree
        · rw [if_neg he, if_neg he, Option.or_none]
          refine ⟨fun hsome => htaken ?_, rfl⟩
          rw [List.lookup_append, Entries.lookup_cons, if_neg he]
          simpa using hsome
    · next hcheck =>
      have he : name ≠ k := fun he => by
        subst he
        simp [Knows, hcheck] at hk
      obtain ⟨_, -, h⟩ := Answer.bind_eq_ok.mp h
      obtain ⟨htaken, hreverse⟩ := ih h
      rw [hreverse, if_neg he, if_neg he, Option.or_none]
      exact ⟨htaken, rfl⟩

/-- Of members with one key the last is stored. -/
theorem lookup_stored_eq_reverse (ms : List (String × Json)) (key : String) :
    List.lookup key (stored ms) = (List.lookup key ms.reverse).map Json.sortKeys := by
  rw [stored, Json.setAll, Entries.lookup_foldl_insert, List.lookup_nil, Option.or_none,
    Json.sortMembers_eq_map, ← List.map_reverse, Entries.lookup_map]

/-- **A known member is the same in the value as it is stored.** -/
theorem lookup_named_of_takeMembers (names : List String) (hk : Knows known name)
    (h : takeMembers known other .none (Document.ofMembers (v.named names)) = .ok t) :
    List.lookup name (v.sortKeys.named names)
      = (List.lookup name (v.named names)).map Json.sortKeys := by
  cases v with
  | object ms =>
    have h : takeMembers known other .none (Document.ofMembers ms) = .ok t := h
    show List.lookup name (stored ms) = _
    rw [lookup_stored_eq_reverse, (lookup_reverse_of_takeMembers hk h).2]
    rfl
  | array xs =>
    show List.lookup name (names.zip (Json.sortItems xs)) = (List.lookup name (names.zip xs)).map _
    rw [Json.sortItems_eq_map, List.zip_map_right]
    exact Entries.lookup_map Json.sortKeys name (names.zip xs)
  | _ => rfl

/-- **What an open record keeps of a value** are the other members as they are stored. -/
theorem get?_kept {ms : List (String × Json)} {kept : List (String × Json)}
    (h : openRecord known (.ofJson (.object ms)) = .ok t) (hkept : t.kept = .ok kept)
    {key : String} (hkey : ¬ Knows known key) :
    (SortedMap.ofList kept).get? key = List.lookup key (stored ms) := by
  obtain ⟨_, hms, h⟩ := openRecord_eq_ok_iff.mp h
  cases hms
  rw [takeMembers_eq h, kept_takenAfter] at hkept
  cases hkept
  rw [SortedMap.ofList, SortedMap.get?_insertAll, SortedMap.get?_empty, Option.or_none,
    ← List.map_reverse, Entries.lookup_map, ← List.filter_reverse,
    Entries.lookup_filter (fun k => decide ¬ Knows known k), if_pos (by simpa using hkey),
    lookup_stored_eq_reverse]

/-- A field that must be there, in a closed record. -/
theorem exists_of_required {α : Type} {f : Decoder α} {a : α} (hk : Knows known name)
    (h : closedRecord known (.ofJson v) = .ok t) (ha : t.required name f = .ok a) :
    ∃ j, List.lookup name (v.sortKeys.named (known.map Prod.fst)) = some j.sortKeys
      ∧ f (.ofJson j) = .ok a := by
  obtain ⟨-, h⟩ := closedRecord_eq_ok_iff.mp h
  have hnamed := lookup_named_of_takeMembers _ hk h
  rw [takeMembers_eq h, Taken.required, lookup_takenAfter hk] at ha
  cases hj : List.lookup name (v.named (known.map Prod.fst)) with
  | none =>
    rw [hj] at ha
    cases ha
  | some j =>
    rw [hj] at ha hnamed
    exact ⟨j, hnamed, ha⟩

end Decoder

open Decoder

/-! ## Specs -/

/-- **What a spec keeps of the value that it is read from.** -/
theorem Kind.get?_passthrough : ∀ {k : Kind} {j : Json} {s : k.Spec},
    k.specDecoder (.ofJson j) = .ok s → ∀ key ∉ k.controlled,
      (k.passthrough s).get? key = j.sortKeys.field? key
  | .terraform, j, s, h, key, hkey => by
    obtain ⟨t, ht, h⟩ := Answer.bind_eq_ok.mp h
    obtain ⟨_, -, h⟩ := Answer.bind_eq_ok.mp h
    obtain ⟨_, -, h⟩ := Answer.bind_eq_ok.mp h
    obtain ⟨_, -, h⟩ := Answer.bind_eq_ok.mp h
    obtain ⟨_, -, h⟩ := Answer.bind_eq_ok.mp h
    obtain ⟨kept, hkept, h⟩ := Answer.bind_eq_ok.mp h
    cases h
    obtain ⟨ms, rfl, -⟩ := openRecord_eq_ok_iff.mp ht
    exact get?_kept ht hkept (mt knows_iff.mp hkey)
  | .gitRepository, j, s, h, key, hkey => by
    obtain ⟨t, ht, h⟩ := Answer.bind_eq_ok.mp h
    obtain ⟨_, -, h⟩ := Answer.bind_eq_ok.mp h
    obtain ⟨_, -, h⟩ := Answer.bind_eq_ok.mp h
    obtain ⟨kept, hkept, h⟩ := Answer.bind_eq_ok.mp h
    cases h
    obtain ⟨ms, rfl, -⟩ := openRecord_eq_ok_iff.mp ht
    exact get?_kept ht hkept (mt knows_iff.mp hkey)

/-- **What the reference of a source keeps of the value that it is read from.** -/
theorem RepositoryRef.get?_passthrough {j : Json} {r : RepositoryRef}
    (h : decoder (.ofJson j) = .ok r) {key : String} (hkey : key ≠ "branch") :
    r.passthrough.get? key = j.sortKeys.field? key := by
  obtain ⟨t, ht, h⟩ := Answer.bind_eq_ok.mp h
  obtain ⟨_, -, h⟩ := Answer.bind_eq_ok.mp h
  obtain ⟨kept, hkept, h⟩ := Answer.bind_eq_ok.mp h
  cases h
  obtain ⟨ms, rfl, -⟩ := openRecord_eq_ok_iff.mp ht
  exact get?_kept ht hkept (by simpa [knows_iff, fields, FieldCheck.of] using hkey)

theorem Kind.keptRef_eq : ∀ {k : Kind} {j : Json} {s : k.Spec},
    k.specDecoder (.ofJson j) = .ok s → ∀ key ≠ "branch",
      k.keptRef s key = (j.sortKeys.field? "ref").bind (Json.field? key)
  | .terraform, j, s, h, key, _ =>
    congrArg (·.bind (Json.field? key)) (Kind.get?_passthrough h "ref" (by decide))
  | .gitRepository, j, s, h, key, hkey => by
    obtain ⟨t, ht, h⟩ := Answer.bind_eq_ok.mp h
    obtain ⟨_, -, h⟩ := Answer.bind_eq_ok.mp h
    obtain ⟨reference, href, h⟩ := Answer.bind_eq_ok.mp h
    obtain ⟨_, -, h⟩ := Answer.bind_eq_ok.mp h
    cases h
    obtain ⟨ms, rfl, hms⟩ := openRecord_eq_ok_iff.mp ht
    have hknows : Knows GitRepositorySpec.fields "ref" := by decide
    have hfield : (Json.object ms).sortKeys.field? "ref"
        = (List.lookup "ref" ms).map Json.sortKeys :=
      lookup_named_of_takeMembers (v := .object ms) [] hknows hms
    rw [takeMembers_eq hms, Taken.optional, lookup_takenAfter hknows] at href
    rw [hfield]
    show (reference.bind fun r => r.passthrough.get? key) = _
    cases hj : List.lookup "ref" ms with
    | none =>
      rw [hj] at href
      cases href
      rfl
    | some j =>
      rw [hj] at href
      have href : option RepositoryRef.decoder (.ofJson j) = .ok reference := href
      cases j with
      | object xs =>
        obtain ⟨r, hr, rfl⟩ := Answer.map_eq_ok.mp href
        exact RepositoryRef.get?_passthrough hr hkey
      | null =>
        cases href
        rfl
      | _ => cases href

/-- **What a tidy spec keeps is in its written form.** -/
theorem Kind.field?_specJson : ∀ {k : Kind} {s : k.Spec}, k.TidySpec s → ∀ key ∉ k.controlled,
    (k.specJson s).sortKeys.field? key = (k.passthrough s).get? key
  | .terraform, s, h, key, hkey =>
    lookup_stored_kept (by decide) (TerraformSpec.inOrder_fixed s) h (mt knows_iff.mp hkey)
  | .gitRepository, s, h, key, hkey =>
    lookup_stored_kept (by decide) (GitRepositorySpec.inOrder_fixed s) h.1 (mt knows_iff.mp hkey)

theorem Kind.keptRef_specJson : ∀ {k : Kind} {s : k.Spec}, k.TidySpec s → ∀ key ≠ "branch",
    ((k.specJson s).sortKeys.field? "ref").bind (Json.field? key) = k.keptRef s key
  | .terraform, s, h, key, _ =>
    congrArg (·.bind (Json.field? key)) (Kind.field?_specJson h "ref" (by decide))
  | .gitRepository, s, h, key, hkey => by
    -- reading back what is stored gives the spec again
    have hread := Kind.keptRef_eq (k := .gitRepository) (GitRepositorySpec.decoder_stored h) key hkey
    have hidem : s.toJson.sortKeys.sortKeys = s.toJson.sortKeys := Json.tidy_sortKeys _
    rw [hidem] at hread
    exact hread.symm

/-- **What derivation controls is never kept**, neither in a spec nor in a reference. -/
theorem Kind.get?_passthrough_of_controlled : ∀ {k : Kind} {s : k.Spec}, k.TidySpec s →
    ∀ key ∈ k.controlled, (k.passthrough s).get? key = none
  | .terraform, _, h, _, hkey => get?_eq_none_of_knows h (knows_iff.mpr hkey)
  | .gitRepository, _, h, _, hkey => get?_eq_none_of_knows h.1 (knows_iff.mpr hkey)

theorem Kind.keptRef_branch {k : Kind} {s : k.Spec} (h : k.TidySpec s)
    (hk : k = .gitRepository) : k.keptRef s "branch" = none := by
  subst hk
  refine Option.bind_eq_none_iff.mpr fun r hr => ?_
  exact get?_eq_none_of_knows (h.2 r hr) (by decide)

/-! ## Objects -/

namespace Object

variable {k : Kind}

/-- **Objects that derivation builds** from a template or a source, with whatever source
or template beside it and for whatever pull requests. -/
def DerivedFrom (x y : Object k) : Prop :=
  ∃ (i : Pass.Input) (wanted : DesiredState) (id : BranchId) (pair : DesiredPair),
    i.origin k = x ∧ i.derive? = some wanted ∧ wanted.pairs.get? id = some pair
      ∧ y = pair.half k

/-- **An object says what a value says**: it reads back as itself, from its stored form
and as it is written, and has exactly the keys that the value has beyond those that
derivation controls, with the same values, in its spec and in the reference there; none
that is controlled is among the keys that it keeps. -/
structure RoundTrips (v : Json) (y : Object k) : Prop where
  stored : Decoder.ofJson (decoder k) y.toJson.sortKeys = .ok y
  written : Decoder.ofJson (decoder k) y.toJson = .ok y
  spec : ∀ key ∉ k.controlled, y.toJson.specField key = v.specField key
  ref : ∀ key ≠ "branch", y.toJson.refField key = v.refField key
  specApart : ∀ key ∈ k.controlled, (k.passthrough y.spec).get? key = none
  refApart : k = .gitRepository → k.keptRef y.spec "branch" = none

theorem exists_specJson {v : Json} {x : Object k} (h : decoder k (.ofJson v) = .ok x) :
    ∃ j, v.sortKeys.spec? = some j.sortKeys ∧ k.specDecoder (.ofJson j) = .ok x.spec := by
  obtain ⟨t, ht, h⟩ := Answer.bind_eq_ok.mp h
  obtain ⟨_, -, h⟩ := Answer.bind_eq_ok.mp h
  obtain ⟨s, hs, h⟩ := Answer.bind_eq_ok.mp h
  obtain ⟨_, -, h⟩ := Answer.bind_eq_ok.mp h
  cases h
  exact exists_of_required (knows_spec k) ht hs

/-- **What an object keeps of the value that it is read from.** -/
theorem specField_of_decoder {v : Json} {x : Object k} (h : decoder k (.ofJson v) = .ok x) :
    (∀ key ∉ k.controlled, v.specField key = (k.passthrough x.spec).get? key)
      ∧ ∀ key ≠ "branch", v.refField key = k.keptRef x.spec key := by
  obtain ⟨j, hj, hs⟩ := exists_specJson h
  constructor
  · intro key hkey
    rw [Json.specField, hj]
    exact (Kind.get?_passthrough hs key hkey).symm
  · intro key hkey
    rw [Json.refField, Json.specField, hj]
    exact (Kind.keptRef_eq hs key hkey).symm

/-- **What a tidy object keeps is in its written form.** -/
theorem specField_toJson {y : Object k} (h : y.Tidy) :
    (∀ key ∉ k.controlled, y.toJson.specField key = (k.passthrough y.spec).get? key)
      ∧ ∀ key ≠ "branch", y.toJson.refField key = k.keptRef y.spec key := by
  have hspec : y.toJson.sortKeys.spec? = some (k.specJson y.spec).sortKeys := by
    show List.lookup "spec" (stored y.members) = _
    rw [lookup_stored y.nodup_members]
    rfl
  constructor
  · intro key hkey
    rw [Json.specField, hspec]
    exact Kind.field?_specJson h.spec key hkey
  · intro key hkey
    rw [Json.refField, Json.specField, hspec]
    exact Kind.keptRef_specJson h.spec key hkey

/-- An object says what a value says, if it keeps what the value has. -/
theorem roundTrips_of_tidy {v : Json} {y : Object k} (h : y.Tidy) (hc : y.CreationReadsBack)
    (hspec : ∀ key ∉ k.controlled, v.specField key = (k.passthrough y.spec).get? key)
    (href : ∀ key ≠ "branch", v.refField key = k.keptRef y.spec key) : RoundTrips v y where
  stored := decoder_stored h hc
  written := decoder_toJson h hc
  spec key hkey := ((specField_toJson h).1 key hkey).trans (hspec key hkey).symm
  ref key hkey := ((specField_toJson h).2 key hkey).trans (href key hkey).symm
  specApart := Kind.get?_passthrough_of_controlled h.spec
  refApart hk := Kind.keptRef_branch h.spec hk

namespace DerivedFrom

variable {x y : Object k} (h : DerivedFrom x y)
include h

/-- **What is derived keeps what its origin keeps.** -/
theorem kept_eq : k.passthrough y.spec = k.passthrough x.spec ∧ k.keptRef y.spec = k.keptRef x.spec := by
  obtain ⟨i, wanted, id, pair, rfl, hw, hp, rfl⟩ := h
  obtain ⟨pr, -, -, -, rfl⟩ := Pass.Input.of_get?_pairs hw hp
  cases k with
  | terraform => exact ⟨rfl, rfl⟩
  | gitRepository =>
    refine ⟨rfl, funext fun key => ?_⟩
    -- only the branch of the reference is another
    show ((GitRepositorySpec.reference i.source.spec).getD {}).passthrough.get? key
      = (GitRepositorySpec.reference i.source.spec).bind fun r => r.passthrough.get? key
    cases GitRepositorySpec.reference i.source.spec <;> rfl

theorem tidy (hx : x.Tidy) : y.Tidy := by
  obtain ⟨i, wanted, id, pair, rfl, hw, hp, rfl⟩ := h
  obtain ⟨pr, -, -, -, rfl⟩ := Pass.Input.of_get?_pairs hw hp
  cases k with
  | terraform =>
    refine ⟨Pass.Input.tidy_terraformSpec hx _ _, fun j hj => ?_⟩
    cases hj
  | gitRepository =>
    refine ⟨Pass.Input.tidy_sourceSpec hx _, fun j hj => ?_⟩
    cases hj

/-- A derived object has no time of creation yet. -/
theorem creationReadsBack : y.CreationReadsBack := by
  obtain ⟨i, wanted, id, pair, rfl, hw, hp, rfl⟩ := h
  obtain ⟨pr, -, -, -, rfl⟩ := Pass.Input.of_get?_pairs hw hp
  intro t ht
  rw [Pass.Input.metadata_half] at ht
  cases ht

end DerivedFrom

/-- **Reading and writing an object lose nothing.** Let an object be read from a value,
and let its time of creation read back. Then the object says what the value says: it
reads back as itself, and the keys of the spec and of its reference that derivation does
not control are those of the value. So does every object that is derived from it. -/
theorem round_trips {v : Json} {x : Object k} (hv : Decoder.ofJson (decoder k) v = .ok x)
    (hc : x.CreationReadsBack) : RoundTrips v x ∧ ∀ y, DerivedFrom x y → RoundTrips v y := by
  have htidy : x.Tidy := tidy_of_readable ⟨_, hv⟩
  obtain ⟨hspec, href⟩ := specField_of_decoder hv
  refine ⟨roundTrips_of_tidy htidy hc hspec href, fun y hy => ?_⟩
  obtain ⟨hpass, hkept⟩ := hy.kept_eq
  exact roundTrips_of_tidy (hy.tidy htidy) hy.creationReadsBack (hpass ▸ hspec) (hkept ▸ href)

/-- A source given as the array of its fields, with keys that are null. -/
def listedSource : Json :=
  .array
    [.object [("name", "repo"), ("namespace", "team")],
      .object
        [("interval", .null), ("url", "https://example.com/repo"),
          ("ref", .object [("tag", .null), ("branch", "main")])]]

/-- The source that it gives. -/
def sparseSource : GitRepository where
  metadata := { name := "repo", namespaceName := "team" }
  spec :=
    ({ url := "https://example.com/repo",
       reference := some { branch := some "main", passthrough := .ofList [("tag", .null)] },
       passthrough := .ofList [("interval", .null)] } : GitRepositorySpec)

/-- A template beside the source, and a pull request. -/
def sparseInput : Pass.Input where
  template :=
    { metadata := { name := "plan", namespaceName := "team" }
      spec := ({ sourceRef := { kind := "GitRepository", name := "repo" } } : TerraformSpec) }
  source := sparseSource
  pullRequests :=
    [{ repository := { org := "org", name := "repo" }, number := 7, baseBranch := "main",
       headBranch := "topic" }]

theorem exists_derivedFrom_sparseSource : ∃ y : GitRepository, DerivedFrom sparseSource y := by
  obtain ⟨wanted, hw⟩ : ∃ wanted, sparseInput.derive? = some wanted := ⟨_, rfl⟩
  have htargets : sparseInput.Targets
      { repository := { org := "org", name := "repo" }, number := 7, baseBranch := "main",
        headBranch := "topic" } :=
    ⟨List.mem_singleton_self _, by decide⟩
  obtain ⟨pair, hp⟩ := Pass.Input.exists_get?_pairs hw htargets (by decide +kernel)
  exact ⟨pair.half .gitRepository, sparseInput, wanted, _, pair, rfl, hw, hp, rfl⟩

/-- What is null in the value is null in what is written, also for what is derived. -/
theorem round_trips_listedSource :
    ∃ x y : GitRepository, Decoder.ofJson (decoder .gitRepository) listedSource = .ok x
      ∧ DerivedFrom x y ∧ ∀ o ∈ [x, y], RoundTrips listedSource o
        ∧ o.toJson.specField "interval" = some .null ∧ o.toJson.refField "tag" = some .null := by
  obtain ⟨y, hy⟩ := exists_derivedFrom_sparseSource
  have hread : Decoder.ofJson (decoder .gitRepository) listedSource = .ok sparseSource := rfl
  obtain ⟨hx, hderived⟩ := round_trips hread nofun
  have hnull : ∀ {o : GitRepository}, RoundTrips listedSource o → RoundTrips listedSource o
      ∧ o.toJson.specField "interval" = some .null ∧ o.toJson.refField "tag" = some .null :=
    fun h => ⟨h, h.spec "interval" (by decide), h.ref "tag" (by decide)⟩
  refine ⟨sparseSource, y, hread, hy, List.forall_mem_cons.mpr ⟨hnull hx, ?_⟩⟩
  exact List.forall_mem_cons.mpr ⟨hnull (hderived y hy), nofun⟩

end Object

end PlanSync
