import PlanSync.Proofs.Object.RoundTrip

/-!
# What is found in a rendered spec

The spec of an object as a value is a tree, and a place in it is told by the keys that
lead there (`Json.at?`). Two specs may then be compared everywhere but at some places,
which says more than that the records agree in some fields: nothing is lost or brought in
by writing the kept members beside the known fields.

For each record it is told what stands under a key (`TerraformSpec.field?_toJson` and so
on). Tidiness is what makes this true of the open ones, for a member that is kept under
the name of a field would take its place.
-/

namespace PlanSync

open Decoder

namespace Json

/-- The value at a path of keys, if the path leads anywhere. -/
def at? : List String → Json → Option Json
  | [], j => some j
  | key :: path, j => (j.field? key).bind (at? path)

/-- **Paths are apart** if neither is on the way to the other. -/
def Apart (p q : List String) : Prop := ¬ p <+: q ∧ ¬ q <+: p

/-- **Two values are equal but for some places**: what stands at any path that is apart from
those to the places is the same, and nothing stands there in one value if nothing does in
the other. -/
def EqBut (places : List (List String)) (a b : Json) : Prop :=
  ∀ path, (∀ p ∈ places, Apart path p) → at? path a = at? path b

/-- The places below a key. -/
def placesBelow (key : String) (places : List (List String)) : List (List String) :=
  places.filterMap ([key].isPrefixOf? ·)

/-- A place below a key is a place whose path begins with that key. -/
theorem mem_placesBelow {key : String} {places : List (List String)} {p : List String} :
    p ∈ placesBelow key places ↔ key :: p ∈ places := by
  simp only [placesBelow, List.mem_filterMap, List.isPrefixOf?_eq_some_iff_append_eq,
    List.singleton_append, exists_eq_right']

theorem at?_singleton (key : String) (j : Json) : at? [key] j = j.field? key :=
  Option.bind_fun_some _

/-- What stands below a key depends on what stands under it. -/
theorem at?_congr {key : String} {a b : Json} (h : a.field? key = b.field? key)
    (path : List String) : at? (key :: path) a = at? (key :: path) b :=
  congrArg (Option.bind · (at? path)) h

/-- Sorting moves members but keeps what stands under each key, itself sorted. -/
theorem field?_sortKeys {ms : List (String × Json)} (hn : (ms.map Prod.fst).Nodup)
    (key : String) :
    (object ms).sortKeys.field? key = (List.lookup key ms).map sortKeys := lookup_stored hn key

/-- **Objects are compared key by key**: what stands under a key is the same, or is itself
one of the places, or is equal but for the places below the key. -/
theorem eqBut_of_field? {places : List (List String)} {a b : Json} (hplaces : places ≠ [])
    (h : ∀ key, a.field? key = b.field? key ∨ [key] ∈ places
      ∨ ∃ x y, a.field? key = some x ∧ b.field? key = some y ∧ EqBut (placesBelow key places) x y) :
    EqBut places a b := by
  intro path hpath
  cases path with
  | nil =>
    obtain ⟨p, hp⟩ := List.exists_mem_of_ne_nil places hplaces
    exact absurd List.nil_prefix (hpath p hp).1
  | cons key path =>
    rcases h key with heq | hmem | ⟨x, y, hx, hy, hbelow⟩
    · exact at?_congr heq path
    · exact absurd (List.cons_prefix_cons.mpr ⟨rfl, List.nil_prefix⟩) (hpath [key] hmem).2
    · rw [at?, at?, hx, hy]
      -- what is apart below the key is apart from the root
      refine hbelow path fun p hp => ?_
      obtain ⟨hto, hfrom⟩ := hpath (key :: p) (mem_placesBelow.mp hp)
      exact ⟨fun h => hto (List.cons_prefix_cons.mpr ⟨rfl, h⟩),
        fun h => hfrom (List.cons_prefix_cons.mpr ⟨rfl, h⟩)⟩

end Json

/-- The spec of an object as a value. -/
def Object.renderedSpec {k : Kind} (o : Object k) : Json := (k.specJson o.spec).sortKeys

/-! ## Records -/

/-- **What stands under a key** of a reference to a source. The lemmas for the other records
read the same way: a field that is always written, one that may be left out, or a kept
member. -/
theorem SourceReference.field?_toJson (r : SourceReference) (key : String) :
    r.toJson.sortKeys.field? key
      = if key = "kind" then some (.string r.kind)
        else if key = "name" then some (.string r.name)
        else if key = "namespace" then r.namespaceName.map .string
        else none := by
  have hjson : r.toJson = .object r.members := rfl
  rw [hjson, Json.field?_sortKeys r.nodup_members]
  simp only [members, List.lookup_append, Entries.lookup_cons, List.lookup_nil,
    Metadata.lookup_optionalMember]
  split
  · rfl
  · split
    · rfl
    · split
      · cases r.namespaceName <;> rfl
      · rfl

/-- The outputs are left out if there are none, so nothing stands under their key then. -/
theorem OutputsSecret.field?_toJson (s : OutputsSecret) (key : String) :
    s.toJson.sortKeys.field? key
      = if key = "name" then some (.string s.name)
        else if key = "outputs" then s.outputsMember.map Json.sortKeys
        else none := by
  have hjson : s.toJson = .object s.members := rfl
  rw [hjson, Json.field?_sortKeys s.nodup_members]
  simp only [members, Entries.lookup_cons, Metadata.lookup_optionalMember]
  split
  · rfl
  · split <;> rfl

/-- Where a record is open, a key that is not a field leads to what is kept; if the record is
tidy, nothing is kept under the name of a field. -/
theorem RepositoryRef.field?_toJson {r : RepositoryRef} (h : r.Tidy) (key : String) :
    r.toJson.sortKeys.field? key
      = if key = "branch" then r.branch.map .string else r.passthrough.get? key := by
  refine (lookup_stored_beside (by decide) r.inOrder_fixed h key).trans ?_
  rw [fixed, Metadata.lookup_optionalMember]
  split
  · next hkey =>
    rw [get?_eq_none_of_knows h (hkey ▸ rfl), Option.or_none]
    cases r.branch <;> rfl
  · rfl

theorem GitRepositorySpec.field?_toJson {s : GitRepositorySpec} (h : s.Tidy) (key : String) :
    s.toJson.sortKeys.field? key
      = if key = "url" then some (.string s.url)
        else if key = "ref" then s.reference.map fun r => r.toJson.sortKeys
        else s.passthrough.get? key := by
  refine (lookup_stored_beside (by decide) s.inOrder_fixed h.1 key).trans ?_
  rw [fixed, Entries.lookup_cons, Metadata.lookup_optionalMember]
  split
  · rfl
  · split
    · next hkey =>
      rw [get?_eq_none_of_knows h.1 (hkey ▸ rfl), Option.or_none]
      cases s.reference <;> rfl
    · rfl

theorem TerraformSpec.field?_toJson {s : TerraformSpec} (h : s.Tidy) (key : String) :
    s.toJson.sortKeys.field? key
      = if key = "sourceRef" then some s.sourceRef.toJson.sortKeys
        else if key = "writeOutputsToSecret" then
          s.outputsSecret.map fun t => t.toJson.sortKeys
        else if key = "planOnly" then some (.bool s.planOnly)
        else if key = "storeReadablePlan" then s.readablePlan.map .string
        else s.passthrough.get? key := by
  refine (lookup_stored_beside (by decide) s.inOrder_fixed h key).trans ?_
  simp only [fixed, List.cons_append, List.lookup_append, Entries.lookup_cons,
    Metadata.lookup_optionalMember]
  split
  · rfl
  · split
    · next hkey =>
      rw [get?_eq_none_of_knows h (hkey ▸ rfl), Option.or_none]
      subst hkey
      cases s.outputsSecret <;> rfl
    · split
      · rfl
      · split
        · next hkey =>
          rw [get?_eq_none_of_knows h (hkey ▸ rfl), Option.or_none]
          cases s.readablePlan <;> rfl
        · rfl

/-! ## Records that differ in some fields -/

/-- References of one kind are equal but for the name and the namespace. -/
theorem SourceReference.eqBut {r r' : SourceReference} (hkind : r.kind = r'.kind) :
    Json.EqBut [["name"], ["namespace"]] r.toJson.sortKeys r'.toJson.sortKeys := by
  refine Json.eqBut_of_field? (by decide) fun key => ?_
  by_cases hname : key = "name"
  · exact .inr (.inl (by simp [hname]))
  · by_cases hspace : key = "namespace"
    · exact .inr (.inl (by simp [hspace]))
    · refine .inl ?_
      rw [field?_toJson, field?_toJson, if_neg hname, if_neg hspace, if_neg hname,
        if_neg hspace, hkind]

/-- Secrets for the same outputs are equal but for the name. -/
theorem OutputsSecret.eqBut {s s' : OutputsSecret} (houtputs : s.outputs = s'.outputs) :
    Json.EqBut [["name"]] s.toJson.sortKeys s'.toJson.sortKeys := by
  refine Json.eqBut_of_field? (by decide) fun key => ?_
  by_cases hname : key = "name"
  · exact .inr (.inl (by simp [hname]))
  · refine .inl ?_
    rw [field?_toJson, field?_toJson, if_neg hname, if_neg hname, outputsMember, outputsMember,
      houtputs]

/-- References that keep the same are equal but for the branch. -/
theorem RepositoryRef.eqBut {r r' : RepositoryRef} (h : r.Tidy)
    (hkept : r.passthrough = r'.passthrough) :
    Json.EqBut [["branch"]] r.toJson.sortKeys r'.toJson.sortKeys := by
  have h' : r'.Tidy := by
    rw [Tidy, ← hkept]
    exact h
  refine Json.eqBut_of_field? (by decide) fun key => ?_
  by_cases hbranch : key = "branch"
  · exact .inr (.inl (by simp [hbranch]))
  · refine .inl ?_
    rw [field?_toJson h, field?_toJson h', if_neg hbranch, if_neg hbranch, hkept]

/-- **Sources that keep the same are equal but for the branch**, which is one level down: both
have a reference, and below its key the references are compared. -/
theorem GitRepositorySpec.eqBut {s s' : GitRepositorySpec} {r r' : RepositoryRef} (h : s.Tidy)
    (h' : s'.Tidy) (hurl : s.url = s'.url) (hr : s.reference = some r)
    (hr' : s'.reference = some r') (href : r.passthrough = r'.passthrough)
    (hkept : s.passthrough = s'.passthrough) :
    Json.EqBut [["ref", "branch"]] s.toJson.sortKeys s'.toJson.sortKeys := by
  refine Json.eqBut_of_field? (by decide) fun key => ?_
  rw [field?_toJson h, field?_toJson h']
  by_cases hkey : key = "ref"
  · subst hkey
    refine .inr (.inr ⟨_, _, ?_, ?_, RepositoryRef.eqBut (h.2 r hr) href⟩)
    · rw [if_neg (by decide), if_pos rfl, hr, Option.map_some]
    · rw [if_neg (by decide), if_pos rfl, hr', Option.map_some]
  · refine .inl ?_
    rw [if_neg hkey, if_neg hkey, hurl, hkept]

/-- **Configurations that keep the same are equal but for five places**: what identifies the
source, the two settings of a plan, and the name of the secret. Whether there is a secret at
all is not one of them. -/
theorem TerraformSpec.eqBut {s s' : TerraformSpec} (h : s.Tidy) (h' : s'.Tidy)
    (hkind : s.sourceRef.kind = s'.sourceRef.kind)
    (hsecret : s.outputsSecret.map OutputsSecret.outputs
      = s'.outputsSecret.map OutputsSecret.outputs)
    (hkept : s.passthrough = s'.passthrough) :
    Json.EqBut [["sourceRef", "name"], ["sourceRef", "namespace"], ["planOnly"],
        ["storeReadablePlan"], ["writeOutputsToSecret", "name"]]
      s.toJson.sortKeys s'.toJson.sortKeys := by
  refine Json.eqBut_of_field? (by decide) fun key => ?_
  by_cases honly : key = "planOnly"
  · exact .inr (.inl (by simp [honly]))
  by_cases hreadable : key = "storeReadablePlan"
  · exact .inr (.inl (by simp [hreadable]))
  rw [field?_toJson h, field?_toJson h']
  by_cases hsource : key = "sourceRef"
  · subst hsource
    exact .inr (.inr ⟨_, _, if_pos rfl, if_pos rfl, SourceReference.eqBut hkind⟩)
  rw [if_neg hsource, if_neg hsource]
  by_cases hkey : key = "writeOutputsToSecret"
  · subst hkey
    rw [if_pos rfl, if_pos rfl]
    -- both have a secret, or neither has
    cases ht : s.outputsSecret with
    | none =>
      rw [ht, Option.map_none, eq_comm, Option.map_eq_none_iff] at hsecret
      exact .inl (by rw [hsecret])
    | some t =>
      rw [ht, Option.map_some, eq_comm] at hsecret
      obtain ⟨t', ht', houtputs⟩ := Option.map_eq_some_iff.mp hsecret
      exact .inr (.inr ⟨_, _, rfl, by rw [ht']; rfl, OutputsSecret.eqBut houtputs.symm⟩)
  · refine .inl ?_
    rw [if_neg hkey, if_neg hkey, if_neg honly, if_neg honly, if_neg hreadable, if_neg hreadable,
      hkept]

end PlanSync
