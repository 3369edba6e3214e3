import PlanSync.Json.Decode
import PlanSync.Proofs.Json.Document

/-!
# Records read back

A record is written as the object of its fields, and stored with its members
sorted. Here is what reading it from there gives: every known field is found
with the value it was written with, and an open record keeps exactly the other
members. Sorting never gets in the way, because fields are looked up by name
and the kept members form a map.
-/

namespace PlanSync.Decoder

variable {α : Type}

/-! ## Fields -/

/-- Whether a field is one of the known ones. -/
def Knows (known : List FieldCheck) (name : String) : Prop :=
  (List.lookup name known).isSome = true

instance (known : List FieldCheck) : DecidablePred (Knows known) :=
  fun _ => inferInstanceAs (Decidable (_ = _))

/-- Members under the names of known fields, in the order of the fields. -/
def InOrder (known : List FieldCheck) (ms : List (String × Json)) : Prop :=
  (ms.map Prod.fst).Sublist (known.map Prod.fst)

theorem InOrder.nodup {known : List FieldCheck} {ms : List (String × Json)}
    (h : InOrder known ms) (hn : (known.map Prod.fst).Nodup) : (ms.map Prod.fst).Nodup :=
  List.Sublist.nodup h hn

theorem InOrder.knows {known : List FieldCheck} {ms : List (String × Json)}
    (h : InOrder known ms) : ∀ e ∈ ms, Knows known e.1 := by
  intro e he
  have hm := h.subset (List.mem_map_of_mem he)
  rw [Knows, Option.isSome_iff_ne_none, ne_eq, Entries.lookup_eq_none_iff_not_mem, Decidable.not_not]
  exact hm

/-- Only known fields are found. -/
theorem InOrder.lookup_eq_none {known : List FieldCheck} {ms : List (String × Json)}
    (h : InOrder known ms) {name : String} (hk : ¬ Knows known name) :
    List.lookup name ms = none :=
  Entries.lookup_eq_none_iff_not_mem.mpr fun hm => by
    obtain ⟨e, he, rfl⟩ := List.mem_map.mp hm
    exact hk (h.knows e he)

/-- A field suits its check when it can be decoded. -/
theorem FieldCheck.of_eq_ok {name : String} {f : Decoder α} {d : Document} :
    (FieldCheck.of name f).2 d = .ok () ↔ ∃ a, f d = .ok a := by
  refine Answer.map_eq_ok.trans ⟨fun ⟨a, h, _⟩ => ⟨a, h⟩, fun ⟨a, h⟩ => ⟨a, h, rfl⟩⟩

/-- A value other than `null` is decoded as one. -/
theorem option_eq_ok {f : Decoder α} {d : Document} {a : α} (hd : d ≠ .null) (h : f d = .ok a) :
    option f d = .ok (some a) := by
  unfold option
  split
  · exact absurd rfl hd
  · rw [h]
    rfl

/-- A value of an optional field was decoded. -/
theorem exists_of_optional {taken : Taken} {name : String} {f : Decoder α} {a : α}
    (h : taken.optional name f = .ok (some a)) : ∃ d, d ≠ .null ∧ f d = .ok a := by
  rw [Taken.optional] at h
  split at h
  · next d _ =>
    unfold option at h
    split at h
    · cases h
    · next hd =>
      obtain ⟨a', ha, he⟩ := Answer.map_eq_ok.mp h
      cases he
      exact ⟨d, hd, ha⟩
  · cases h

/-! ## Taking members -/

/-- Members of a value as fields. -/
def fieldsOf (xs : List (String × Json)) : List (String × Document) :=
  xs.map fun e => (e.1, Document.ofJson e.2)

theorem lookup_fieldsOf (k : String) (xs : List (String × Json)) :
    List.lookup k (fieldsOf xs) = (List.lookup k xs).map Document.ofJson :=
  Entries.lookup_map Document.ofJson k xs

/-- The members of a value after others that have been taken: known and
unknown ones apart. -/
def takenAfter (known : List FieldCheck) (taken : Taken) (xs : List (String × Json)) : Taken where
  fields := taken.fields ++ fieldsOf (xs.filter fun e => Knows known e.1)
  unknown := taken.unknown ++ fieldsOf (xs.filter fun e => ¬ Knows known e.1)

theorem takenAfter_cons_known {known : List FieldCheck} {taken : Taken} {e : String × Json}
    {xs : List (String × Json)} (h : Knows known e.1) :
    takenAfter known taken (e :: xs)
      = takenAfter known
        { taken with fields := taken.fields ++ [(e.1, Document.ofJson e.2)] } xs := by
  simp [takenAfter, h, fieldsOf]

theorem takenAfter_cons_unknown {known : List FieldCheck} {taken : Taken} {e : String × Json}
    {xs : List (String × Json)} (h : ¬ Knows known e.1) :
    takenAfter known taken (e :: xs)
      = takenAfter known
        { taken with unknown := taken.unknown ++ [(e.1, Document.ofJson e.2)] } xs := by
  simp [takenAfter, h, fieldsOf]

/-- **What is taken is what is there**: if taking the members of a value
succeeds, it has sorted them into known and unknown ones. -/
theorem takeMembers_eq {known : List FieldCheck} {other : Document → Except ReadError Unit}
    {xs : List (String × Json)} {taken t : Taken}
    (h : takeMembers known other taken (Document.ofMembers xs) = .ok t) :
    t = takenAfter known taken xs := by
  -- what has been taken grows with every member, so it is kept general
  induction xs generalizing taken with
  | nil =>
    cases h
    simp [takenAfter, fieldsOf]
  | cons e xs ih =>
    obtain ⟨k, x⟩ := e
    rw [Document.ofMembers, takeMembers] at h
    split at h
    · next check hk =>
      split at h
      · cases h
      · obtain ⟨_, -, h⟩ := Answer.bind_eq_ok.mp h
        rw [takenAfter_cons_known (show Knows known k by simp [Knows, hk])]
        exact ih h
    · next hk =>
      obtain ⟨_, -, h⟩ := Answer.bind_eq_ok.mp h
      rw [takenAfter_cons_unknown (show ¬ Knows known k by simp [Knows, hk])]
      exact ih h

/-- Taking members succeeds if no known one comes twice and all suit. -/
theorem takeMembers_ok {known : List FieldCheck} {other : Document → Except ReadError Unit}
    {xs : List (String × Json)} {taken : Taken} (hn : (xs.map Prod.fst).Nodup)
    (htaken : ∀ e ∈ xs, List.lookup e.1 taken.fields = none)
    (hknown : ∀ e ∈ xs, ∀ check, List.lookup e.1 known = some check →
      check (Document.ofJson e.2) = .ok ())
    (hother : ∀ j, other (Document.ofJson j) = .ok ()) :
    takeMembers known other taken (Document.ofMembers xs) = .ok (takenAfter known taken xs) := by
  induction xs generalizing taken with
  | nil => simp [Document.ofMembers, takeMembers, takenAfter, fieldsOf]
  | cons e xs ih =>
    obtain ⟨k, x⟩ := e
    rw [List.map_cons, List.nodup_cons] at hn
    rw [List.forall_mem_cons] at htaken hknown
    rw [Document.ofMembers, takeMembers]
    split
    · next check hk =>
      rw [htaken.1, hknown.1 check hk,
        takenAfter_cons_known (show Knows known k by simp [Knows, hk])]
      refine ih hn.2 (fun e he => ?_) hknown.2
      have hne : ¬ e.1 = k := fun h => hn.1 (List.mem_map.mpr ⟨e, he, h⟩)
      rw [List.lookup_append, htaken.2 e he, Entries.lookup_cons, if_neg hne]
      rfl
    · next hk =>
      rw [hother, takenAfter_cons_unknown (show ¬ Knows known k by simp [Knows, hk])]
      exact ih hn.2 htaken.2 hknown.2

/-- A known field is found as it is among the members. -/
theorem lookup_takenAfter {known : List FieldCheck} {name : String} (h : Knows known name)
    (xs : List (String × Json)) :
    List.lookup name (takenAfter known .none xs).fields
      = (List.lookup name xs).map Document.ofJson := by
  have hf := Entries.lookup_filter (fun k => decide (Knows known k)) name xs
  rw [takenAfter, Taken.none, List.nil_append, lookup_fieldsOf, hf, if_pos (decide_eq_true h)]

/-! ## Sorted records -/

/-- The members of a value as it is stored. -/
def stored (ms : List (String × Json)) : List (String × Json) := Json.setAll (Json.sortMembers ms)

theorem sortKeys_object (ms : List (String × Json)) :
    (Json.object ms).sortKeys = .object (stored ms) := rfl

theorem nodup_stored (ms : List (String × Json)) : ((stored ms).map Prod.fst).Nodup :=
  (Json.sorted_setAll _).nodup

theorem lookup_stored {ms : List (String × Json)} (hn : (ms.map Prod.fst).Nodup) (k : String) :
    List.lookup k (stored ms) = (List.lookup k ms).map Json.sortKeys := by
  have hkeys : (Json.sortMembers ms).map Prod.fst = ms.map Prod.fst := by
    rw [Json.sortMembers_eq_map, List.map_map]
    rfl
  rw [stored, Json.lookup_setAll (hkeys ▸ hn), Json.sortMembers_eq_map, Entries.lookup_map]

/-- A stored member is a written one, sorted. -/
theorem mem_stored {ms : List (String × Json)} {e : String × Json} (h : e ∈ stored ms) :
    ∃ e' ∈ ms, e = (e'.1, e'.2.sortKeys) := by
  have h := Json.mem_setAll h
  rw [Json.sortMembers_eq_map] at h
  obtain ⟨e', he', rfl⟩ := List.mem_map.mp h
  exact ⟨e', he', rfl⟩

/-- What a check needs of the members that are written. -/
def Suits (known : List FieldCheck) (ms : List (String × Json)) : Prop :=
  ∀ e ∈ ms, ∀ check, List.lookup e.1 known = some check →
    check (Document.ofJson e.2.sortKeys) = .ok ()

theorem suits_stored {known : List FieldCheck} {ms : List (String × Json)}
    (h : Suits known ms) : ∀ e ∈ stored ms, ∀ check, List.lookup e.1 known = some check →
      check (Document.ofJson e.2) = .ok () := by
  intro e he check hc
  obtain ⟨e', he', rfl⟩ := mem_stored he
  exact h e' he' check hc

/-- A closed record gives what was written, if it can be read at all. -/
theorem closedRecord_eq {known : List FieldCheck} {ms : List (String × Json)} {t : Taken}
    (h : closedRecord known (.ofJson (Json.object ms).sortKeys) = .ok t) :
    t = takenAfter known .none (stored ms) := by
  rw [sortKeys_object, Document.ofJson, closedRecord] at h
  obtain ⟨t', ht, h⟩ := Answer.bind_eq_ok.mp h
  obtain ⟨_, -, h⟩ := Answer.bind_eq_ok.mp h
  cases h
  exact takeMembers_eq ht

/-- **A closed record reads back.** -/
theorem closedRecord_ok {known : List FieldCheck} {ms : List (String × Json)}
    (h : Suits known ms) :
    closedRecord known (.ofJson (Json.object ms).sortKeys)
      = .ok (takenAfter known .none (stored ms)) := by
  rw [sortKeys_object, Document.ofJson, closedRecord,
    takeMembers_ok (nodup_stored ms) (fun _ _ => rfl) (suits_stored h) Document.skip_ofJson]
  rfl

/-- **An open record reads back.** -/
theorem openRecord_ok {known : List FieldCheck} {ms : List (String × Json)}
    (h : Suits known ms) :
    openRecord known (.ofJson (Json.object ms).sortKeys)
      = .ok (takenAfter known .none (stored ms)) := by
  rw [sortKeys_object, Document.ofJson, openRecord,
    takeMembers_ok (nodup_stored ms) (fun _ _ => rfl) (suits_stored h) (fun j => by
      rw [json, Document.toJson_ofJson]; rfl)]
  rfl

/-- A known field of a stored record is the written one, sorted. -/
theorem lookup_takenAfter_stored {known : List FieldCheck} {ms : List (String × Json)}
    (hn : (ms.map Prod.fst).Nodup) {name : String} (h : Knows known name) :
    List.lookup name (takenAfter known .none (stored ms)).fields
      = (List.lookup name ms).map fun j => Document.ofJson j.sortKeys := by
  rw [lookup_takenAfter h, lookup_stored hn, Option.map_map]
  rfl

section Fields

variable {known : List FieldCheck} {ms : List (String × Json)} {name : String} {f : Decoder α}

/-- A required field reads back. -/
theorem required_stored {j : Json} {a : α} (hn : (ms.map Prod.fst).Nodup) (hk : Knows known name)
    (hj : List.lookup name ms = some j) (h : f (.ofJson j.sortKeys) = .ok a) :
    (takenAfter known .none (stored ms)).required name f = .ok a := by
  rw [Taken.required, lookup_takenAfter_stored hn hk, hj]
  exact h

/-- An optional field reads back, be it there or left out. -/
theorem optional_stored {v : Option α} (write : α → Json) (hn : (ms.map Prod.fst).Nodup)
    (hk : Knows known name) (hj : List.lookup name ms = v.map write)
    (h : ∀ a, v = some a → option f (.ofJson (write a).sortKeys) = .ok (some a)) :
    (takenAfter known .none (stored ms)).optional name f = .ok v := by
  rw [Taken.optional, lookup_takenAfter_stored hn hk, hj]
  cases v with
  | none => rfl
  | some a => exact h a rfl

/-- A field that is left out when it has its default value reads back. -/
theorem withDefault_stored {default a : α} {v : Option Json} (hn : (ms.map Prod.fst).Nodup)
    (hk : Knows known name) (hj : List.lookup name ms = v)
    (h : ∀ j, v = some j → f (.ofJson j.sortKeys) = .ok a) (hnone : v = none → default = a) :
    (takenAfter known .none (stored ms)).withDefault name default f = .ok a := by
  rw [Taken.withDefault, lookup_takenAfter_stored hn hk, hj]
  cases v with
  | none => exact congrArg Except.ok (hnone rfl)
  | some j => exact h j rfl

end Fields

/-! ## Kept members -/

/-- Reading the unknown members of a value. -/
theorem kept_fieldsOf {fields : List (String × Document)} {xs : List (String × Json)}
    (h : ∀ e ∈ xs, e.2.Tidy) : Taken.kept ⟨fields, fieldsOf xs⟩ = .ok xs := by
  induction xs with
  | nil => rfl
  | cons e xs ih =>
    rw [List.forall_mem_cons] at h
    have ih := ih h.2
    rw [Taken.kept] at ih ⊢
    rw [fieldsOf, List.map_cons, List.mapM_cons, ← fieldsOf, ih]
    simp only [json, Document.toJson_ofJson_of_tidy h.1]
    rfl

/-- Members that can be kept beside known fields: tidy values under names of
their own. -/
def KeptBeside (known : List FieldCheck) (rest : SortedMap String Json) : Prop :=
  ∀ k j, rest.get? k = some j → ¬ Knows known k ∧ j.Tidy

/-- One member is kept under any other name. -/
theorem keptBeside_singleton {known : List FieldCheck} {key : String} {j : Json}
    (hk : ¬ Knows known key) (hj : j.Tidy) : KeptBeside known (.ofList [(key, j)]) := by
  intro key' j' h
  rw [SortedMap.get?_ofList (by simp), Entries.lookup_cons, List.lookup_nil] at h
  split at h
  · next hkey =>
    cases h
    exact ⟨hkey ▸ hk, hj⟩
  · cases h

section Open

variable {known : List FieldCheck} {fixed : List (String × Json)} {rest : SortedMap String Json}

theorem get?_eq_none_of_knows (hr : KeptBeside known rest) {k : String} (hk : Knows known k) :
    rest.get? k = none := by
  cases hj : rest.get? k with
  | none => rfl
  | some j => exact absurd hk (hr k j hj).1

/-- A known field is not looked for among the kept members. -/
theorem lookup_beside (hr : KeptBeside known rest) {k : String} (hk : Knows known k) :
    List.lookup k (fixed ++ rest.entries) = List.lookup k fixed := by
  have h : List.lookup k rest.entries = none := get?_eq_none_of_knows hr hk
  rw [List.lookup_append, h, Option.or_none]

/-- Known fields and kept members have different names. -/
theorem nodup_beside (hn : (known.map Prod.fst).Nodup) (hfixed : InOrder known fixed)
    (hr : KeptBeside known rest) : ((fixed ++ rest.entries).map Prod.fst).Nodup := by
  rw [List.map_append]
  refine List.nodup_append.mpr ⟨hfixed.nodup hn, rest.nodup_keys, ?_⟩
  intro k hk l hl hkl
  subst hkl
  obtain ⟨e, he, rfl⟩ := List.mem_map.mp hk
  obtain ⟨j, hj⟩ := SortedMap.mem_keys_iff.mp hl
  exact (hr e.1 j hj).1 (hfixed.knows e he)

/-- **What is stored of an open record** are its known fields, sorted, and what is kept
beside them as it is. -/
theorem lookup_stored_beside (hn : (known.map Prod.fst).Nodup) (hfixed : InOrder known fixed)
    (hr : KeptBeside known rest) (k : String) :
    List.lookup k (stored (fixed ++ rest.entries))
      = ((List.lookup k fixed).map Json.sortKeys).or (rest.get? k) := by
  rw [lookup_stored (nodup_beside hn hfixed hr), List.lookup_append, Option.map_or]
  refine congrArg (Option.or _) ?_
  change (rest.get? k).map Json.sortKeys = rest.get? k
  -- what is kept is tidy
  cases hj : rest.get? k with
  | none => rfl
  | some j => exact congrArg some (hr k j hj).2

/-- What is kept is stored as it is. -/
theorem lookup_stored_kept (hn : (known.map Prod.fst).Nodup) (hfixed : InOrder known fixed)
    (hr : KeptBeside known rest) {k : String} (hk : ¬ Knows known k) :
    List.lookup k (stored (fixed ++ rest.entries)) = rest.get? k := by
  rw [lookup_stored_beside hn hfixed hr, hfixed.lookup_eq_none hk, Option.map_none, Option.none_or]

/-- Kept members are of no concern to the checks. -/
theorem suits_beside (hs : Suits known fixed) (hr : KeptBeside known rest) :
    Suits known (fixed ++ rest.entries) := by
  intro e he check hc
  rcases List.mem_append.mp he with he | he
  · exact hs e he check hc
  · have hk : Knows known e.1 := by simp [Knows, hc]
    exact absurd hk (hr e.1 e.2 (SortedMap.mem_entries_iff.mp he)).1

/-- **An open record keeps exactly its other members**: they make up the map
that was written beside the known fields. -/
theorem kept_stored (hn : (known.map Prod.fst).Nodup) (hfixed : InOrder known fixed)
    (hr : KeptBeside known rest) :
    ∃ kept, (takenAfter known .none (stored (fixed ++ rest.entries))).kept = .ok kept
      ∧ .ofList kept = rest := by
  refine ⟨(stored (fixed ++ rest.entries)).filter fun e => ¬ Knows known e.1, ?_, ?_⟩
  · refine kept_fieldsOf fun e he => ?_
    obtain ⟨e', -, rfl⟩ := mem_stored (List.mem_filter.mp he).1
    exact Json.tidy_sortKeys e'.2
  · refine SortedMap.ext_get? fun k => ?_
    have hf := Entries.lookup_filter (fun k => decide ¬ Knows known k) k
      (stored (fixed ++ rest.entries))
    have hs : Entries.Sorted ((stored (fixed ++ rest.entries)).filter fun e =>
        decide ¬ Knows known e.1) := (Json.sorted_setAll _).filter _
    rw [SortedMap.get?_ofList hs.nodup, hf]
    by_cases hk : Knows known k
    · rw [if_neg (by simpa using hk), get?_eq_none_of_knows hr hk]
    · rw [if_pos (by simpa using hk), lookup_stored_kept hn hfixed hr hk]

end Open

/-! ## What an open record can keep -/

/-- Members that are taken as unknown are unknown. -/
theorem unknown_of_takeMembers {known : List FieldCheck}
    {other : Document → Except ReadError Unit} {ds : List (Option String × Document)}
    {taken t : Taken} (hu : ∀ e ∈ taken.unknown, ¬ Knows known e.1)
    (h : takeMembers known other taken ds = .ok t) : ∀ e ∈ t.unknown, ¬ Knows known e.1 := by
  induction ds generalizing taken with
  | nil =>
    cases h
    exact hu
  | cons d ds ih =>
    obtain ⟨k, x⟩ := d
    cases k with
    | none => cases h
    | some k =>
      rw [takeMembers] at h
      split at h
      · split at h
        · cases h
        -- a known member leaves the unknown ones as they are
        · obtain ⟨_, -, h⟩ := Answer.bind_eq_ok.mp h
          refine ih ?_ h
          exact hu
      · next hk =>
        obtain ⟨_, -, h⟩ := Answer.bind_eq_ok.mp h
        refine ih (fun e he => ?_) h
        rcases List.mem_append.mp he with he | he
        · exact hu e he
        · cases List.mem_singleton.mp he
          simp [Knows, hk]

theorem unknown_of_openRecord {known : List FieldCheck} {d : Document} {t : Taken}
    (h : openRecord known d = .ok t) : ∀ e ∈ t.unknown, ¬ Knows known e.1 := by
  cases d with
  | object xs close =>
    rw [openRecord] at h
    obtain ⟨t', ht, h⟩ := Answer.bind_eq_ok.mp h
    obtain ⟨_, -, h⟩ := Answer.bind_eq_ok.mp h
    cases h
    exact unknown_of_takeMembers (by simp [Taken.none]) ht
  | _ => cases h

theorem mem_of_kept {t : Taken} {kept : List (String × Json)} (h : t.kept = .ok kept) :
    ∀ e ∈ kept, e.2.Tidy ∧ ∃ d ∈ t.unknown, d.1 = e.1 := by
  obtain ⟨fields, unknown⟩ := t
  change unknown.mapM _ = _ at h
  induction unknown generalizing kept with
  | nil =>
    cases h
    simp
  | cons d ds ih =>
    rw [List.mapM_cons] at h
    obtain ⟨e, he, h⟩ := Answer.bind_eq_ok.mp h
    obtain ⟨es, hes, h⟩ := Answer.bind_eq_ok.mp h
    cases h
    obtain ⟨j, hj, he⟩ := Answer.bind_eq_ok.mp he
    cases he
    refine List.forall_mem_cons.mpr ⟨⟨Document.tidy_of_toJson hj, d, List.mem_cons_self, rfl⟩, ?_⟩
    intro e' he'
    obtain ⟨ht, d', hd', hk⟩ := ih hes e' he'
    exact ⟨ht, d', List.mem_cons_of_mem _ hd', hk⟩

/-- **What an open record keeps is unknown and tidy.** -/
theorem keptBeside_of_openRecord {known : List FieldCheck} {d : Document} {t : Taken}
    {kept : List (String × Json)} (h : openRecord known d = .ok t) (hk : t.kept = .ok kept) :
    KeptBeside known (.ofList kept) := by
  intro k j hj
  rw [SortedMap.ofList, SortedMap.get?_insertAll, SortedMap.get?_empty, Option.or_none] at hj
  have hm := List.mem_reverse.mp (Entries.mem_of_lookup hj)
  obtain ⟨htidy, e, he, hek⟩ := mem_of_kept hk (k, j) hm
  exact ⟨fun hknows => unknown_of_openRecord h e he (hek.symm ▸ hknows), htidy⟩

end PlanSync.Decoder
