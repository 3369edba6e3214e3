import PlanSync.Proofs.Json.Record

/-!
# The order of members

A value is stored with its members sorted, and shown with the members of a record in
the order of the fields. Decoders that read it from one form read the same from the
other, as long as no key comes twice: fields are looked up by name, and what an open
record keeps is a map (`Decoder.IgnoresOrder`). So it is enough to know of one form
that it reads back.

A closed record may be given as an array, too; its items are then members under the
names of the fields (`Json.named`), and nothing else about it is special.
-/

namespace PlanSync

namespace Answer

variable {ε α β : Type}

/-- **Whatever one computation answers, another answers, too.** -/
def Within (x y : Except ε α) : Prop := ∀ a, x = .ok a → y = .ok a

theorem Within.refl (x : Except ε α) : Within x x := fun _ => id

/-- If the first steps answer alike where they answer, and so do the next ones, the whole
does. -/
theorem Within.bind {x y : Except ε α} {f g : α → Except ε β} (h : Within x y)
    (hf : ∀ a, Within (f a) (g a)) : Within (x >>= f) (y >>= g) := fun b hb => by
  obtain ⟨a, ha, hb⟩ := bind_eq_ok.mp hb
  exact bind_eq_ok.mpr ⟨a, h a ha, hf a b hb⟩

theorem Within.map {x y : Except ε α} (h : Within x y) (f : α → β) :
    Within (x.map f) (y.map f) := fun b hb => by
  obtain ⟨a, ha, hb⟩ := map_eq_ok.mp hb
  exact map_eq_ok.mpr ⟨a, h a ha, hb⟩

end Answer

namespace Json

/-! ## Values in which no key comes twice -/

mutual

/-- **No object has a key twice**, however deep. -/
def Distinct : Json → Prop
  | array xs => DistinctItems xs
  | object ms => (ms.map Prod.fst).Nodup ∧ DistinctMembers ms
  | _ => True

/-- No item of an array has a key twice within. -/
def DistinctItems : List Json → Prop
  | [] => True
  | x :: xs => Distinct x ∧ DistinctItems xs

/-- No member of an object has a key twice within its value. -/
def DistinctMembers : List (String × Json) → Prop
  | [] => True
  | (_, x) :: xs => Distinct x ∧ DistinctMembers xs

end

theorem distinctItems_iff {xs : List Json} : DistinctItems xs ↔ ∀ x ∈ xs, x.Distinct := by
  induction xs with
  | nil => exact ⟨fun _ _ h => (by cases h), fun _ => trivial⟩
  | cons x xs ih => rw [DistinctItems, ih, List.forall_mem_cons]

theorem distinctMembers_iff {ms : List (String × Json)} :
    DistinctMembers ms ↔ ∀ e ∈ ms, e.2.Distinct := by
  induction ms with
  | nil => exact ⟨fun _ _ h => (by cases h), fun _ => trivial⟩
  | cons e ms ih => rw [DistinctMembers, ih, List.forall_mem_cons]

theorem distinct_array {xs : List Json} : (array xs).Distinct ↔ ∀ x ∈ xs, x.Distinct :=
  distinctItems_iff

/-- An object has no key twice if its own keys are distinct and its members have none twice. -/
theorem distinct_object {ms : List (String × Json)} :
    (object ms).Distinct ↔ (ms.map Prod.fst).Nodup ∧ ∀ e ∈ ms, e.2.Distinct :=
  and_congr_right' distinctMembers_iff

mutual

/-- **What is sorted has no key twice**: of two members with one key, sorting keeps one. -/
theorem distinct_sortKeys : ∀ j : Json, j.sortKeys.Distinct
  | .null | .bool _ | .number _ | .string _ => trivial
  | .array xs => distinct_array.mpr (distinct_sortItems xs)
  | .object ms => distinct_object.mpr
    ⟨(sorted_setAll _).nodup, fun e he => distinct_sortMembers ms e (mem_setAll he)⟩

theorem distinct_sortItems : ∀ xs : List Json, ∀ x ∈ sortItems xs, x.Distinct
  | [], _, h => by cases h
  | y :: ys, x, h => by
    rcases List.mem_cons.mp h with rfl | h
    · exact distinct_sortKeys y
    · exact distinct_sortItems ys x h

theorem distinct_sortMembers : ∀ ms : List (String × Json), ∀ e ∈ sortMembers ms, e.2.Distinct
  | [], _, h => by cases h
  | (_, y) :: ys, e, h => by
    rcases List.mem_cons.mp h with rfl | h
    · exact distinct_sortKeys y
    · exact distinct_sortMembers ys e h

end

/-- A tidy value has no key twice. -/
theorem distinct_of_tidy {j : Json} (h : j.Tidy) : j.Distinct := h ▸ distinct_sortKeys j

/-! ## The members of a record -/

/-- **The members of a record**: those of an object, or the items of an array under
the names that the fields have in order. -/
def named (names : List String) : Json → List (String × Json)
  | object ms => ms
  | array xs => names.zip xs
  | _ => []

/-- A value can be taken for a closed record with a number of fields. -/
def IsRecord (fields : Nat) : Json → Prop
  | object _ => True
  | array xs => xs.length ≤ fields
  | _ => False

variable {v : Json} {names : List String}

/-- Sorting leaves the number of items as it is. -/
theorem isRecord_sortKeys {fields : Nat} : v.sortKeys.IsRecord fields ↔ v.IsRecord fields := by
  cases v with
  | array xs =>
    show (sortItems xs).length ≤ fields ↔ _
    rw [sortItems_eq_map, List.length_map]
    rfl
  | _ => exact Iff.rfl

/-- No member comes twice, since neither a key nor the name of a field does. -/
theorem nodup_named (hv : v.Distinct) (hn : names.Nodup) :
    ((v.named names).map Prod.fst).Nodup := by
  cases v with
  | object ms => exact (distinct_object.mp hv).1
  | array xs =>
    show ((names.zip xs).map Prod.fst).Nodup
    rw [List.zip_eq_zip_take_min, List.map_fst_zip (by simp only [List.length_take]; omega)]
    exact List.Nodup.sublist (List.take_sublist _ _) hn
  | _ => exact List.nodup_nil

/-- The values of members have no key twice, either. -/
theorem distinct_of_mem_named (hv : v.Distinct) {e : String × Json} (he : e ∈ v.named names) :
    e.2.Distinct := by
  cases v with
  | object ms => exact (distinct_object.mp hv).2 e he
  | array xs => exact distinct_array.mp hv e.2 (List.of_mem_zip he).2
  | _ => cases he

/-- **Sorting a record sorts the values of its members**, wherever they stand. -/
theorem lookup_named_sortKeys (hv : v.Distinct) (name : String) :
    List.lookup name (v.sortKeys.named names)
      = (List.lookup name (v.named names)).map sortKeys := by
  cases v with
  | object ms => exact Decoder.lookup_stored (distinct_object.mp hv).1 name
  | array xs =>
    show List.lookup name (names.zip (sortItems xs)) = (List.lookup name (names.zip xs)).map _
    rw [sortItems_eq_map, List.zip_map_right]
    exact Entries.lookup_map sortKeys name (names.zip xs)
  | _ => rfl

end Json

namespace Document

theorem ofItems_eq_map (xs : List Json) : ofItems xs = xs.map ofJson := by
  induction xs with
  | nil => rfl
  | cons x xs ih => rw [ofItems, ih, List.map_cons]

theorem ofMembers_eq_map (ms : List (String × Json)) :
    ofMembers ms = ms.map fun e => (some e.1, ofJson e.2) := by
  induction ms with
  | nil => rfl
  | cons e ms ih => rw [ofMembers, ih, List.map_cons]

end Document

namespace Decoder

open Answer (Within)

variable {α : Type} {known : List FieldCheck} {name : String} {v : Json} {t t' : Taken}
  {other : Document → Except ReadError Unit}

/-! ## Taking the members of a record -/

/-- **A closed record is taken by its members**, be it an object or an array. -/
theorem closedRecord_eq_ok_iff :
    closedRecord known (.ofJson v) = .ok t
      ↔ v.IsRecord known.length ∧ takeMembers known Document.skip .none
          (Document.ofMembers (v.named (known.map Prod.fst))) = .ok t := by
  cases v with
  | object ms =>
    show (takeMembers known Document.skip .none (Document.ofMembers ms) >>= fun taken => _) = _ ↔ _
    rw [Answer.bind_eq_ok]
    constructor
    · rintro ⟨t', ht, h⟩
      cases h
      exact ⟨trivial, ht⟩
    · exact fun h => ⟨t, h.2, rfl⟩
  | array xs =>
    have hnamed : ((known.map Prod.fst).zip (Document.ofItems xs)).map (fun e => (some e.1, e.2))
        = Document.ofMembers ((known.map Prod.fst).zip xs) := by
      rw [Document.ofItems_eq_map, List.zip_map_right, List.map_map, Document.ofMembers_eq_map]
      rfl
    have hlength : (Document.ofItems xs).length = xs.length := by
      rw [Document.ofItems_eq_map, List.length_map]
    show closedRecord known (.array (Document.ofItems xs) none) = _ ↔ _
    rw [closedRecord, hnamed, hlength, Answer.bind_eq_ok]
    constructor
    · rintro ⟨t', ht, h⟩
      split at h
      · cases h
      · next hle =>
        cases h
        exact ⟨Nat.le_of_not_lt hle, ht⟩
    · rintro ⟨hle, ht⟩
      refine ⟨t, ht, ?_⟩
      rw [if_neg (Nat.not_lt_of_le hle)]
      rfl
  | _ => exact ⟨fun h => (by cases h), fun h => h.1.elim⟩

/-- What an open record makes of members that it does not know. -/
def keepAny (d : Document) : Except ReadError Unit := (json d).map fun _ => ()

theorem keepAny_ofJson (j : Json) : keepAny (.ofJson j) = .ok () := by
  rw [keepAny, json, Document.toJson_ofJson]
  rfl

/-- An open record is an object, and taken by its members. -/
theorem openRecord_eq_ok_iff :
    openRecord known (.ofJson v) = .ok t
      ↔ ∃ ms, v = .object ms ∧ takeMembers known keepAny .none (Document.ofMembers ms) = .ok t := by
  cases v with
  | object ms =>
    show (takeMembers known keepAny .none (Document.ofMembers ms) >>= fun taken => _) = _ ↔ _
    rw [Answer.bind_eq_ok]
    constructor
    · rintro ⟨t', ht, h⟩
      cases h
      exact ⟨ms, rfl, ht⟩
    · rintro ⟨_, hms, ht⟩
      cases hms
      exact ⟨t, ht, rfl⟩
  | _ => exact ⟨fun h => (by cases h), fun ⟨_, h, _⟩ => (by cases h)⟩

/-- What is taken suits its checks. -/
theorem check_of_takeMembers {xs : List (String × Json)} {taken : Taken}
    (h : takeMembers known other taken (Document.ofMembers xs) = .ok t) :
    ∀ e ∈ xs, ∀ check, List.lookup e.1 known = some check →
      check (.ofJson e.2) = .ok () := by
  induction xs generalizing taken with
  | nil => exact fun e he => by cases he
  | cons e xs ih =>
    obtain ⟨k, x⟩ := e
    rw [Document.ofMembers, takeMembers] at h
    split at h
    · next check hk =>
      split at h
      · cases h
      · obtain ⟨⟨⟩, hx, h⟩ := Answer.bind_eq_ok.mp h
        refine List.forall_mem_cons.mpr ⟨fun check' hk' => ?_, ih h⟩
        cases hk.symm.trans hk'
        exact hx
    · next hk =>
      obtain ⟨_, -, h⟩ := Answer.bind_eq_ok.mp h
      exact List.forall_mem_cons.mpr ⟨fun check hk' => (by cases hk.symm.trans hk'), ih h⟩

/-! ## Decoders that ignore the order -/

/-- **A decoder ignores the order of members**: what it reads from a value that is
sorted, it reads from the value. -/
def IgnoresOrder (f : Decoder α) : Prop :=
  ∀ j : Json, j.Distinct → Within (f (.ofJson j.sortKeys)) (f (.ofJson j))

/-- Only members can be out of order. -/
theorem IgnoresOrder.of_eq {f : Decoder α}
    (h : ∀ j, f (.ofJson (Json.sortKeys j)) = f (.ofJson j)) :
    f.IgnoresOrder := fun j _ => h j ▸ .refl _

theorem ignoresOrder_string : IgnoresOrder string := .of_eq fun j => by cases j <;> rfl

theorem ignoresOrder_bool : IgnoresOrder bool := .of_eq fun j => by cases j <;> rfl

/-- A value that is kept as it is is kept sorted, so it may have been sorted before. -/
theorem ignoresOrder_json : IgnoresOrder json := .of_eq fun j => by
  rw [json, Document.toJson_ofJson, Document.toJson_ofJson]
  exact congrArg Except.ok (Json.tidy_sortKeys j)

namespace IgnoresOrder

/-- Sorting turns nothing into `null`. -/
theorem option {f : Decoder α} (hf : f.IgnoresOrder) : (Decoder.option f).IgnoresOrder := by
  intro j hj
  cases j with
  | null => exact .refl _
  | _ => exact (hf _ hj).map some

/-- Sorting leaves items in their order and sorts within each. -/
theorem list {f : Decoder α} (hf : f.IgnoresOrder) : (Decoder.list f).IgnoresOrder := by
  intro j hj
  cases j with
  | array xs =>
    have hitems : Within (items f (Document.ofItems (Json.sortItems xs)))
        (items f (Document.ofItems xs)) := by
      have hxs := Json.distinct_array.mp hj
      clear hj
      induction xs with
      | nil => exact .refl _
      | cons x xs ih =>
        rw [List.forall_mem_cons] at hxs
        exact (hf x hxs.1).bind fun y => (ih hxs.2).bind fun ys => .refl _
    exact hitems.bind fun ys => .refl _
  | _ => exact .refl _

/-- A check ignores the order if the decoder does. -/
theorem check {f : Decoder α} (hf : f.IgnoresOrder) (name : String) :
    IgnoresOrder (FieldCheck.of name f).2 := fun j hj => (hf j hj).map _

end IgnoresOrder

/-! ## Records -/

/-- **What is taken of a record that is sorted**, beside what is taken of the record:
the same fields, sorted or not, and others that make up the same map. -/
structure Taken.Unsorts (known : List FieldCheck) (t t' : Taken) : Prop where
  field : ∀ name, Knows known name → ∃ v : Option Json, (∀ j ∈ v, j.Distinct)
    ∧ List.lookup name t.fields = v.map (fun j => .ofJson j.sortKeys)
    ∧ List.lookup name t'.fields = v.map .ofJson
  kept : ∃ xs ys, t.kept = .ok xs ∧ t'.kept = .ok ys ∧ SortedMap.ofList xs = SortedMap.ofList ys

namespace Taken.Unsorts

variable {f : Decoder α} (h : Unsorts known t t') (hk : Knows known name) (hf : f.IgnoresOrder)
include h hk hf

/-- A field that is read from the sorted record is read from the record; the same goes for
fields that may be missing. -/
theorem required : Within (t.required name f) (t'.required name f) := by
  obtain ⟨v, hv, ht, ht'⟩ := h.field name hk
  rw [Taken.required, Taken.required, ht, ht']
  cases v with
  | none => exact .refl _
  | some j => exact hf j (hv j rfl)

theorem optional : Within (t.optional name f) (t'.optional name f) := by
  obtain ⟨v, hv, ht, ht'⟩ := h.field name hk
  rw [Taken.optional, Taken.optional, ht, ht']
  cases v with
  | none => exact .refl _
  | some j => exact hf.option j (hv j rfl)

theorem withDefault (default : α) :
    Within (t.withDefault name default f) (t'.withDefault name default f) := by
  obtain ⟨v, hv, ht, ht'⟩ := h.field name hk
  rw [Taken.withDefault, Taken.withDefault, ht, ht']
  cases v with
  | none => exact .refl _
  | some j => exact hf j (hv j rfl)

end Taken.Unsorts

/-- What is kept counts as a map only. -/
theorem Taken.Unsorts.bind_kept (h : Taken.Unsorts known t t')
    (f : SortedMap String Json → Except ReadError α) :
    Within (do let kept ← t.kept; f (.ofList kept)) (do let kept ← t'.kept; f (.ofList kept)) := by
  obtain ⟨xs, ys, hxs, hys, heq⟩ := h.kept
  rw [hxs, hys]
  show Within (f (.ofList xs)) (f (.ofList ys))
  rw [heq]
  exact .refl _

/-- The other members of a record, as they are kept. -/
theorem kept_takenAfter (xs : List (String × Json)) :
    (takenAfter known .none xs).kept
      = .ok ((xs.filter fun e => ¬ Knows known e.1).map fun e => (e.1, e.2.sortKeys)) := by
  show (fieldsOf _).mapM _ = _
  generalize (xs.filter fun e => decide ¬ Knows known e.1) = ys
  induction ys with
  | nil => rfl
  | cons y ys ih =>
    rw [fieldsOf, List.map_cons, List.mapM_cons, ← fieldsOf, ih]
    simp only [json, Document.toJson_ofJson]
    rfl

/-- **Taking a record and taking it sorted** puts the same fields aside, and the rest makes up
the same map: there the keys are distinct, so the order of insertion does not matter. -/
theorem unsorts_takenAfter (hv : v.Distinct) {names : List String} (hn : names.Nodup) :
    Taken.Unsorts known (takenAfter known .none (v.sortKeys.named names))
      (takenAfter known .none (v.named names)) where
  field name hk := by
    refine ⟨List.lookup name (v.named names), fun j hj => ?_, ?_, lookup_takenAfter hk _⟩
    · exact Json.distinct_of_mem_named hv (Entries.mem_of_lookup hj)
    · rw [lookup_takenAfter hk, Json.lookup_named_sortKeys hv, Option.map_map]
      rfl
  kept := by
    refine ⟨_, _, kept_takenAfter _, kept_takenAfter _, SortedMap.ext_get? fun k => ?_⟩
    have hget : ∀ v : Json, v.Distinct → (SortedMap.ofList (((v.named names).filter fun e =>
          ¬ Knows known e.1).map fun e => (e.1, e.2.sortKeys))).get? k
        = if ¬ Knows known k then (List.lookup k (v.named names)).map Json.sortKeys else none := by
      intro v hv
      have hnodup : ((((v.named names).filter fun e => ¬ Knows known e.1).map
          fun e => (e.1, e.2.sortKeys)).map Prod.fst).Nodup := by
        rw [List.map_map]
        exact List.Nodup.sublist (List.filter_sublist.map Prod.fst) (Json.nodup_named hv hn)
      rw [SortedMap.get?_ofList hnodup, Entries.lookup_map,
        Entries.lookup_filter (fun k => decide ¬ Knows known k)]
      by_cases hk : Knows known k <;> simp [hk]
    have hidem : ∀ j : Json, j.sortKeys.sortKeys = j.sortKeys := Json.tidy_sortKeys
    rw [hget _ (Json.distinct_sortKeys v), hget v hv, Json.lookup_named_sortKeys hv, Option.map_map]
    simp only [Function.comp_def, hidem]

/-- **What is taken of the sorted record is taken of the record.** -/
theorem takeMembers_unsorted (hchecks : ∀ e ∈ known, IgnoresOrder e.2)
    (hother : ∀ j, other (.ofJson j) = .ok ()) (hv : v.Distinct) {names : List String}
    (hn : names.Nodup)
    (h : takeMembers known other .none (Document.ofMembers (v.sortKeys.named names)) = .ok t) :
    ∃ t', takeMembers known other .none (Document.ofMembers (v.named names)) = .ok t'
      ∧ Taken.Unsorts known t t' := by
  have hnodup := Json.nodup_named hv hn
  refine ⟨_, takeMembers_ok hnodup (fun _ _ => rfl) (fun e he check hcheck => ?_) hother,
    takeMembers_eq h ▸ unsorts_takenAfter hv hn⟩
  have hsorted : (e.1, e.2.sortKeys) ∈ v.sortKeys.named names := by
    refine Entries.mem_of_lookup ?_
    rw [Json.lookup_named_sortKeys hv, Entries.lookup_of_mem hnodup he]
    rfl
  exact hchecks _ (Entries.mem_of_lookup hcheck) e.2 (Json.distinct_of_mem_named hv he) ()
    (check_of_takeMembers h _ hsorted check hcheck)

namespace IgnoresOrder

variable {rest : Taken → Except ReadError α} (hn : (known.map Prod.fst).Nodup)
  (hchecks : ∀ e ∈ known, IgnoresOrder e.2)
  (hrest : ∀ t t', Taken.Unsorts known t t' → Within (rest t) (rest t'))
include hn hchecks hrest

/-- **A closed record ignores the order**, if its fields do. -/
theorem closed : IgnoresOrder (fun d => closedRecord known d >>= rest) := by
  intro v hv a ha
  obtain ⟨t, ht, ha⟩ := Answer.bind_eq_ok.mp ha
  obtain ⟨hrecord, ht⟩ := closedRecord_eq_ok_iff.mp ht
  obtain ⟨t', ht', hsame⟩ := takeMembers_unsorted hchecks Document.skip_ofJson hv hn ht
  exact Answer.bind_eq_ok.mpr ⟨t', closedRecord_eq_ok_iff.mpr
    ⟨Json.isRecord_sortKeys.mp hrecord, ht'⟩, hrest t t' hsame a ha⟩

/-- **An open record ignores the order**, if its fields do. -/
theorem opened : IgnoresOrder (fun d => openRecord known d >>= rest) := by
  intro v hv a h
  obtain ⟨t, ht, ha⟩ := Answer.bind_eq_ok.mp h
  obtain ⟨ms, hms, ht⟩ := openRecord_eq_ok_iff.mp ht
  cases v with
  | object ms' =>
    cases hms
    obtain ⟨t', ht', hsame⟩ :=
      takeMembers_unsorted (v := .object ms') hchecks keepAny_ofJson hv hn ht
    exact Answer.bind_eq_ok.mpr ⟨t', openRecord_eq_ok_iff.mpr ⟨ms', rfl, ht'⟩,
      hrest t t' hsame a ha⟩
  | _ => cases hms

end IgnoresOrder

end Decoder

end PlanSync
