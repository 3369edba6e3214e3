import PlanSync.Json.Decode
import PlanSync.Proofs.Json.Document
import PlanSync.Proofs.Json.Exact

/-!
# Where numbers come from

A decoder makes no numbers of its own: every number in a value that it gives stands in the
document that it was given (`Document.numbers_toJson`, and `Taken.Within` for records). A
document of a text has integers of 64 bits only, since a literal that stands for any other is
read as a double, if at all (`Document.canonical_ofText`).
-/

namespace PlanSync

/-! ## The numbers in a document -/

namespace Document

mutual

/-- The numbers in a document. -/
def numbers : Document → List JsonNumber
  | number n => [n]
  | array xs _ => itemNumbers xs
  | object ms _ => memberNumbers ms
  | tooDeep inner => numbers inner
  | _ => []

/-- The numbers in the items of an array, from the first to the last. -/
def itemNumbers : List Document → List JsonNumber
  | [] => []
  | x :: xs => numbers x ++ itemNumbers xs

/-- The numbers in the members of an object; a key is a text and has none. -/
def memberNumbers : List (Option String × Document) → List JsonNumber
  | [] => []
  | (_, x) :: ms => numbers x ++ memberNumbers ms

end

/-- A number of an array is one of an item. -/
theorem mem_itemNumbers {n : JsonNumber} {xs : List Document} :
    n ∈ itemNumbers xs ↔ ∃ x ∈ xs, n ∈ x.numbers := by
  induction xs with
  | nil => simp [itemNumbers]
  | cons x xs ih => simp [itemNumbers, ih]

/-- A number of an object is one of a member. -/
theorem mem_memberNumbers {n : JsonNumber} {ms : List (Option String × Document)} :
    n ∈ memberNumbers ms ↔ ∃ e ∈ ms, n ∈ e.2.numbers := by
  induction ms with
  | nil => simp [memberNumbers]
  | cons e ms ih => simp [memberNumbers, ih]

mutual

/-- The document of a value has its numbers. -/
theorem numbers_ofJson : ∀ j : Json, (ofJson j).numbers = j.numbers
  | .null | .bool _ | .number _ | .string _ => rfl
  | .array xs => itemNumbers_ofItems xs
  | .object ms => memberNumbers_ofMembers ms

theorem itemNumbers_ofItems : ∀ xs : List Json, itemNumbers (ofItems xs) = Json.itemNumbers xs
  | [] => rfl
  | x :: xs => by
    rw [ofItems, itemNumbers, Json.itemNumbers, numbers_ofJson x, itemNumbers_ofItems xs]

theorem memberNumbers_ofMembers :
    ∀ ms : List (String × Json), memberNumbers (ofMembers ms) = Json.memberNumbers ms
  | [] => rfl
  | (_, x) :: ms => by
    rw [ofMembers, memberNumbers, Json.memberNumbers, numbers_ofJson x, memberNumbers_ofMembers ms]

end

mutual

/-- **Reading a value makes no numbers.** -/
theorem numbers_toJson : ∀ {d : Document} {j : Json}, toJson d = .ok j → j.numbers ⊆ d.numbers
  | .null, _, h | .bool _, _, h | .number _, _, h | .string _, _, h => by
    cases h
    exact List.Subset.refl _
  | .unreadable, _, h | .tooDeep _, _, h | .broken _, _, h => nomatch h
  | .array items close, _, h => by
    obtain ⟨xs, hxs, h⟩ := Answer.bind_eq_ok.mp h
    obtain ⟨_, -, h⟩ := Answer.bind_eq_ok.mp h
    cases h
    exact numbers_itemsToJson hxs
  | .object members close, _, h => by
    obtain ⟨xs, hxs, h⟩ := Answer.bind_eq_ok.mp h
    obtain ⟨_, -, h⟩ := Answer.bind_eq_ok.mp h
    cases h
    intro n hn
    obtain ⟨e, he, hn⟩ := Json.mem_memberNumbers.mp hn
    exact numbers_membersToJson hxs (Json.mem_memberNumbers.mpr ⟨e, Json.mem_setAll he, hn⟩)

/-- Items are read one by one, so each number is one of the item it was read of. -/
theorem numbers_itemsToJson : ∀ {ds : List Document} {xs : List Json},
    itemsToJson ds = .ok xs → Json.itemNumbers xs ⊆ itemNumbers ds
  | [], _, h => by
    cases h
    exact List.Subset.refl _
  | d :: ds, _, h => by
    obtain ⟨y, hy, h⟩ := Answer.bind_eq_ok.mp h
    obtain ⟨ys, hys, h⟩ := Answer.bind_eq_ok.mp h
    cases h
    rw [Json.itemNumbers, itemNumbers]
    exact List.append_subset.mpr
      ⟨List.subset_append_of_subset_left _ (numbers_toJson hy),
        List.subset_append_of_subset_right _ (numbers_itemsToJson hys)⟩

/-- Members are read one by one, and reading ends at a key that is not a text. -/
theorem numbers_membersToJson : ∀ {ds : List (Option String × Document)}
    {xs : List (String × Json)}, membersToJson ds = .ok xs →
      Json.memberNumbers xs ⊆ memberNumbers ds
  | [], _, h => by
    cases h
    exact List.Subset.refl _
  | (none, _) :: _, _, h => nomatch h
  | (some k, d) :: ds, _, h => by
    obtain ⟨y, hy, h⟩ := Answer.bind_eq_ok.mp h
    obtain ⟨ys, hys, h⟩ := Answer.bind_eq_ok.mp h
    cases h
    rw [Json.memberNumbers, memberNumbers]
    exact List.append_subset.mpr
      ⟨List.subset_append_of_subset_left _ (numbers_toJson hy),
        List.subset_append_of_subset_right _ (numbers_membersToJson hys)⟩

end

end Document

/-! ## Records -/

namespace Decoder

variable {α : Type} {known : List FieldCheck} {other : Document → Except ReadError Unit}
  {d : Document} {t taken : Taken} {name : String}

/-- **What has been taken of a document** has no other numbers. -/
def Taken.Within (t : Taken) (d : Document) : Prop :=
  (∀ e ∈ t.fields, e.2.numbers ⊆ d.numbers) ∧ ∀ e ∈ t.unknown, e.2.numbers ⊆ d.numbers

theorem within_none (d : Document) : Taken.none.Within d := ⟨nofun, nofun⟩

/-- Going through the members, each is put aside as a field or as unknown, whole: nothing is
taken that was not among them. -/
theorem within_of_takeMembers {xs : List (Option String × Document)} (hd : taken.Within d)
    (hxs : ∀ e ∈ xs, e.2.numbers ⊆ d.numbers) (h : takeMembers known other taken xs = .ok t) :
    t.Within d := by
  induction xs generalizing taken with
  | nil =>
    cases h
    exact hd
  | cons e xs ih =>
    rw [List.forall_mem_cons] at hxs
    rcases e with ⟨_ | k, x⟩
    · cases h
    have hmore {ys : List (String × Document)} (hys : ∀ e ∈ ys, e.2.numbers ⊆ d.numbers) :
        ∀ e ∈ ys ++ [(k, x)], e.2.numbers ⊆ d.numbers :=
      List.forall_mem_append.mpr ⟨hys, List.forall_mem_singleton.mpr hxs.1⟩
    rw [takeMembers] at h
    split at h
    · split at h
      · cases h
      · obtain ⟨_, -, h⟩ := Answer.bind_eq_ok.mp h
        refine ih ?_ hxs.2 h
        exact ⟨hmore hd.1, hd.2⟩
    · obtain ⟨_, -, h⟩ := Answer.bind_eq_ok.mp h
      refine ih ?_ hxs.2 h
      exact ⟨hd.1, hmore hd.2⟩

/-- The members of an object have no numbers that it has not. -/
theorem numbers_subset_of_mem_object {ms : List (Option String × Document)} {close : Option Break} :
    ∀ e ∈ ms, e.2.numbers ⊆ (Document.object ms close).numbers :=
  fun e he _ hn => Document.mem_memberNumbers.mpr ⟨e, he, hn⟩

/-- **A record that keeps what it does not know** is taken of its document. -/
theorem within_of_openRecord (h : openRecord known d = .ok t) : t.Within d := by
  cases d with
  | object ms close =>
    obtain ⟨t', ht, h⟩ := Answer.bind_eq_ok.mp h
    obtain ⟨_, -, h⟩ := Answer.bind_eq_ok.mp h
    cases h
    exact within_of_takeMembers (within_none _) numbers_subset_of_mem_object ht
  | _ => cases h

/-- **A record without more fields** is taken of its document, which may be an array, too: its
items then stand for the fields in their order. -/
theorem within_of_closedRecord (h : closedRecord known d = .ok t) : t.Within d := by
  cases d with
  | object ms close =>
    obtain ⟨t', ht, h⟩ := Answer.bind_eq_ok.mp h
    obtain ⟨_, -, h⟩ := Answer.bind_eq_ok.mp h
    cases h
    exact within_of_takeMembers (within_none _) numbers_subset_of_mem_object ht
  | array xs close =>
    obtain ⟨t', ht, h⟩ := Answer.bind_eq_ok.mp h
    have hitems : ∀ e ∈ ((known.map Prod.fst).zip xs).map fun e => (some e.1, e.2),
        e.2.numbers ⊆ (Document.array xs close).numbers := by
      intro e he n hn
      obtain ⟨⟨k, x⟩, hzip, rfl⟩ := List.mem_map.mp he
      exact Document.mem_itemNumbers.mpr ⟨x, (List.of_mem_zip hzip).2, hn⟩
    obtain rfl : t' = t := by
      split at h
      · cases h
      · obtain ⟨_, -, h⟩ := Answer.bind_eq_ok.mp h
        exact Except.ok.inj h
    exact within_of_takeMembers (within_none _) hitems ht
  | _ => cases h

namespace Taken.Within

variable {f : Decoder α} {a : α}

/-- What is read of a required field is read of a part. -/
theorem required (hd : t.Within d) (h : t.required name f = .ok a) :
    ∃ d', d'.numbers ⊆ d.numbers ∧ f d' = .ok a := by
  rw [Taken.required] at h
  split at h
  · next d' hd' => exact ⟨d', hd.1 _ (Entries.mem_of_lookup hd'), h⟩
  · cases h

/-- What is read of an optional field is read of a part. -/
theorem optional (hd : t.Within d) (h : t.optional name f = .ok (some a)) :
    ∃ d', d'.numbers ⊆ d.numbers ∧ f d' = .ok a := by
  rw [Taken.optional] at h
  split at h
  · next d' hd' =>
    refine ⟨d', hd.1 _ (Entries.mem_of_lookup hd'), ?_⟩
    cases d' with
    | null => cases h
    | _ =>
      obtain ⟨a', ha', heq⟩ := Answer.map_eq_ok.mp h
      cases heq
      exact ha'
  · cases h

/-- What is kept has no other numbers. -/
theorem kept (hd : t.Within d) {kept : List (String × Json)} (h : t.kept = .ok kept) :
    Json.memberNumbers kept ⊆ d.numbers := by
  obtain ⟨fields, unknown⟩ := t
  change unknown.mapM _ = _ at h
  have hunknown : ∀ e ∈ unknown, e.2.numbers ⊆ d.numbers := hd.2
  clear hd
  induction unknown generalizing kept with
  | nil =>
    cases h
    exact List.nil_subset _
  | cons e es ih =>
    rw [List.forall_mem_cons] at hunknown
    rw [List.mapM_cons] at h
    obtain ⟨m, hm, h⟩ := Answer.bind_eq_ok.mp h
    obtain ⟨ms, hms, h⟩ := Answer.bind_eq_ok.mp h
    obtain ⟨j, hj, hm⟩ := Answer.bind_eq_ok.mp hm
    cases hm
    cases h
    rw [Json.memberNumbers]
    exact List.append_subset.mpr
      ⟨List.Subset.trans (Document.numbers_toJson hj) hunknown.1, ih hms hunknown.2⟩

end Taken.Within

end Decoder

/-! ## Texts -/

/-- **Canonical**: all numbers in a document are ones that reading can give. -/
def Document.Canonical (d : Document) : Prop := ∀ n ∈ d.numbers, n.canonical = true

namespace JsonText

open Document (Canonical)

/-- Digits are taken into the significand only as long as it fits 64 bits. -/
theorem absorb_lt {significand taken : Nat} {ds : List Char} (h : significand < Text.wordBound) :
    (absorb significand taken ds).1 < Text.wordBound := by
  induction ds generalizing significand taken with
  | nil => exact h
  | cons c ds ih =>
    rw [absorb]
    split
    · next hnext => exact ih hnext
    · exact h

/-- A literal stands for an integer only if that fits 64 bits. -/
theorem canonical_of_value? {l : Literal} {n : JsonNumber} (h : l.value? = some n) :
    n.canonical = true := by
  have hfloat {x : Option Binary64} (h : x.map JsonNumber.float = some n) :
      n.canonical = true := by
    obtain ⟨x, -, rfl⟩ := Option.map_eq_some_iff.mp h
    rfl
  have hlt : (absorb 0 0 l.whole).1 < Text.wordBound := absorb_lt (by decide)
  rw [Text.wordBound] at hlt
  have hbounds : (0 : Int) < Power.two 63 ∧ (0 : Int) < Power.two 64 := by decide
  unfold Literal.value? at h
  dsimp only at h
  -- an integer needs the bound of its sign; all other literals are read as doubles
  split at h
  · split at h
    · cases h
      simp only [JsonNumber.canonical, JsonNumber.fits, Bool.and_eq_true, decide_eq_true_eq]
      omega
    · split at h
      · next hnegative =>
        simp only [Bool.and_eq_true, decide_eq_true_eq] at hnegative
        cases h
        simp only [JsonNumber.canonical, JsonNumber.fits, Bool.and_eq_true, decide_eq_true_eq]
        omega
      · exact hfloat h
  · exact hfloat h

/-- What has no numbers has none that reading could not give. -/
theorem canonical_nil {d : Document} (h : d.numbers = []) : Canonical d := by
  intro n hn
  rw [h] at hn
  cases hn

/-- A literal is the number it stands for, or a document that cannot be read. -/
theorem canonical_document (l : Literal) : Canonical l.document := by
  rw [Literal.document]
  split
  · next h =>
    intro n hn
    obtain rfl := List.mem_singleton.mp hn
    exact canonical_of_value? h
  · exact canonical_nil rfl

/-- With an exponent or without one, the whole is a literal or broken. -/
theorem canonical_exponentPart (l : Literal) (cs : List Char) :
    Canonical (exponentPart l cs).1 := by
  have hdigits (broken : Break) (l : Literal) (cs : List Char) :
      Canonical (if (digitSpan cs).1.isEmpty then (Document.broken broken, [])
        else (l.document, (digitSpan cs).2)).1 := by
    split
    · exact canonical_nil rfl
    · exact canonical_document l
  unfold exponentPart
  split
  · dsimp only
    split
    · exact hdigits _ _ _
    · exact canonical_document l
  · exact canonical_document l

/-- **A number that is read is one that reading can give**, whatever follows it: whole part,
fraction and exponent are collected first and become a number only in `Literal.value?`. -/
theorem canonical_numberValue (negative : Bool) (cs : List Char) :
    Canonical (numberValue negative cs).1 := by
  unfold numberValue
  dsimp only
  split
  · exact canonical_nil rfl
  split
  · exact canonical_nil rfl
  split
  · split
    · exact canonical_nil rfl
    · exact canonical_exponentPart _ _
  · exact canonical_exponentPart _ _

theorem canonical_word {value : Document} (h : value.numbers = []) (ws cs : List Char) :
    Canonical (word value ws cs).1 := by
  induction ws generalizing cs with
  | nil => exact canonical_nil h
  | cons w ws ih =>
    cases cs with
    | nil => exact canonical_nil rfl
    | cons c cs =>
      rw [word]
      split
      · exact ih cs
      · exact canonical_nil rfl

theorem canonical_stringValue (cs : List Char) : Canonical (stringValue cs).1 := by
  rw [stringValue]
  split <;> exact canonical_nil rfl

/-- A document that is nested too deeply keeps the numbers it has. -/
theorem canonical_limitDepth {level : Nat} {d : Document} (h : Canonical d) :
    Canonical (limitDepth level d) := by
  rw [limitDepth]
  split
  · exact h
  · exact h

/-- **With this fuel, reading gives canonical numbers only.** -/
structure ReadsCanonical (fuel : Nat) : Prop where
  value : ∀ depth cs, Canonical (readValue fuel depth cs).1
  items : ∀ depth first cs, ∀ d ∈ (readItems fuel depth first cs).1, Canonical d
  members : ∀ depth first cs, ∀ e ∈ (readMembers fuel depth first cs).1, Canonical e.2

namespace ReadsCanonical

variable {fuel : Nat}

/-- A value is a literal, a text, a word, or made of items or members that are read with the
fuel that is left. -/
theorem value_succ (h : ReadsCanonical fuel) (depth : Nat) (cs : List Char) :
    Canonical (readValue (fuel + 1) depth cs).1 := by
  rw [readValue]
  split
  · exact canonical_nil rfl
  · exact canonical_word rfl _ _
  · exact canonical_word rfl _ _
  · exact canonical_word rfl _ _
  · exact canonical_stringValue _
  · exact canonical_numberValue _ _
  · refine canonical_limitDepth fun n hn => ?_
    obtain ⟨d, hd, hn⟩ := Document.mem_itemNumbers.mp hn
    exact h.items _ _ _ d hd n hn
  · refine canonical_limitDepth fun n hn => ?_
    obtain ⟨e, he, hn⟩ := Document.mem_memberNumbers.mp hn
    exact h.members _ _ _ e he n hn
  · split
    · exact canonical_numberValue _ _
    · exact canonical_nil rfl

/-- Items are values, read one after the other. -/
theorem items_succ (h : ReadsCanonical fuel) (depth : Nat) (first : Bool) (cs : List Char) :
    ∀ d ∈ (readItems (fuel + 1) depth first cs).1, Canonical d := by
  rw [readItems]
  split
  · exact List.forall_mem_nil _
  · exact List.forall_mem_nil _
  · dsimp only
    split
    · exact List.forall_mem_nil _
    · exact List.forall_mem_cons.mpr ⟨h.value _ _, h.items _ _ _⟩

/-- Members are values behind a key and a colon; where the colon is missing, the member is
broken and has no numbers. -/
theorem members_succ (h : ReadsCanonical fuel) (depth : Nat) (first : Bool) (cs : List Char) :
    ∀ e ∈ (readMembers (fuel + 1) depth first cs).1, Canonical e.2 := by
  rw [readMembers]
  split
  · exact List.forall_mem_nil _
  · exact List.forall_mem_nil _
  · dsimp only
    split
    · split
      · exact List.forall_mem_nil _
      · refine List.forall_mem_cons.mpr ⟨?_, h.members _ _ _⟩
        dsimp only
        split
        · exact h.value _ _
        · exact canonical_nil rfl
        · exact canonical_nil rfl
    · exact List.forall_mem_nil _
    · exact List.forall_mem_nil _

end ReadsCanonical

/-- **Reading gives canonical numbers only**, with any fuel. -/
theorem readsCanonical (fuel : Nat) : ReadsCanonical fuel := by
  induction fuel with
  | zero => exact ⟨fun _ _ => canonical_nil rfl, fun _ _ _ => nofun, fun _ _ _ => nofun⟩
  | succ fuel ih => exact ⟨ih.value_succ, ih.items_succ, ih.members_succ⟩

end JsonText

/-- What is read from a text is read from its document, with nothing behind it. -/
theorem Decoder.ofText_eq_ok {α : Type} {f : Decoder α} {s : String} {a : α} :
    Decoder.ofText f s = .ok a
      ↔ f (Document.ofText s).1 = .ok a ∧ (Document.ofText s).2 = false := by
  rw [Decoder.ofText]
  generalize Document.ofText s = r
  obtain ⟨d, trailing⟩ := r
  refine Answer.bind_eq_ok.trans ⟨?_, ?_⟩
  · rintro ⟨a', ha', h⟩
    cases trailing with
    | true => cases h
    | false =>
      cases h
      exact ⟨ha', rfl⟩
  · rintro ⟨ha, rfl⟩
    exact ⟨a, ha, rfl⟩

/-- **The integers in a document of a text fit 64 bits.** -/
theorem Document.canonical_ofText (s : String) : (Document.ofText s).1.Canonical :=
  (JsonText.readsCanonical (JsonText.fuelFor s.toList)).value 0 s.toList

end PlanSync
