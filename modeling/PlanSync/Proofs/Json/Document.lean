import PlanSync.Json.Document
import PlanSync.Proofs.Answer
import PlanSync.Proofs.SortedMap

/-!
# Values as documents

A value taken as a document reads as itself with its members in key order
(`Document.toJson_ofJson`), and passing over it never fails. Sorting members is
idempotent, and reading always gives sorted members. So a value that was read
is *tidy*: storing it sorted changes nothing.
-/

namespace PlanSync

namespace Json

/-! ## Tidy values -/

/-- **Tidy**: all members stand in key order, each key once. -/
def Tidy (j : Json) : Prop := j.sortKeys = j

theorem sortMembers_eq_map (xs : List (String × Json)) :
    sortMembers xs = xs.map fun e => (e.1, e.2.sortKeys) := by
  induction xs with
  | nil => rfl
  | cons e xs ih => rw [sortMembers, ih, List.map_cons]

theorem sortItems_eq_map (xs : List Json) : sortItems xs = xs.map sortKeys := by
  induction xs with
  | nil => rfl
  | cons x xs ih => rw [sortItems, ih, List.map_cons]

/-- The members that setting in turn leaves are among those that were set. -/
theorem mem_setAll {e : String × Json} {xs : List (String × Json)} (h : e ∈ setAll xs) :
    e ∈ xs := by
  have aux : ∀ (xs acc : List (String × Json)),
      e ∈ xs.foldl (fun acc e => Entries.insert e.1 e.2 acc) acc → e ∈ xs ∨ e ∈ acc := by
    intro xs
    induction xs with
    | nil => exact fun acc h => .inr h
    | cons x xs ih =>
      intro acc h
      rcases ih _ h with h | h
      · exact .inl (List.mem_cons_of_mem _ h)
      · rcases Entries.mem_insert h with rfl | h
        · exact .inl List.mem_cons_self
        · exact .inr h
  rcases aux xs [] h with h | h
  · exact h
  · cases h

/-- What setting in turn leaves is in key order. -/
theorem sorted_setAll (xs : List (String × Json)) : Entries.Sorted (setAll xs) :=
  Entries.Sorted.foldl_insert .nil xs

/-- As long as no key comes twice, setting in turn loses nothing. -/
theorem lookup_setAll {xs : List (String × Json)} (h : (xs.map Prod.fst).Nodup) (k : String) :
    List.lookup k (setAll xs) = List.lookup k xs := by
  rw [setAll, Entries.lookup_foldl_insert, Entries.lookup_reverse h, List.lookup_nil,
    Option.or_none]

/-- Members that are sorted and tidy make a tidy object. -/
theorem tidy_object {xs : List (String × Json)} (hs : Entries.Sorted xs)
    (h : ∀ e ∈ xs, e.2.Tidy) : (object xs).Tidy := by
  have hm : sortMembers xs = xs := by
    rw [sortMembers_eq_map]
    refine Eq.trans (List.map_congr_left fun e he => ?_) (List.map_id xs)
    exact Prod.ext rfl (h e he)
  rw [Tidy, sortKeys, hm]
  exact congrArg object hs.foldl_insert_nil

/-- Setting tidy members in turn makes a tidy object. -/
theorem tidy_object_setAll {xs : List (String × Json)} (h : ∀ e ∈ xs, e.2.Tidy) :
    (object (setAll xs)).Tidy :=
  tidy_object (sorted_setAll xs) fun e he => h e (mem_setAll he)

/-- Items have no order to be kept; an array is tidy if they are. -/
theorem tidy_array {xs : List Json} (h : ∀ x ∈ xs, x.Tidy) : (array xs).Tidy := by
  rw [Tidy, sortKeys, sortItems_eq_map]
  exact congrArg array ((List.map_congr_left h).trans (List.map_id xs))

mutual

/-- **Sorting makes tidy.** -/
theorem tidy_sortKeys : ∀ j : Json, j.sortKeys.Tidy
  | .null | .bool _ | .number _ | .string _ => rfl
  | .array xs => tidy_array (tidy_sortItems xs)
  | .object xs => tidy_object_setAll (tidy_sortMembers xs)

theorem tidy_sortItems : ∀ (xs : List Json), ∀ x ∈ sortItems xs, x.Tidy
  | [], x, h => by cases h
  | y :: ys, x, h => by
    rcases List.mem_cons.mp h with rfl | h
    · exact tidy_sortKeys y
    · exact tidy_sortItems ys x h

theorem tidy_sortMembers : ∀ (xs : List (String × Json)), ∀ e ∈ sortMembers xs, e.2.Tidy
  | [], e, h => by cases h
  | (_, y) :: ys, e, h => by
    rcases List.mem_cons.mp h with rfl | h
    · exact tidy_sortKeys y
    · exact tidy_sortMembers ys e h

end

end Json

namespace Document

/-! ## Reading a value back -/

mutual

/-- **A value reads as itself with its members sorted.** -/
theorem toJson_ofJson : ∀ j : Json, toJson (ofJson j) = .ok j.sortKeys
  | .null | .bool _ | .number _ | .string _ => rfl
  | .array xs => by rw [ofJson, toJson, itemsToJson_ofItems xs]; rfl
  | .object xs => by rw [ofJson, toJson, membersToJson_ofMembers xs]; rfl

theorem itemsToJson_ofItems : ∀ xs : List Json, itemsToJson (ofItems xs) = .ok (Json.sortItems xs)
  | [] => rfl
  | x :: xs => by rw [ofItems, itemsToJson, toJson_ofJson x, itemsToJson_ofItems xs]; rfl

theorem membersToJson_ofMembers :
    ∀ xs : List (String × Json), membersToJson (ofMembers xs) = .ok (Json.sortMembers xs)
  | [] => rfl
  | (_, x) :: xs => by
    rw [ofMembers, membersToJson, toJson_ofJson x, membersToJson_ofMembers xs]; rfl

end

/-- **A tidy value reads as itself.** -/
theorem toJson_ofJson_of_tidy {j : Json} (h : j.Tidy) : toJson (ofJson j) = .ok j := by
  rw [toJson_ofJson, h]

mutual

/-- Passing over a value never fails. -/
theorem skip_ofJson : ∀ j : Json, skip (ofJson j) = .ok ()
  | .null | .bool _ | .number _ | .string _ => rfl
  | .array xs => by rw [ofJson, skip, skipItems_ofItems xs]; rfl
  | .object xs => by rw [ofJson, skip, skipMembers_ofMembers xs]; rfl

theorem skipItems_ofItems : ∀ xs : List Json, skipItems (ofItems xs) = .ok ()
  | [] => rfl
  | x :: xs => by rw [ofItems, skipItems, skip_ofJson x, skipItems_ofItems xs]; rfl

theorem skipMembers_ofMembers : ∀ xs : List (String × Json), skipMembers (ofMembers xs) = .ok ()
  | [] => rfl
  | (_, x) :: xs => by rw [ofMembers, skipMembers, skip_ofJson x, skipMembers_ofMembers xs]; rfl

end

/-! ## What reading gives -/

mutual

/-- **Reading gives tidy values.** -/
theorem tidy_of_toJson : ∀ {d : Document} {j : Json}, toJson d = .ok j → j.Tidy
  | .null, _, h | .bool _, _, h | .number _, _, h | .string _, _, h => by cases h; rfl
  | .unreadable, _, h | .tooDeep _, _, h | .broken _, _, h => nomatch h
  | .array items close, _, h => by
    obtain ⟨xs, hxs, h⟩ := Answer.bind_eq_ok.mp h
    obtain ⟨_, -, h⟩ := Answer.bind_eq_ok.mp h
    cases h
    exact Json.tidy_array (tidy_of_itemsToJson hxs)
  | .object members close, _, h => by
    obtain ⟨xs, hxs, h⟩ := Answer.bind_eq_ok.mp h
    obtain ⟨_, -, h⟩ := Answer.bind_eq_ok.mp h
    cases h
    exact Json.tidy_object_setAll (tidy_of_membersToJson hxs)

/-- Each item was read, so it is tidy. -/
theorem tidy_of_itemsToJson : ∀ {ds : List Document} {xs : List Json},
    itemsToJson ds = .ok xs → ∀ x ∈ xs, x.Tidy
  | [], _, h => by cases h; intro _ h; cases h
  | d :: ds, _, h => by
    obtain ⟨y, hy, h⟩ := Answer.bind_eq_ok.mp h
    obtain ⟨ys, hys, h⟩ := Answer.bind_eq_ok.mp h
    cases h
    exact List.forall_mem_cons.mpr ⟨tidy_of_toJson hy, tidy_of_itemsToJson hys⟩

/-- Each member was read, so its value is tidy; their order is left to the object. -/
theorem tidy_of_membersToJson : ∀ {ds : List (Option String × Document)}
    {xs : List (String × Json)}, membersToJson ds = .ok xs → ∀ e ∈ xs, e.2.Tidy
  | [], _, h => by cases h; intro _ h; cases h
  | (none, _) :: _, _, h => nomatch h
  | (some k, d) :: ds, _, h => by
    obtain ⟨y, hy, h⟩ := Answer.bind_eq_ok.mp h
    obtain ⟨ys, hys, h⟩ := Answer.bind_eq_ok.mp h
    cases h
    exact List.forall_mem_cons.mpr ⟨tidy_of_toJson hy, tidy_of_membersToJson hys⟩

end

/-- Only `null` reads as `null`. -/
theorem eq_null_of_toJson {d : Document} (h : toJson d = .ok .null) : d = .null := by
  cases d with
  | null => rfl
  | array items close =>
    obtain ⟨_, -, h⟩ := Answer.bind_eq_ok.mp h
    obtain ⟨_, -, h⟩ := Answer.bind_eq_ok.mp h
    cases h
  | object members close =>
    obtain ⟨_, -, h⟩ := Answer.bind_eq_ok.mp h
    obtain ⟨_, -, h⟩ := Answer.bind_eq_ok.mp h
    cases h
  | _ => cases h

end Document

end PlanSync
