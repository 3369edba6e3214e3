import PlanSync.SortedMap

/-!
# A map is what looking up gives

Every operation on maps is pinned down by what it does to `get?`, and two maps
that answer alike are equal (`SortedMap.ext_get?`). Whoever reasons about maps
therefore never opens an entry list.

The facts about entry lists come first. Looking up needs no order, so most of
them hold of any list; order enters where a list must be the only one with its
answers, and where an entry must be the one that is found.
-/

namespace PlanSync

/-- What is sorted by keys is in the order of the keys. -/
theorem pairwise_mergeSort_by {α κ : Type} [LE κ] [DecidableLE κ] [Std.IsLinearOrder κ]
    (f : α → κ) (xs : List α) :
    (xs.mergeSort fun a b => f a ≤ f b).Pairwise fun a b => f a ≤ f b := by
  refine (List.pairwise_mergeSort (fun a b c hab hbc => ?_) (fun a b => ?_) xs).imp
    of_decide_eq_true
  · exact decide_eq_true (Std.le_trans (of_decide_eq_true hab) (of_decide_eq_true hbc))
  · rw [Bool.or_eq_true, decide_eq_true_eq, decide_eq_true_eq]
    exact Std.le_total

/-! ## Looking up in entry lists -/

namespace Entries

variable {κ α β : Type} [DecidableEq κ]

theorem lookup_cons (k : κ) (e : κ × α) (xs : List (κ × α)) :
    (e :: xs).lookup k = if k = e.1 then some e.2 else xs.lookup k := by
  obtain ⟨k', a⟩ := e
  rw [List.lookup_cons]
  by_cases hk : k = k'
  · rw [if_pos hk, beq_iff_eq.mpr hk]
  · rw [if_neg hk, beq_eq_false_iff_ne.mpr hk]

/-- What is found is an entry. -/
theorem mem_of_lookup {k : κ} {a : α} {xs : List (κ × α)} (h : xs.lookup k = some a) :
    (k, a) ∈ xs := by
  obtain ⟨before, after, rfl, -⟩ := List.lookup_eq_some_iff.mp h
  exact List.mem_append_cons_self

theorem lookup_eq_none_iff_not_mem {k : κ} {xs : List (κ × α)} :
    xs.lookup k = none ↔ k ∉ xs.map Prod.fst := by
  rw [List.lookup_eq_none_iff]
  constructor
  · intro h hmem
    obtain ⟨e, he, rfl⟩ := List.mem_map.mp hmem
    exact bne_iff_ne.mp (h e he) rfl
  · exact fun h e he => bne_iff_ne.mpr fun heq => h (heq ▸ List.mem_map_of_mem he)

/-- Changing the values changes what is found. -/
theorem lookup_map (f : α → β) (k : κ) (xs : List (κ × α)) :
    List.lookup k (xs.map fun e => (e.1, f e.2)) = (List.lookup k xs).map f := by
  induction xs with
  | nil => rfl
  | cons e xs ih =>
    rw [List.map_cons, lookup_cons, lookup_cons, ih]
    split <;> rfl

/-- A test on keys hides the keys it refuses. -/
theorem lookup_filter (p : κ → Bool) (k : κ) (xs : List (κ × α)) :
    List.lookup k (xs.filter fun e => p e.1) = if p k then List.lookup k xs else none := by
  induction xs with
  | nil => simp
  | cons e xs ih =>
    rw [List.filter_cons]
    by_cases hk : k = e.1
    · subst hk
      by_cases hp : p e.1 = true
      · simp [hp, lookup_cons]
      · simp [hp, ih]
    · by_cases hp : p e.1 = true
      · simp [hp, lookup_cons, hk, ih]
      · simp [hp, lookup_cons, hk, ih]

theorem lookup_erase (k l : κ) (xs : List (κ × α)) :
    List.lookup l (erase k xs) = if l = k then none else List.lookup l xs := by
  have h := lookup_filter (fun j => decide ¬ j = k) l xs
  unfold erase
  rw [h]
  by_cases hl : l = k <;> simp [hl]

theorem lookup_insert [LT κ] [DecidableLT κ] (k l : κ) (a : α) (xs : List (κ × α)) :
    List.lookup l (insert k a xs) = if l = k then some a else List.lookup l xs := by
  induction xs with
  | nil => exact lookup_cons l (k, a) []
  | cons e xs ih =>
    obtain ⟨k', b⟩ := e
    simp only [insert]
    split
    · next he =>
      subst he
      simp only [lookup_cons]
      split <;> rfl
    · split
      · exact lookup_cons l (k, a) _
      · next he _ =>
        simp only [lookup_cons, ih]
        by_cases hl : l = k'
        · rw [if_pos hl, if_neg fun h => he (h.symm.trans hl), if_pos hl]
        · rw [if_neg hl, if_neg hl]

/-- Of the pairs that are set in turn the last one with a key is found. -/
theorem lookup_foldl_insert [LT κ] [DecidableLT κ] (k : κ) (xs acc : List (κ × α)) :
    List.lookup k (xs.foldl (fun acc e => insert e.1 e.2 acc) acc)
      = (List.lookup k xs.reverse).or (List.lookup k acc) := by
  induction xs generalizing acc with
  | nil => rfl
  | cons e xs ih =>
    rw [List.foldl_cons, ih, lookup_insert, List.reverse_cons, List.lookup_append, lookup_cons,
      Option.or_assoc]
    refine congrArg _ ?_
    split <;> rfl

theorem lookup_reverse {xs : List (κ × α)} (h : (xs.map Prod.fst).Nodup) (k : κ) :
    List.lookup k xs.reverse = List.lookup k xs := by
  induction xs with
  | nil => rfl
  | cons e xs ih =>
    rw [List.map_cons, List.nodup_cons] at h
    rw [List.reverse_cons, List.lookup_append, ih h.2, lookup_cons, lookup_cons]
    split
    · next he =>
      rw [lookup_eq_none_iff_not_mem.mpr (he ▸ h.1)]
      rfl
    · simp

/-! ### Sorted lists -/

section Ordered

variable [LE κ] [LT κ] [Std.IsLinearOrder κ] [Std.LawfulOrderLT κ]

omit [DecidableEq κ] [Std.IsLinearOrder κ] in
theorem Sorted.nodup {xs : List (κ × α)} (h : Sorted xs) : (xs.map Prod.fst).Nodup := by
  refine List.pairwise_map.mpr (h.imp fun {a b} hab heq => ?_)
  rw [heq] at hab
  exact Std.lt_irrefl hab

omit [LE κ] [Std.IsLinearOrder κ] [Std.LawfulOrderLT κ] [LT κ] in
/-- With distinct keys every entry is found. -/
theorem lookup_of_mem {xs : List (κ × α)} (h : (xs.map Prod.fst).Nodup) {e : κ × α}
    (he : e ∈ xs) : List.lookup e.1 xs = some e.2 := by
  induction xs with
  | nil => cases he
  | cons x xs ih =>
    rw [List.map_cons, List.nodup_cons] at h
    rw [lookup_cons]
    rcases List.mem_cons.mp he with rfl | he
    · exact if_pos rfl
    · have hne : ¬ e.1 = x.1 := fun hx => h.1 (List.mem_map.mpr ⟨e, he, hx⟩)
      rw [if_neg hne]
      exact ih h.2 he

/-- **A sorted list is what looking up in it gives.** -/
theorem Sorted.ext {xs ys : List (κ × α)} (hx : Sorted xs) (hy : Sorted ys)
    (h : ∀ k, List.lookup k xs = List.lookup k ys) : xs = ys := by
  induction xs generalizing ys with
  | nil =>
    cases ys with
    | nil => rfl
    | cons y ys =>
      have := h y.1
      simp [lookup_cons] at this
  | cons x xs ih =>
    cases ys with
    | nil =>
      have := h x.1
      simp [lookup_cons] at this
    | cons y ys =>
      have hx' := List.pairwise_cons.mp hx
      have hy' := List.pairwise_cons.mp hy
      -- the least keys agree, as each is found in the other list
      have hkey : x.1 = y.1 := by
        have h₁ : (x.1, x.2) ∈ y :: ys := mem_of_lookup ((h x.1).symm.trans (by simp [lookup_cons]))
        have h₂ : (y.1, y.2) ∈ x :: xs := mem_of_lookup ((h y.1).trans (by simp [lookup_cons]))
        rcases List.mem_cons.mp h₁ with e | m₁
        · exact congrArg Prod.fst e
        · rcases List.mem_cons.mp h₂ with e | m₂
          · exact (congrArg Prod.fst e).symm
          · exact absurd (Std.lt_trans (hx'.1 _ m₂) (hy'.1 _ m₁)) Std.lt_irrefl
      have hval : x.2 = y.2 := by
        have := h x.1
        rw [lookup_cons, lookup_cons, if_pos rfl, if_pos hkey] at this
        exact Option.some.inj this
      have hhead : x = y := Prod.ext hkey hval
      subst hhead
      -- in the tails the common head key is not found, and any other key
      -- is found as in the whole lists
      refine congrArg _ (ih hx'.2 hy'.2 fun k => ?_)
      by_cases hk : k = x.1
      · subst hk
        have absent : ∀ {zs : List (κ × α)}, (∀ z ∈ zs, x.1 < z.1) → List.lookup x.1 zs = none :=
          fun {zs} hz => lookup_eq_none_iff_not_mem.mpr fun hm => by
            obtain ⟨z, hz', he⟩ := List.mem_map.mp hm
            exact Std.lt_irrefl (he ▸ hz z hz')
        rw [absent hx'.1, absent hy'.1]
      · have := h k
        rwa [lookup_cons, lookup_cons, if_neg hk, if_neg hk] at this

variable [DecidableLT κ]

/-- Setting pairs in turn keeps the keys strictly increasing. -/
theorem Sorted.foldl_insert {acc : List (κ × α)} (h : Sorted acc) (xs : List (κ × α)) :
    Sorted (xs.foldl (fun acc e => Entries.insert e.1 e.2 acc) acc) := by
  induction xs generalizing acc with
  | nil => exact h
  | cons e xs ih => exact ih h.insert

/-- Setting the entries of a sorted list in turn gives the list back. -/
theorem Sorted.foldl_insert_nil {xs : List (κ × α)} (h : Sorted xs) :
    xs.foldl (fun acc e => Entries.insert e.1 e.2 acc) [] = xs := by
  refine Sorted.ext (Sorted.foldl_insert .nil xs) h fun k => ?_
  rw [lookup_foldl_insert, lookup_reverse h.nodup, List.lookup_nil, Option.or_none]

end Ordered

end Entries

/-! ## Looking up in maps -/

namespace SortedMap

variable {κ α β : Type} [LE κ] [LT κ] [DecidableLT κ] [DecidableEq κ]
  [Std.IsLinearOrder κ] [Std.LawfulOrderLT κ]

omit [DecidableLT κ] in
/-- **Maps that answer alike are equal.** -/
theorem ext_get? {m n : SortedMap κ α} (h : ∀ k, m.get? k = n.get? k) : m = n :=
  ext (Entries.Sorted.ext m.sorted n.sorted h)

omit [LE κ] [DecidableLT κ] [Std.IsLinearOrder κ] [Std.LawfulOrderLT κ] in
@[simp] theorem get?_empty (k : κ) : (empty : SortedMap κ α).get? k = none := rfl

@[simp] theorem get?_insert (m : SortedMap κ α) (k l : κ) (a : α) :
    (m.insert k a).get? l = if l = k then some a else m.get? l :=
  Entries.lookup_insert k l a m.entries

omit [LE κ] [DecidableLT κ] [Std.IsLinearOrder κ] [Std.LawfulOrderLT κ] in
@[simp] theorem get?_erase (m : SortedMap κ α) (k l : κ) :
    (m.erase k).get? l = if l = k then none else m.get? l :=
  Entries.lookup_erase k l m.entries

omit [DecidableLT κ] [Std.IsLinearOrder κ] in
theorem mem_entries_iff {m : SortedMap κ α} {e : κ × α} :
    e ∈ m.entries ↔ m.get? e.1 = some e.2 :=
  ⟨Entries.lookup_of_mem m.sorted.nodup, Entries.mem_of_lookup⟩

omit [LE κ] [DecidableLT κ] [Std.IsLinearOrder κ] [Std.LawfulOrderLT κ] in
theorem get?_eq_none_iff {m : SortedMap κ α} {k : κ} : m.get? k = none ↔ k ∉ m.keys :=
  Entries.lookup_eq_none_iff_not_mem

omit [LE κ] [DecidableLT κ] [Std.IsLinearOrder κ] [Std.LawfulOrderLT κ] in
theorem contains_iff {m : SortedMap κ α} {k : κ} : m.contains k = true ↔ ∃ a, m.get? k = some a :=
  Option.isSome_iff_exists

omit [LE κ] [DecidableLT κ] [Std.IsLinearOrder κ] [Std.LawfulOrderLT κ] in
theorem contains_eq_false_iff {m : SortedMap κ α} {k : κ} :
    m.contains k = false ↔ m.get? k = none := by
  rw [contains, Option.isSome_eq_false_iff, Option.isNone_iff_eq_none]

omit [LE κ] [DecidableLT κ] [Std.IsLinearOrder κ] [Std.LawfulOrderLT κ] in
theorem mem_keys_iff {m : SortedMap κ α} {k : κ} : k ∈ m.keys ↔ ∃ a, m.get? k = some a := by
  rw [← Option.isSome_iff_exists, Option.isSome_iff_ne_none, ne_eq, get?_eq_none_iff,
    Decidable.not_not]

omit [DecidableLT κ] [DecidableEq κ] [Std.IsLinearOrder κ] in
theorem nodup_keys (m : SortedMap κ α) : m.keys.Nodup := m.sorted.nodup

omit [DecidableLT κ] in
/-- **Maps that answer alike under some keys** have the same of these. -/
theorem keys_filter_eq {m n : SortedMap κ α} {p : κ → Bool}
    (h : ∀ k, p k = true → m.get? k = n.get? k) : m.keys.filter p = n.keys.filter p := by
  have hentries : m.entries.filter (fun e => p e.1) = n.entries.filter fun e => p e.1 := by
    refine Entries.Sorted.ext (m.sorted.filter _) (n.sorted.filter _) fun k => ?_
    rw [Entries.lookup_filter, Entries.lookup_filter]
    by_cases hk : p k = true
    · rw [if_pos hk, if_pos hk]
      exact h k hk
    · rw [if_neg hk, if_neg hk]
  rw [keys, keys, List.filter_map, List.filter_map]
  exact congrArg (List.map Prod.fst) hentries

/-- Of the pairs that are set in turn the last one with a key counts. -/
theorem get?_insertAll (m : SortedMap κ α) (xs : List (κ × α)) (k : κ) :
    (m.insertAll xs).get? k = (List.lookup k xs.reverse).or (m.get? k) := by
  have h : (m.insertAll xs).entries
      = xs.foldl (fun acc e => Entries.insert e.1 e.2 acc) m.entries := by
    induction xs generalizing m with
    | nil => rfl
    | cons e xs ih => exact ih (m.insert e.1 e.2)
  rw [get?, h]
  exact Entries.lookup_foldl_insert k xs m.entries

theorem get?_ofList {xs : List (κ × α)} (h : (xs.map Prod.fst).Nodup) (k : κ) :
    (ofList xs).get? k = List.lookup k xs := by
  rw [ofList, get?_insertAll, Entries.lookup_reverse h, get?_empty, Option.or_none]

/-- The upper map decides where it has an entry. -/
@[simp] theorem get?_overlay (m n : SortedMap κ α) (k : κ) :
    (m.overlay n).get? k = (n.get? k).or (m.get? k) := by
  rw [overlay, get?_insertAll, Entries.lookup_reverse n.sorted.nodup]
  rfl

omit [LE κ] [DecidableLT κ] [Std.IsLinearOrder κ] [Std.LawfulOrderLT κ] in
@[simp] theorem get?_eraseAll (m : SortedMap κ α) (ks : List κ) (k : κ) :
    (m.eraseAll ks).get? k = if k ∈ ks then none else m.get? k := by
  induction ks generalizing m with
  | nil => simp [eraseAll]
  | cons l ks ih =>
    have h : m.eraseAll (l :: ks) = (m.erase l).eraseAll ks := rfl
    rw [h, ih, get?_erase]
    by_cases hl : k = l <;> by_cases hm : k ∈ ks <;> simp [hl, hm]

omit [LE κ] [DecidableLT κ] [DecidableEq κ] [Std.IsLinearOrder κ] [Std.LawfulOrderLT κ] in
theorem isEmpty_iff {m : SortedMap κ α} : m.isEmpty = true ↔ m = empty := by
  refine ⟨fun h => ext (List.isEmpty_iff.mp h), fun h => h ▸ rfl⟩

end SortedMap

end PlanSync
