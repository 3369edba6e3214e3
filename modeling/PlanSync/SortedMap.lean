/-!
# Maps with one form

A finite map is the list of its entries in strictly increasing key order. Two
maps with the same entries are then the same value, so "the same labels" is
plain equality, and a map is printed in the order it is kept in.

The operations are those of a dictionary – look up, insert, erase, restrict,
overlay – and each is pinned down by what it does to `get?`.

Keys may be lists of names. These are ordered like words in a dictionary, name by
name, so that a list comes before all its continuations.
-/

namespace PlanSync

/-! ## Sorted association lists -/

namespace Entries

variable {κ α : Type}

/-- Strictly increasing keys, hence distinct ones. -/
abbrev Sorted [LT κ] (xs : List (κ × α)) : Prop :=
  xs.Pairwise (fun a b => a.1 < b.1)

/-- The value at a key, for programs around the library. -/
@[deprecated List.lookup (since := "2026-11-20")]
abbrev find? [DecidableEq κ] (k : κ) (xs : List (κ × α)) : Option α := xs.lookup k

/-- Set the value at a key, keeping the order. -/
def insert [LT κ] [DecidableLT κ] [DecidableEq κ] (k : κ) (a : α) :
    List (κ × α) → List (κ × α)
  | [] => [(k, a)]
  | (k', b) :: xs =>
    if k = k' then (k, a) :: xs
    else if k < k' then (k, a) :: (k', b) :: xs
    else (k', b) :: insert k a xs

/-- Remove a key. -/
def erase [DecidableEq κ] (k : κ) (xs : List (κ × α)) : List (κ × α) :=
  xs.filter (fun e => ¬ e.1 = k)

theorem mem_insert [LT κ] [DecidableLT κ] [DecidableEq κ] {k : κ} {a : α}
    {xs : List (κ × α)} {e : κ × α} (h : e ∈ insert k a xs) :
    e = (k, a) ∨ e ∈ xs := by
  induction xs with
  | nil => exact .inl (by simpa [insert] using h)
  | cons x xs ih =>
    rcases x with ⟨k', b⟩
    simp only [insert] at h
    split at h
    · rcases List.mem_cons.mp h with h | h
      · exact .inl h
      · exact .inr (List.mem_cons_of_mem _ h)
    · split at h
      · rcases List.mem_cons.mp h with h | h
        · exact .inl h
        · exact .inr h
      · rcases List.mem_cons.mp h with h | h
        · exact .inr (h ▸ List.mem_cons_self)
        · exact (ih h).imp_right (List.mem_cons_of_mem _)

section Ordered

variable [LE κ] [LT κ] [DecidableLT κ] [DecidableEq κ]
  [Std.IsLinearOrder κ] [Std.LawfulOrderLT κ]

/-- Insertion keeps the keys strictly increasing. -/
theorem Sorted.insert {k : κ} {a : α} {xs : List (κ × α)} (h : Sorted xs) :
    Sorted (insert k a xs) := by
  induction xs with
  | nil => simp [Entries.insert]
  | cons x xs ih =>
    rcases x with ⟨k', b⟩
    have hx := List.pairwise_cons.mp h
    simp only [Entries.insert]
    split
    · next he => subst he; exact List.pairwise_cons.mpr hx
    · next hne =>
      split
      · next hlt =>
        refine List.pairwise_cons.mpr ⟨fun e he => ?_, h⟩
        rcases List.mem_cons.mp he with rfl | he
        · exact hlt
        · exact Std.lt_trans hlt (hx.1 e he)
      · next hnlt =>
        have hgt : k' < k := by
          have hle : k' ≤ k := Std.not_lt.mp hnlt
          exact Std.lt_of_le_of_ne hle (fun h => hne h.symm)
        refine List.pairwise_cons.mpr ⟨fun e he => ?_, ih hx.2⟩
        rcases mem_insert he with rfl | he
        · exact hgt
        · exact hx.1 e he

omit [DecidableLT κ] [Std.IsLinearOrder κ] [LE κ] [Std.LawfulOrderLT κ] in
/-- Erasing keeps the keys strictly increasing. -/
theorem Sorted.erase {k : κ} {xs : List (κ × α)} (h : Sorted xs) :
    Sorted (erase k xs) :=
  h.filter _

end Ordered

end Entries

/-! ## The map type -/

/-- A finite map: its entries in strictly increasing key order. -/
structure SortedMap (κ α : Type) [LT κ] where
  /-- The entries, smallest key first. -/
  entries : List (κ × α)
  sorted : Entries.Sorted entries

namespace SortedMap

variable {κ α β : Type} [LE κ] [LT κ] [DecidableLT κ] [DecidableEq κ]
  [Std.IsLinearOrder κ] [Std.LawfulOrderLT κ]

omit [LE κ] [DecidableLT κ] [DecidableEq κ] [Std.IsLinearOrder κ]
  [Std.LawfulOrderLT κ] in
@[ext] theorem ext {m n : SortedMap κ α} (h : m.entries = n.entries) : m = n := by
  cases m; cases n; cases h; rfl

instance [DecidableEq α] : DecidableEq (SortedMap κ α) := fun m n =>
  decidable_of_iff (m.entries = n.entries) ⟨ext, fun h => h ▸ rfl⟩

/-- The map without entries. -/
def empty : SortedMap κ α := ⟨[], .nil⟩

instance : Inhabited (SortedMap κ α) := ⟨empty⟩

instance : EmptyCollection (SortedMap κ α) := ⟨empty⟩

/-- The value at a key. -/
def get? (m : SortedMap κ α) (k : κ) : Option α := m.entries.lookup k

/-- Whether a key has a value. -/
def contains (m : SortedMap κ α) (k : κ) : Bool := (m.get? k).isSome

/-- Set the value at a key. -/
def insert (m : SortedMap κ α) (k : κ) (a : α) : SortedMap κ α :=
  ⟨Entries.insert k a m.entries, m.sorted.insert⟩

/-- Remove a key. -/
def erase (m : SortedMap κ α) (k : κ) : SortedMap κ α :=
  ⟨Entries.erase k m.entries, m.sorted.erase⟩

/-- The entries a list of pairs leaves when each pair is set in turn: of two
pairs with one key the later one counts. -/
def insertAll (m : SortedMap κ α) (xs : List (κ × α)) : SortedMap κ α :=
  xs.foldl (fun m e => m.insert e.1 e.2) m

/-- The map a list of pairs describes. -/
def ofList (xs : List (κ × α)) : SortedMap κ α := insertAll empty xs

/-- The entries of `n` set over those of `m`. -/
def overlay (m n : SortedMap κ α) : SortedMap κ α := m.insertAll n.entries

/-- Remove every key of a list. -/
def eraseAll (m : SortedMap κ α) (ks : List κ) : SortedMap κ α :=
  ks.foldl erase m

/-- The keys, smallest first. -/
def keys (m : SortedMap κ α) : List κ := m.entries.map Prod.fst

/-- The values, in key order. -/
def values (m : SortedMap κ α) : List α := m.entries.map Prod.snd

/-- The number of entries. -/
def size (m : SortedMap κ α) : Nat := m.entries.length

/-- Whether there is no entry. -/
def isEmpty (m : SortedMap κ α) : Bool := m.entries.isEmpty

/-- The entries a test accepts. -/
def filter (m : SortedMap κ α) (p : κ → α → Bool) : SortedMap κ α :=
  ⟨m.entries.filter (fun e => p e.1 e.2), m.sorted.filter _⟩

end SortedMap

/-! ## The order of names -/

instance namesLE : LE (List String) := List.instLE

instance namesDecidableLE : DecidableLE (List String) :=
  inferInstanceAs (@DecidableLE (List String) List.instLE)

instance namesLinearOrder : Std.IsLinearOrder (List String) :=
  inferInstanceAs (@Std.IsLinearOrder (List String) List.instLE)

instance namesLawfulOrderLT : Std.LawfulOrderLT (List String) :=
  inferInstanceAs (@Std.LawfulOrderLT (List String) List.instLT List.instLE)

end PlanSync
