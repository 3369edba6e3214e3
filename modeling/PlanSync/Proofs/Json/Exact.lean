import PlanSync.Proofs.Json.Text
import PlanSync.Proofs.PullRequest

/-!
# Values that are read back exactly

A value that has no doubles and is not nested too deep is read back as it was written
(`JsonText.isReadBack`). An integer that fits a word is written in digits that stand for it,
the first of which is no zero, and the reader takes all of them
(`JsonText.numberValue_toDigits`); a negative one is no smaller than the smallest signed word.

Doubles are left out. Their text may well read as another number.
-/

namespace PlanSync

namespace Json

/-! ## The numbers in a value -/

mutual

/-- The numbers in a value. -/
def numbers : Json → List JsonNumber
  | number n => [n]
  | array xs => itemNumbers xs
  | object xs => memberNumbers xs
  | _ => []

def itemNumbers : List Json → List JsonNumber
  | [] => []
  | x :: xs => numbers x ++ itemNumbers xs

def memberNumbers : List (String × Json) → List JsonNumber
  | [] => []
  | (_, x) :: xs => numbers x ++ memberNumbers xs

end

theorem mem_itemNumbers {n : JsonNumber} {xs : List Json} :
    n ∈ itemNumbers xs ↔ ∃ x ∈ xs, n ∈ x.numbers := by
  induction xs with
  | nil => simp [itemNumbers]
  | cons x xs ih => simp [itemNumbers, ih]

theorem mem_memberNumbers {n : JsonNumber} {xs : List (String × Json)} :
    n ∈ memberNumbers xs ↔ ∃ e ∈ xs, n ∈ e.2.numbers := by
  induction xs with
  | nil => simp [memberNumbers]
  | cons e xs ih => simp [memberNumbers, ih]

/-- **Exact**: without doubles, and with integers of 64 bits only. -/
def Exact (j : Json) : Prop := ∀ n ∈ j.numbers, ∃ i, n = .int i ∧ JsonNumber.fits i = true

theorem exact_number {n : JsonNumber} :
    (number n).Exact ↔ ∃ i, n = .int i ∧ JsonNumber.fits i = true := by
  simp [Exact, numbers]

theorem exact_array {xs : List Json} : (array xs).Exact ↔ ∀ x ∈ xs, x.Exact := by
  simp only [Exact, numbers, mem_itemNumbers]
  exact ⟨fun h x hx n hn => h n ⟨x, hx, hn⟩, fun h n ⟨x, hx, hn⟩ => h x hx n hn⟩

theorem exact_object {xs : List (String × Json)} : (object xs).Exact ↔ ∀ e ∈ xs, e.2.Exact := by
  simp only [Exact, numbers, mem_memberNumbers]
  exact ⟨fun h e he n hn => h n ⟨e, he, hn⟩, fun h n ⟨e, he, hn⟩ => h e he n hn⟩

/-! ## Nesting -/

mutual

/-- **How deep a value is nested**: the number of containers around its innermost place. -/
def nesting : Json → Nat
  | array xs => itemNesting xs + 1
  | object xs => memberNesting xs + 1
  | _ => 0

def itemNesting : List Json → Nat
  | [] => 0
  | x :: xs => max (nesting x) (itemNesting xs)

def memberNesting : List (String × Json) → Nat
  | [] => 0
  | (_, x) :: xs => max (nesting x) (memberNesting xs)

end

theorem itemNesting_le_iff {n : Nat} {xs : List Json} :
    itemNesting xs ≤ n ↔ ∀ x ∈ xs, x.nesting ≤ n := by
  induction xs with
  | nil => simp [itemNesting]
  | cons x xs ih => simp only [itemNesting, Nat.max_le, ih, List.forall_mem_cons]

theorem memberNesting_le_iff {n : Nat} {xs : List (String × Json)} :
    memberNesting xs ≤ n ↔ ∀ e ∈ xs, e.2.nesting ≤ n := by
  induction xs with
  | nil => simp [memberNesting]
  | cons e xs ih => simp only [memberNesting, Nat.max_le, ih, List.forall_mem_cons]

theorem nesting_array_le_iff {n : Nat} {xs : List Json} :
    (array xs).nesting ≤ n + 1 ↔ ∀ x ∈ xs, x.nesting ≤ n := by
  rw [nesting, Nat.add_le_add_iff_right, itemNesting_le_iff]

theorem nesting_object_le_iff {n : Nat} {xs : List (String × Json)} :
    (object xs).nesting ≤ n + 1 ↔ ∀ e ∈ xs, e.2.nesting ≤ n := by
  rw [nesting, Nat.add_le_add_iff_right, memberNesting_le_iff]

end Json

namespace JsonText

open Json (boolChars intChars indentedChars indentedItems lineStart)

/-! ## Digits -/

/-- Digits are taken up to what delimits them. -/
theorem digitSpan_append {ds rest : List Char} (hds : ∀ c ∈ ds, c.isDigit = true)
    (hrest : Delimited rest) : digitSpan (ds ++ rest) = (ds, rest) := by
  have hnone : rest.takeWhile Char.isDigit = [] ∧ rest.dropWhile Char.isDigit = rest := by
    cases rest with
    | nil => exact ⟨rfl, rfl⟩
    | cons c cs =>
      have hc := (hrest c rfl).1
      exact ⟨List.takeWhile_cons_of_neg (by simp [hc]), List.dropWhile_cons_of_neg (by simp [hc])⟩
  rw [digitSpan, List.takeWhile_append_of_pos hds, List.dropWhile_append_of_pos hds, hnone.1,
    hnone.2, List.append_nil]

theorem le_ofDigitChars (ds : List Char) (n : Nat) : n ≤ Nat.ofDigitChars 10 ds n := by
  rw [Nat.ofDigitChars_eq_ofDigitChars_zero]
  exact Nat.le_add_right_of_le (Nat.le_mul_of_pos_left _ (Nat.pow_pos (by decide)))

/-- **All digits are taken** if their value fits 64 bits. -/
theorem absorb_eq {ds : List Char} {significand taken : Nat}
    (h : Nat.ofDigitChars 10 ds significand < Text.wordBound) :
    absorb significand taken ds
      = (Nat.ofDigitChars 10 ds significand, taken + ds.length) := by
  induction ds generalizing significand taken with
  | nil => rw [absorb, Nat.ofDigitChars_nil, List.length_nil, Nat.add_zero]
  | cons c ds ih =>
    have hnext : significand * 10 + digitValue c = 10 * significand + (c.toNat - '0'.toNat) := by
      rw [Nat.mul_comm, digitValue]
    rw [Nat.ofDigitChars_cons, ← hnext] at h ⊢
    rw [absorb, if_pos (Nat.lt_of_le_of_lt (le_ofDigitChars ds _) h), ih h, List.length_cons,
      Nat.add_assoc, Nat.add_comm 1]

/-- **The digits of a number begin with zero** only if it is zero. -/
theorem head?_toDigits {n : Nat} (hn : n ≠ 0) : (Nat.toDigits 10 n).head? ≠ some '0' := by
  induction n using Nat.strongRecOn with
  | ind n ih =>
    rw [Nat.toDigits_eq_if (by decide)]
    split
    · simpa using hn
    · have ih := ih (n / 10) (by omega) (by omega)
      cases hdigits : Nat.toDigits 10 (n / 10) with
      | nil => exact absurd hdigits Nat.toDigits_ne_nil
      | cons c cs => rwa [hdigits] at ih

/-! ## Integers -/

/-- A whole number stands for itself. -/
theorem value?_toDigits (negative : Bool) {n : Nat} (hn : n < Text.wordBound)
    (hnegative : negative = true → n ≠ 0 ∧ n ≤ Power.two 63) :
    Literal.value? ⟨negative, Nat.toDigits 10 n, [], none⟩
      = some (.int (if negative then -(n : Int) else n)) := by
  have habsorb : absorb 0 0 (Nat.toDigits 10 n) = (n, (Nat.toDigits 10 n).length) := by
    rw [absorb_eq, Nat.ofDigitChars_ten_toDigits, Nat.zero_add]
    rwa [Nat.ofDigitChars_ten_toDigits]
  rw [Literal.value?, habsorb]
  cases negative with
  | false => simp
  | true => simp [hnegative rfl]

/-- **A numeral is taken whole**, up to what delimits it. -/
theorem numberValue_toDigits (negative : Bool) (n : Nat) {rest : List Char}
    (hrest : Delimited rest) :
    numberValue negative (Nat.toDigits 10 n ++ rest)
      = (Literal.document ⟨negative, Nat.toDigits 10 n, [], none⟩, rest) := by
  have hspan : digitSpan (Nat.toDigits 10 n ++ rest) = (Nat.toDigits 10 n, rest) :=
    digitSpan_append (fun _ => Nat.isDigit_of_mem_toDigits (by decide) (by decide)) hrest
  have hzero : ¬ ((Nat.toDigits 10 n).head? = some '0' ∧ (Nat.toDigits 10 n).length ≠ 1) := by
    rintro ⟨hhead, hlength⟩
    by_cases hn : n = 0
    · subst hn
      exact hlength rfl
    · exact head?_toDigits hn hhead
  rw [numberValue, hspan]
  simp only [List.isEmpty_eq_false_iff.mpr Nat.toDigits_ne_nil, Bool.false_eq_true, if_false]
  rw [if_neg (by simpa using hzero)]
  cases rest with
  | nil => rfl
  | cons c cs =>
    obtain ⟨-, hpoint, he, hE⟩ := hrest c rfl
    split
    · next heq => exact absurd (List.cons.inj heq).1 hpoint
    · simp [exponentPart, he, hE]

theorem readValue_digit {fuel depth : Nat} {c : Char} {cs : List Char} (hc : c.isDigit = true) :
    readValue (fuel + 1) depth (c :: cs) = numberValue false (c :: cs) := by
  have hne {d : Char} (hd : d.isDigit = false) : c ≠ d := fun heq => by
    rw [heq, hd] at hc
    cases hc
  have hblank : isBlank c = false := by
    simp [isBlank, hne (d := ' ') rfl, hne (d := '\n') rfl, hne (d := '\t') rfl,
      hne (d := '\r') rfl]
  rw [readValue, skipBlanks_cons hblank]
  split
  case h_9 heq =>
    cases heq
    exact if_pos hc
  case h_1 heq => cases heq
  -- no other first character is a digit
  all_goals
    next heq => exact absurd (List.cons.inj heq).1 (hne rfl)

/-- **An integer is read back**, if it fits 64 bits. -/
theorem isReadBack_int {level depth : Nat} {i : Int} (h : JsonNumber.fits i = true) :
    IsReadBack level depth (.number (.int i)) := by
  intro fuel rest hrest hfuel
  obtain ⟨fuel, rfl⟩ := Nat.exists_eq_add_one.mpr (Nat.zero_lt_of_lt hfuel)
  simp only [JsonNumber.fits, Bool.and_eq_true, decide_eq_true_eq] at h
  have htwo : (Power.two 63 : Int) < Power.two 64 := by decide
  have hn : i.natAbs < Text.wordBound := by
    rw [Text.wordBound]
    omega
  show readValue (fuel + 1) depth (intChars i ++ rest) = (.number (.int i), rest)
  rw [intChars]
  split
  · next hnegative =>
    have hvalue : Literal.value? ⟨true, Nat.toDigits 10 i.natAbs, [], none⟩ = some (.int i) := by
      rw [value?_toDigits true hn fun _ => ⟨by omega, by omega⟩, if_pos rfl]
      congr 2
      omega
    rw [List.cons_append, readValue, skipBlanks_cons rfl]
    simp only [numberValue_toDigits true _ hrest, Literal.document, hvalue]
  · next hpositive =>
    have hvalue : Literal.value? ⟨false, Nat.toDigits 10 i.natAbs, [], none⟩ = some (.int i) := by
      have hsign : ¬ (false = true) := Bool.false_ne_true
      rw [value?_toDigits false hn fun h => absurd h hsign, if_neg hsign]
      congr 2
      omega
    have hread := numberValue_toDigits false i.natAbs hrest
    rw [Literal.document, hvalue] at hread
    cases hdigits : Nat.toDigits 10 i.natAbs with
    | nil => exact absurd hdigits Nat.toDigits_ne_nil
    | cons c cs =>
      have hc : c.isDigit = true :=
        Nat.isDigit_of_mem_toDigits (b := 10) (n := i.natAbs) (by decide) (by decide)
          (hdigits ▸ List.mem_cons_self)
      rw [hdigits] at hread
      rw [List.cons_append, readValue_digit hc]
      exact hread

/-! ## Words and arrays -/

theorem isReadBack_null (level depth : Nat) : IsReadBack level depth .null := by
  intro fuel rest _ hfuel
  obtain ⟨fuel, rfl⟩ := Nat.exists_eq_add_one.mpr (Nat.zero_lt_of_lt hfuel)
  rfl

theorem isReadBack_bool (level depth : Nat) (b : Bool) : IsReadBack level depth (.bool b) := by
  intro fuel rest _ hfuel
  obtain ⟨fuel, rfl⟩ := Nat.exists_eq_add_one.mpr (Nat.zero_lt_of_lt hfuel)
  cases b <;> rfl

theorem skipBlanks_lineStart_append (level : Nat) (cs : List Char) :
    skipBlanks (lineStart level ++ cs) = skipBlanks cs := by
  refine List.dropWhile_append_of_pos fun c hc => ?_
  rcases List.mem_cons.mp hc with rfl | hc
  · rfl
  · rw [(List.mem_replicate.mp hc).2]
    rfl

/-- Blanks before a value are passed over. -/
theorem readValue_congr (fuel depth : Nat) {cs cs' : List Char}
    (h : skipBlanks cs = skipBlanks cs') : readValue fuel depth cs = readValue fuel depth cs' := by
  cases fuel with
  | zero => rfl
  | succ fuel => rw [readValue, readValue, h]

section Item

variable {fuel depth : Nat} {text rest : List Char} {j : Json}
  (h : readValue fuel depth text = (.ofJson j, rest))
include h

/-- Where a value is read the array does not end. -/
theorem exists_cons_of_readValue : ∃ c cs, skipBlanks text = c :: cs ∧ c ≠ ']'
    ∧ readValue fuel depth (c :: cs) = (.ofJson j, rest) := by
  have hbroken (b : Break) : Document.ofJson j ≠ .broken b := by
    cases j <;> exact nofun
  cases fuel with
  | zero => exact absurd (congrArg Prod.fst h).symm (hbroken _)
  | succ fuel =>
    cases hskip : skipBlanks text with
    | nil =>
      rw [readValue, hskip] at h
      exact absurd (congrArg Prod.fst h).symm (hbroken _)
    | cons c cs =>
      have hblank : isBlank c = false := by
        have := List.head?_dropWhile_not isBlank text
        rwa [← skipBlanks, hskip] at this
      have hsame : skipBlanks (c :: cs) = skipBlanks text := by
        rw [hskip, skipBlanks_cons hblank]
      refine ⟨c, cs, rfl, ?_, (readValue_congr _ _ hsame).trans h⟩
      rintro rfl
      rw [readValue, hskip] at h
      exact absurd (congrArg Prod.fst h).symm (hbroken _)

/-- **The first item of an array is read back**, and then what follows it. -/
theorem readItems_first : readItems (fuel + 1) depth true text
    = (.ofJson j :: (readItems fuel depth false rest).1, (readItems fuel depth false rest).2) := by
  obtain ⟨c, cs, hskip, hend, hread⟩ := exists_cons_of_readValue h
  rw [readItems, hskip]
  split
  · next heq => cases heq
  · next heq => exact absurd (List.cons.inj heq).1 hend
  · next heq =>
    cases heq
    simp only [if_true, hread]

/-- **A later item is read back**, and then what follows it. -/
theorem readItems_next : readItems (fuel + 1) depth false (',' :: text)
    = (.ofJson j :: (readItems fuel depth false rest).1, (readItems fuel depth false rest).2) := by
  obtain ⟨c, cs, hskip, hend, -⟩ := exists_cons_of_readValue h
  rw [readItems, skipBlanks_cons rfl]
  split
  · next heq => cases heq
  · next heq => exact absurd (List.cons.inj heq).1 (by decide)
  · next heq =>
    cases heq
    simp [hskip, hend, h]

end Item

/-- What follows an item of an array. -/
theorem delimited_indentedItems (level : Nat) (xs : List Json) (rest : List Char) :
    Delimited (indentedItems level xs ++ rest) := by
  intro c hc
  cases xs with
  | nil =>
    obtain rfl : '\n' = c := Option.some.inj hc
    decide
  | cons x xs =>
    obtain rfl : ',' = c := Option.some.inj hc
    decide

section Items

variable {level depth : Nat} {xs : List Json}

/-- An item is read back from the line that it begins. -/
theorem IsReadBack.item {j : Json} (h : IsReadBack level depth j) (fuel : Nat) {rest : List Char}
    (hrest : Delimited rest) (hfuel : (indentedChars level j).length < fuel) :
    readValue fuel depth (lineStart level ++ (indentedChars level j ++ rest))
      = (.ofJson j, rest) :=
  (readValue_congr _ _ (skipBlanks_lineStart_append ..)).trans (h fuel rest hrest hfuel)

theorem readItems_indentedItems (h : ∀ x ∈ xs, IsReadBack (level + 1) depth x) {fuel : Nat}
    (rest : List Char) (hfuel : (indentedItems level xs).length < fuel) :
    readItems fuel depth false (indentedItems level xs ++ rest)
      = (Document.ofItems xs, none, rest) := by
  induction xs generalizing fuel with
  | nil =>
    obtain ⟨fuel, rfl⟩ := Nat.exists_eq_add_one.mpr (Nat.zero_lt_of_lt hfuel)
    rw [indentedItems, List.append_assoc, List.singleton_append, readItems,
      skipBlanks_lineStart level rfl]
    rfl
  | cons x xs ih =>
    rw [List.forall_mem_cons] at h
    obtain ⟨fuel, rfl⟩ := Nat.exists_eq_add_one.mpr (Nat.zero_lt_of_lt hfuel)
    rw [indentedItems, List.length_append, List.cons_append, List.length_cons,
      List.length_append] at hfuel
    have hread := h.1.item fuel (delimited_indentedItems level xs rest) (by omega)
    rw [indentedItems, List.append_assoc, List.cons_append, List.cons_append, List.append_assoc,
      readItems_next hread, ih h.2 (by omega), Document.ofItems]

/-- **An array is read back** if its items are. -/
theorem isReadBack_array (hdepth : depth + 1 < depthLimit)
    (h : ∀ x ∈ xs, IsReadBack (level + 1) (depth + 1) x) : IsReadBack level depth (.array xs) := by
  intro fuel rest _ hfuel
  obtain ⟨fuel, rfl⟩ := Nat.exists_eq_add_one.mpr (Nat.zero_lt_of_lt hfuel)
  have hitems : ∃ text, indentedChars level (.array xs) ++ rest = '[' :: text
      ∧ readItems fuel (depth + 1) true text = (Document.ofItems xs, none, rest) := by
    cases xs with
    | nil =>
      rw [indentedChars, List.length_cons, List.length_cons] at hfuel
      obtain ⟨fuel, rfl⟩ : ∃ n, fuel = n + 1 := Nat.exists_eq_add_one.mpr (by omega)
      exact ⟨']' :: rest, by simp [indentedChars], by rw [readItems, skipBlanks_cons rfl]; rfl⟩
    | cons x xs =>
      rw [List.forall_mem_cons] at h
      rw [indentedChars, List.length_append, List.cons_append, List.length_cons,
        List.length_append] at hfuel
      have hline : 0 < (lineStart (level + 1)).length := Nat.succ_pos _
      obtain ⟨fuel, rfl⟩ : ∃ n, fuel = n + 1 := Nat.exists_eq_add_one.mpr (by omega)
      have hread := h.1.item fuel (delimited_indentedItems level xs rest) (by omega)
      refine ⟨_, by rw [indentedChars, List.append_assoc, List.cons_append, List.cons_append,
        List.append_assoc], ?_⟩
      rw [readItems_first hread, readItems_indentedItems h.2 rest (by omega), Document.ofItems]
  obtain ⟨text, htext, hread⟩ := hitems
  rw [htext, readValue_array fuel depth (skipBlanks_cons rfl _), hread, limitDepth,
    if_neg (Nat.not_le.mpr hdepth), Document.ofJson]

end Items

/-! ## All values -/

mutual

/-- **An exact value is read back** if it is not nested too deep where it stands. -/
theorem isReadBack {level depth : Nat} : ∀ {j : Json}, j.Exact →
    depth + j.nesting < depthLimit → IsReadBack level depth j
  | .null, _, _ => isReadBack_null level depth
  | .bool b, _, _ => isReadBack_bool level depth b
  | .string s, _, _ => isReadBack_string level depth s
  | .number n, h, _ => by
    obtain ⟨i, rfl, hi⟩ := Json.exact_number.mp h
    exact isReadBack_int hi
  | .array xs, h, hdepth => by
    rw [Json.nesting] at hdepth
    exact isReadBack_array (by omega) (isReadBack_items (Json.exact_array.mp h) (by omega))
  | .object ms, h, hdepth => by
    rw [Json.nesting] at hdepth
    exact isReadBack_object (by omega) (isReadBack_members (Json.exact_object.mp h) (by omega))

theorem isReadBack_items {level depth : Nat} : ∀ {xs : List Json}, (∀ x ∈ xs, x.Exact) →
    depth + Json.itemNesting xs < depthLimit → ∀ x ∈ xs, IsReadBack level depth x
  | [], _, _ => nofun
  | x :: xs, h, hdepth => by
    rw [List.forall_mem_cons] at h
    rw [Json.itemNesting] at hdepth
    have hx : depth + x.nesting < depthLimit := by omega
    exact List.forall_mem_cons.mpr ⟨isReadBack h.1 hx, isReadBack_items h.2 (by omega)⟩

theorem isReadBack_members {level depth : Nat} : ∀ {ms : List (String × Json)},
    (∀ e ∈ ms, e.2.Exact) → depth + Json.memberNesting ms < depthLimit →
      ∀ e ∈ ms, IsReadBack level depth e.2
  | [], _, _ => nofun
  | (_, x) :: ms, h, hdepth => by
    rw [List.forall_mem_cons] at h
    rw [Json.memberNesting] at hdepth
    have hx : depth + x.nesting < depthLimit := by omega
    exact List.forall_mem_cons.mpr ⟨isReadBack h.1 hx, isReadBack_members h.2 (by omega)⟩

end

end JsonText

end PlanSync
