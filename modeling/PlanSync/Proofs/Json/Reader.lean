import PlanSync.Json.Reader

/-!
# What reading takes from a text

Reading goes through a text from left to right and never takes a character twice, so what
it leaves is shorter than what it was given (`shortens`). That is why fuel of twice
the length of a text is enough, and why any more of it changes nothing
(`readsAlike`): what a reader makes of a part of a text does not depend on how long
the text is around it.
-/

namespace PlanSync.JsonText

/-! ## Blanks, words, strings and numbers -/

theorem length_skipBlanks_le (cs : List Char) : (skipBlanks cs).length ≤ cs.length :=
  (List.dropWhile_sublist _).length_le

/-- A word is taken as far as it is there; where it breaks off, so does all reading. -/
theorem length_word_le (value : Document) (ws cs : List Char) :
    (word value ws cs).2.length ≤ cs.length := by
  induction ws generalizing cs with
  | nil => exact Nat.le_refl _
  | cons w ws ih =>
    cases cs with
    | nil => exact Nat.le_refl _
    | cons c cs =>
      rw [word]
      split
      · exact Nat.le_succ_of_le (ih cs)
      · exact Nat.zero_le _

/-- **A string ends behind its closing quote**, so it takes a character at least. -/
theorem length_lt_of_scanString {acc : List Char} {bad : Bool} {cs : List Char}
    {value : Option String} {rest : List Char} (h : scanString acc bad cs = .closed value rest) :
    rest.length < cs.length := by
  fun_induction scanString acc bad cs with
  | case1 | case3 | case4 | case9 | case11 | case12 => cases h
  | case2 => cases h; exact Nat.lt_succ_self _
  | case5 _ _ _ _ _ _ _ _ _ _ _ _ ih =>
    have := ih h
    simp only [List.length_drop, List.length_cons] at *
    omega
  | case6 _ _ _ _ _ _ _ _ _ _ _ ih | case7 _ _ _ _ _ _ _ _ _ _ _ ih
  | case8 _ _ _ _ _ _ _ _ _ _ _ ih | case10 _ _ _ _ _ _ _ _ ih | case13 _ _ _ _ _ _ _ _ _ _ ih =>
    have := ih h
    simp only [List.length_cons]
    omega

/-- The digits and what stands behind them are the whole text. -/
theorem length_digitSpan (cs : List Char) :
    (digitSpan cs).1.length + (digitSpan cs).2.length = cs.length := by
  rw [digitSpan, ← List.length_append, List.takeWhile_append_dropWhile]

/-- An exponent takes its letter, a sign if there is one, and digits, or is not one. -/
theorem length_exponentPart_le (l : Literal) (cs : List Char) :
    (exponentPart l cs).2.length ≤ cs.length := by
  have hdigits (broken d : Document) (cs : List Char) :
      (if (digitSpan cs).1.isEmpty then (broken, []) else (d, (digitSpan cs).2)).2.length
        ≤ cs.length := by
    have := length_digitSpan cs
    split
    · exact Nat.zero_le _
    · dsimp only
      omega
  unfold exponentPart
  split
  · next c cs =>
    dsimp only
    split
    · split
      · exact Nat.le_trans (hdigits ..) (Nat.le_add_right _ 2)
      · exact Nat.le_trans (hdigits ..) (Nat.le_add_right _ 2)
      · exact Nat.le_trans (hdigits ..) (Nat.le_succ _)
    · exact Nat.le_refl _
  · exact Nat.le_refl _

/-- **A number takes a digit at least.** -/
theorem length_numberValue_le (negative : Bool) (cs : List Char) :
    (numberValue negative cs).2.length ≤ cs.length - 1 := by
  unfold numberValue
  have hspan := length_digitSpan cs
  dsimp only
  split
  · exact Nat.zero_le _
  next hwhole =>
  rw [List.isEmpty_iff, ← List.length_eq_zero_iff] at hwhole
  split
  · exact Nat.zero_le _
  split
  · next rest hrest =>
    split
    · exact Nat.zero_le _
    · have :=
        length_exponentPart_le ⟨negative, (digitSpan cs).1, (digitSpan rest).1, none⟩
          (digitSpan rest).2
      have := length_digitSpan rest
      rw [hrest, List.length_cons] at hspan
      omega
  · have := length_exponentPart_le ⟨negative, (digitSpan cs).1, [], none⟩ (digitSpan cs).2
    omega

/-- A string takes what is read up to its closing quote, or, without one, all there is. -/
theorem length_stringValue_le (cs : List Char) : (stringValue cs).2.length ≤ cs.length := by
  rw [stringValue]
  split
  · next h => exact Nat.le_of_lt (length_lt_of_scanString h)
  · next h => exact Nat.le_of_lt (length_lt_of_scanString h)
  · exact Nat.zero_le _

/-! ## Values -/

/-- An array is what its items are, one level deeper and with one fuel less. -/
theorem readValue_array (fuel depth : Nat) {text cs : List Char} (h : skipBlanks text = '[' :: cs) :
    readValue (fuel + 1) depth text
      = (limitDepth (depth + 1) (.array (readItems fuel (depth + 1) true cs).1
          (readItems fuel (depth + 1) true cs).2.1),
        (readItems fuel (depth + 1) true cs).2.2) := by
  rw [readValue, h]
  rfl

/-- An object is what its members are, one level deeper and with one fuel less. -/
theorem readValue_object (fuel depth : Nat) {text cs : List Char}
    (h : skipBlanks text = '\x7b' :: cs) :
    readValue (fuel + 1) depth text
      = (limitDepth (depth + 1) (.object (readMembers fuel (depth + 1) true cs).1
          (readMembers fuel (depth + 1) true cs).2.1),
        (readMembers fuel (depth + 1) true cs).2.2) := by
  rw [readValue, h]
  rfl

/-- A value is an array, an object, or read in one go. -/
theorem readValue_cases (cs : List Char) :
    (∃ cs', skipBlanks cs = '[' :: cs') ∨ (∃ cs', skipBlanks cs = '\x7b' :: cs')
      ∨ ∃ r : Document × List Char, r.2.length ≤ cs.length - 1
        ∧ ∀ fuel depth, readValue (fuel + 1) depth cs = r := by
  by_cases harray : ∃ cs', skipBlanks cs = '[' :: cs'
  · exact .inl harray
  by_cases hobject : ∃ cs', skipBlanks cs = '\x7b' :: cs'
  · exact .inr (.inl hobject)
  -- what is read in one go is read with any fuel and at any depth, so with the least, too
  refine .inr (.inr ⟨readValue 1 0 cs, ?_, fun fuel depth => ?_⟩)
  · have hblanks := length_skipBlanks_le cs
    have hrest {c : Char} {cs' : List Char} {n : Nat} (h : skipBlanks cs = c :: cs')
        (hn : n ≤ cs'.length) : n ≤ cs.length - 1 := by
      rw [h, List.length_cons] at hblanks
      omega
    rw [readValue]
    split
    · exact Nat.zero_le _
    · next h => exact hrest h (length_word_le ..)
    · next h => exact hrest h (length_word_le ..)
    · next h => exact hrest h (length_word_le ..)
    · next h => exact hrest h (length_stringValue_le _)
    · next h => exact hrest h (Nat.le_trans (length_numberValue_le ..) (Nat.sub_le ..))
    · next h => exact absurd ⟨_, h⟩ harray
    · next h => exact absurd ⟨_, h⟩ hobject
    · next h =>
      split
      · exact hrest h (length_numberValue_le ..)
      · exact Nat.zero_le _
  · rw [readValue, readValue]
    split
    · rfl
    · rfl
    · rfl
    · rfl
    · rfl
    · rfl
    · next h => exact absurd ⟨_, h⟩ harray
    · next h => exact absurd ⟨_, h⟩ hobject
    · rfl

/-- Where an item begins, after a comma or at once. -/
theorem length_itemStart_le {first : Bool} {c : Char} {cs start : List Char}
    (h : (if first then some (c :: cs)
      else if c = ',' && (skipBlanks cs).head? ≠ some ']' then some cs else none) = some start) :
    start.length ≤ cs.length + 1 := by
  split at h
  · exact Nat.le_of_eq (congrArg _ (Option.some.inj h).symm)
  · split at h
    · exact Nat.le_succ_of_le (Nat.le_of_eq (congrArg _ (Option.some.inj h).symm))
    · cases h

/-- Where a key begins, after a comma or at once. -/
theorem length_keyStart_lt {first : Bool} {c : Char} {cs start : List Char}
    (h : (if first then some (c :: cs) else if c = ',' then some (skipBlanks cs) else none)
      = some ('"' :: start)) : start.length < cs.length + 1 := by
  have hskip := length_skipBlanks_le cs
  split at h
  · exact Nat.lt_of_succ_le (Nat.le_of_eq (congrArg List.length (Option.some.inj h).symm))
  · split at h
    · rw [Option.some.inj h, List.length_cons] at hskip
      exact Nat.lt_succ_of_lt hskip
    · cases h

/-- **With this fuel, a value takes a character at least**, and no part takes one that is not
there. -/
structure Shortens (fuel : Nat) : Prop where
  value : ∀ depth cs, (readValue fuel depth cs).2.length ≤ cs.length - 1
  items : ∀ depth first cs, (readItems fuel depth first cs).2.2.length ≤ cs.length
  members : ∀ depth first cs, (readMembers fuel depth first cs).2.2.length ≤ cs.length

namespace Shortens

variable {fuel : Nat}

/-- An array or an object takes its bracket at least, even if it has nothing in it. -/
theorem value_succ (h : Shortens fuel) (depth : Nat) (cs : List Char) :
    (readValue (fuel + 1) depth cs).2.length ≤ cs.length - 1 := by
  have hblanks := length_skipBlanks_le cs
  rcases readValue_cases cs with ⟨cs', hcs⟩ | ⟨cs', hcs⟩ | ⟨r, hr, hread⟩
  · rw [readValue_array fuel depth hcs]
    rw [hcs, List.length_cons] at hblanks
    exact Nat.le_trans (h.items ..) (Nat.le_sub_one_of_lt hblanks)
  · rw [readValue_object fuel depth hcs]
    rw [hcs, List.length_cons] at hblanks
    exact Nat.le_trans (h.members ..) (Nat.le_sub_one_of_lt hblanks)
  · rw [hread fuel depth]
    exact hr

/-- Items take what their values take, and a comma before each but the first. -/
theorem items_succ (h : Shortens fuel) (depth : Nat) (first : Bool) (cs : List Char) :
    (readItems (fuel + 1) depth first cs).2.2.length ≤ cs.length := by
  have hblanks := length_skipBlanks_le cs
  rw [readItems]
  split
  · exact Nat.zero_le _
  · next hcs =>
    rw [hcs] at hblanks
    exact Nat.le_trans (Nat.le_succ _) hblanks
  · next c cs' _ hcs =>
    rw [hcs, List.length_cons] at hblanks
    dsimp only
    split
    · exact Nat.zero_le _
    · next start hstart =>
      have hle := length_itemStart_le hstart
      have := h.value depth start
      exact Nat.le_trans (h.items ..) (by omega)

/-- A member takes its key, its colon and its value, in this order, and the members behind it
take from what that leaves. -/
theorem members_succ (h : Shortens fuel) (depth : Nat) (first : Bool) (cs : List Char) :
    (readMembers (fuel + 1) depth first cs).2.2.length ≤ cs.length := by
  have hblanks := length_skipBlanks_le cs
  rw [readMembers]
  split
  · exact Nat.zero_le _
  · next hcs =>
    rw [hcs] at hblanks
    exact Nat.le_trans (Nat.le_succ _) hblanks
  · next c cs' _ hcs =>
    rw [hcs, List.length_cons] at hblanks
    dsimp only
    split
    · next start hstart =>
      have hle := length_keyStart_lt hstart
      split
      · exact Nat.zero_le _
      · next k rest hscan =>
        have hrest := length_lt_of_scanString hscan
        have hskip := length_skipBlanks_le rest
        dsimp only
        refine Nat.le_trans (h.members ..) ?_
        split
        · next rest' hcolon =>
          rw [hcolon, List.length_cons] at hskip
          have := h.value depth rest'
          omega
        · exact Nat.zero_le _
        · exact Nat.zero_le _
    · exact Nat.zero_le _
    · exact Nat.zero_le _

end Shortens

/-- **Reading takes from the front of a text.** -/
theorem shortens (fuel : Nat) : Shortens fuel := by
  induction fuel with
  | zero =>
    exact ⟨fun _ _ => Nat.zero_le _, fun _ _ _ => Nat.zero_le _, fun _ _ _ => Nat.zero_le _⟩
  | succ fuel ih => exact ⟨ih.value_succ, ih.items_succ, ih.members_succ⟩

/-! ## Fuel -/

/-- **Two amounts of fuel read alike** where both suffice. -/
structure ReadsAlike (fuel fuel' : Nat) : Prop where
  value : ∀ depth cs, 2 * cs.length < fuel → 2 * cs.length < fuel' →
    readValue fuel depth cs = readValue fuel' depth cs
  items : ∀ depth first cs, 2 * cs.length + 1 < fuel → 2 * cs.length + 1 < fuel' →
    readItems fuel depth first cs = readItems fuel' depth first cs
  members : ∀ depth first cs, 2 * cs.length + 1 < fuel → 2 * cs.length + 1 < fuel' →
    readMembers fuel depth first cs = readMembers fuel' depth first cs

namespace ReadsAlike

variable {fuel fuel' : Nat}

/-- A value needs fuel for itself and, behind its bracket, for the items or members: the
bracket pays for both. -/
theorem value_succ (h : ReadsAlike fuel fuel') (depth : Nat) (cs : List Char)
    (hf : 2 * cs.length < fuel + 1) (hf' : 2 * cs.length < fuel' + 1) :
    readValue (fuel + 1) depth cs = readValue (fuel' + 1) depth cs := by
  have hblanks := length_skipBlanks_le cs
  rcases readValue_cases cs with ⟨cs', hcs⟩ | ⟨cs', hcs⟩ | ⟨r, -, hread⟩
  · rw [hcs, List.length_cons] at hblanks
    rw [readValue_array fuel depth hcs, readValue_array fuel' depth hcs,
      h.items (depth + 1) true cs' (by omega) (by omega)]
  · rw [hcs, List.length_cons] at hblanks
    rw [readValue_object fuel depth hcs, readValue_object fuel' depth hcs,
      h.members (depth + 1) true cs' (by omega) (by omega)]
  · rw [hread fuel depth, hread fuel' depth]

/-- An item needs one fuel, and the items behind it have a shorter text to go. -/
theorem items_succ (h : ReadsAlike fuel fuel') (depth : Nat) (first : Bool) (cs : List Char)
    (hf : 2 * cs.length + 1 < fuel + 1) (hf' : 2 * cs.length + 1 < fuel' + 1) :
    readItems (fuel + 1) depth first cs = readItems (fuel' + 1) depth first cs := by
  have hblanks := length_skipBlanks_le cs
  rw [readItems, readItems]
  split
  · rfl
  · rfl
  · next c cs' _ hcs =>
    rw [hcs, List.length_cons] at hblanks
    dsimp only
    split
    · rfl
    · next start hstart =>
      have hle := length_itemStart_le hstart
      have hrest := (shortens fuel').value depth start
      rw [h.value depth start (by omega) (by omega), h.items depth false _ (by omega) (by omega)]

/-- A member needs one fuel, and the members behind it have a shorter text to go. -/
theorem members_succ (h : ReadsAlike fuel fuel') (depth : Nat) (first : Bool) (cs : List Char)
    (hf : 2 * cs.length + 1 < fuel + 1) (hf' : 2 * cs.length + 1 < fuel' + 1) :
    readMembers (fuel + 1) depth first cs = readMembers (fuel' + 1) depth first cs := by
  have hblanks := length_skipBlanks_le cs
  rw [readMembers, readMembers]
  split
  · rfl
  · rfl
  · next c cs' _ hcs =>
    rw [hcs, List.length_cons] at hblanks
    -- where the colon is missing, reading goes on with nothing
    have hnil : readMembers fuel depth false [] = readMembers fuel' depth false [] :=
      h.members depth false [] (by rw [List.length_nil]; omega) (by rw [List.length_nil]; omega)
    dsimp only
    split
    · next start hstart =>
      have hle := length_keyStart_lt hstart
      split
      · rfl
      · next k rest hscan =>
        have hrest := length_lt_of_scanString hscan
        have hskip := length_skipBlanks_le rest
        split
        · next rest' hcolon =>
          rw [hcolon, List.length_cons] at hskip
          have := (shortens fuel').value depth rest'
          rw [h.value depth rest' (by omega) (by omega),
            h.members depth false _ (by omega) (by omega)]
        · rw [hnil]
        · rw [hnil]
    · rfl
    · rfl

end ReadsAlike

/-- **Fuel that suffices is as good as any more.** -/
theorem readsAlike (fuel fuel' : Nat) : ReadsAlike fuel fuel' := by
  induction fuel generalizing fuel' with
  | zero =>
    exact ⟨fun _ _ h => absurd h (Nat.not_lt_zero _), fun _ _ _ h => absurd h (Nat.not_lt_zero _),
      fun _ _ _ h => absurd h (Nat.not_lt_zero _)⟩
  | succ fuel ih =>
    cases fuel' with
    | zero =>
      exact ⟨fun _ _ _ h => absurd h (Nat.not_lt_zero _),
        fun _ _ _ _ h => absurd h (Nat.not_lt_zero _),
        fun _ _ _ _ h => absurd h (Nat.not_lt_zero _)⟩
    | succ fuel' =>
      exact ⟨(ih fuel').value_succ, (ih fuel').items_succ, (ih fuel').members_succ⟩

end PlanSync.JsonText
