import PlanSync.Json.Printer
import PlanSync.Proofs.Json.Reader

/-!
# Written values read back

What a printer writes of a string, and of an object whose members are read back, a reader
takes for the same value, and goes on with what follows (`isReadBack_string`,
`isReadBack_object`). In strings this could go wrong: every character is written so that the
reader meets it again, be it a quotation mark, a backslash or a control
(`scanString_escapeChar`).

A value is read back only if what follows it could not belong to a number; within
containers it never could (`delimited_indentedMembers`).
-/

namespace PlanSync.JsonText

open Json (escapeChar stringChars lineStart indentedChars indentedMembers)

/-! ## Strings -/

theorem hexValues?_hexDigit {n : Nat} (h : n < 0x20) :
    hexValues? '0' '0' (Json.hexDigit (n / 16)) (Json.hexDigit (n % 16)) = some n := by
  revert n
  decide

/-- An escape of one letter. -/
theorem scanString_letter {acc : List Char} {letter c : Char} (hu : letter ≠ 'u')
    (h : escapeChar? letter = some c) (rest : List Char) :
    scanString acc false ('\\' :: letter :: rest) = scanString (c :: acc) false rest := by
  rw [scanString]
  · rw [h]
  · exact fun _ _ _ _ _ hletter => absurd hletter hu
  · exact hu

/-- A control in four digits. -/
theorem scanString_control {acc : List Char} {c : Char} (h : c.toNat < 0x20) (rest : List Char) :
    scanString acc false ('\\' :: 'u' :: '0' :: '0' :: Json.hexDigit (c.toNat / 16)
      :: Json.hexDigit (c.toNat % 16) :: rest) = scanString (c :: acc) false rest := by
  have hhigh : isHighSurrogate c.toNat = false := by
    simp only [isHighSurrogate, Bool.and_eq_false_iff, decide_eq_false_iff_not]
    omega
  have hlow : isLowSurrogate c.toNat = false := by
    simp only [isLowSurrogate, Bool.and_eq_false_iff, decide_eq_false_iff_not]
    omega
  rw [scanString, hexValues?_hexDigit h]
  simp only [hhigh, hlow, Bool.false_eq_true, if_false, Char.ofNat_toNat]

/-- A character that stands for itself. -/
theorem scanString_plain {acc : List Char} {c : Char} (hquote : c ≠ '"') (hslash : c ≠ '\\')
    (h : ¬ c.toNat < 0x20) (rest : List Char) :
    scanString acc false (c :: rest) = scanString (c :: acc) false rest := by
  rw [scanString]
  · rw [if_neg h]
  all_goals intros; contradiction

/-- **An escaped character is read back.** -/
theorem scanString_escapeChar (acc : List Char) (c : Char) (rest : List Char) :
    scanString acc false (escapeChar c ++ rest) = scanString (c :: acc) false rest := by
  have named : ∀ {n : Nat} (letter : Char), c.toNat = n → letter ≠ 'u' →
      escapeChar? letter = some (Char.ofNat n) →
      scanString acc false ('\\' :: letter :: rest) = scanString (c :: acc) false rest := by
    rintro n letter rfl hu h
    rw [Char.ofNat_toNat] at h
    exact scanString_letter hu h rest
  unfold escapeChar
  split
  · next h => subst h; exact scanString_letter (by decide) rfl rest
  split
  · next h => subst h; exact scanString_letter (by decide) rfl rest
  next hquote hslash =>
  split
  · next hcontrol =>
    split
    · next h => exact named 'b' h (by decide) rfl
    split
    · next h => exact named 't' h (by decide) rfl
    split
    · next h => exact named 'n' h (by decide) rfl
    split
    · next h => exact named 'f' h (by decide) rfl
    split
    · next h => exact named 'r' h (by decide) rfl
    · exact scanString_control hcontrol rest
  · next h => exact scanString_plain hquote hslash h rest

/-- Escaped characters are read back up to the closing mark. -/
theorem scanString_escaped (acc cs rest : List Char) :
    scanString acc false (cs.flatMap escapeChar ++ '"' :: rest)
      = .closed (some (String.ofList (acc.reverse ++ cs))) rest := by
  induction cs generalizing acc with
  | nil =>
    rw [List.flatMap_nil, List.nil_append, scanString, List.append_nil]
    rfl
  | cons c cs ih =>
    rw [List.flatMap_cons, List.append_assoc, scanString_escapeChar, ih, List.reverse_cons,
      List.append_assoc, List.singleton_append]

/-- **A written string is read back.** -/
theorem scanString_stringChars (s : String) (rest : List Char) :
    ∃ cs, stringChars s ++ rest = '"' :: cs ∧ scanString [] false cs = .closed (some s) rest := by
  refine ⟨s.toList.flatMap escapeChar ++ '"' :: rest, by simp [stringChars], ?_⟩
  rw [scanString_escaped, List.reverse_nil, List.nil_append, String.ofList_toList]

/-! ## Values of strings and objects -/

theorem skipBlanks_cons {c : Char} (h : isBlank c = false) (cs : List Char) :
    skipBlanks (c :: cs) = c :: cs := by
  rw [skipBlanks, List.dropWhile_cons_of_neg (by simp [h])]

theorem skipBlanks_blank_cons {c : Char} (h : isBlank c = true) (cs : List Char) :
    skipBlanks (c :: cs) = skipBlanks cs := by
  rw [skipBlanks, List.dropWhile_cons_of_pos h, skipBlanks]

theorem skipBlanks_lineStart (level : Nat) {c : Char} (h : isBlank c = false) (cs : List Char) :
    skipBlanks (lineStart level ++ c :: cs) = c :: cs := by
  rw [lineStart, List.cons_append, skipBlanks_blank_cons rfl]
  induction 2 * level with
  | zero => exact skipBlanks_cons h cs
  | succ n ih => rw [List.replicate_succ, List.cons_append, skipBlanks_blank_cons rfl, ih]

/-- **A text with which no number goes on.** -/
def Delimited (rest : List Char) : Prop :=
  ∀ c ∈ rest.head?, c.isDigit = false ∧ c ≠ '.' ∧ c ≠ 'e' ∧ c ≠ 'E'

/-- **A value is read back** that is written at a level and stands inside containers, whatever
follows it, if only no number goes on with that. -/
def IsReadBack (level depth : Nat) (j : Json) : Prop :=
  ∀ fuel rest, Delimited rest → (indentedChars level j).length < fuel →
    readValue fuel depth (indentedChars level j ++ rest) = (.ofJson j, rest)

/-- **A string is read back.** -/
theorem isReadBack_string (level depth : Nat) (s : String) :
    IsReadBack level depth (.string s) := by
  intro fuel rest _ hfuel
  obtain ⟨fuel, rfl⟩ := Nat.exists_eq_add_one.mpr (Nat.zero_lt_of_lt hfuel)
  obtain ⟨cs, hcs, hscan⟩ := scanString_stringChars s rest
  rw [indentedChars, hcs, readValue, skipBlanks_cons rfl]
  simp only [stringValue, hscan, Document.ofJson]

/-- What is read of an object after the opening mark of a key that stands where it should. -/
def readFromKey (fuel depth : Nat) (misplaced : Break → Break) (cs : List Char) :
    List (Option String × Document) × Option Break × List Char :=
  match scanString [] false cs with
  | .broken b => ([], some (misplaced b), [])
  | .closed k rest =>
    let (x, rest) :=
      match skipBlanks rest with
      | ':' :: rest => readValue fuel depth rest
      | [] => (.broken (.all .truncated), [])
      | _ => (.broken (.all .malformed), [])
    let (xs, close, rest) := readMembers fuel depth false rest
    ((k, x) :: xs, close, rest)

theorem readMembers_first (fuel depth : Nat) {text cs : List Char}
    (h : skipBlanks text = '"' :: cs) :
    readMembers (fuel + 1) depth true text = readFromKey fuel depth id cs := by
  rw [readMembers, h]
  rfl

/-- After a comma a key has to follow. -/
theorem readMembers_comma (fuel depth : Nat) (text : List Char) :
    readMembers (fuel + 1) depth false (',' :: text) = match some (skipBlanks text) with
      | some ('"' :: cs) => readFromKey fuel depth (fun b => .unnamed b.reading b.skipping) cs
      | some [] => ([], some (.unnamed .truncated .truncated), [])
      | _ => ([], some ⟨.malformed, .malformed, .notAName⟩, []) := by
  rw [readMembers, skipBlanks_cons rfl]
  rfl

theorem readMembers_next (fuel depth : Nat) {text cs : List Char}
    (h : skipBlanks text = '"' :: cs) :
    readMembers (fuel + 1) depth false (',' :: text)
      = readFromKey fuel depth (fun b => .unnamed b.reading b.skipping) cs := by
  rw [readMembers_comma, h]
  rfl

theorem readFromKey_closed (fuel depth : Nat) (misplaced : Break → Break) {cs rest : List Char}
    {k : Option String} (h : scanString [] false cs = .closed k (':' :: rest)) :
    readFromKey fuel depth misplaced cs
      = ((k, (readValue fuel depth rest).1)
          :: (readMembers fuel depth false (readValue fuel depth rest).2).1,
        (readMembers fuel depth false (readValue fuel depth rest).2).2) := by
  rw [readFromKey, h]
  rfl

/-- The text of a member, from the line that it begins. -/
def memberChars (level : Nat) (key : String) (j : Json) : List Char :=
  lineStart level ++ stringChars key ++ ':' :: ' ' :: indentedChars level j

section Member

variable {fuel depth level : Nat} {j : Json} (h : IsReadBack level depth j)
  (hfuel : (indentedChars level j).length < fuel) (key : String) {rest : List Char}
  (hrest : Delimited rest)
include h hfuel hrest

theorem skipBlanks_memberChars :
    ∃ cs, skipBlanks (memberChars level key j ++ rest) = '"' :: cs ∧ ∀ misplaced,
      readFromKey fuel depth misplaced cs
        = ((some key, .ofJson j) :: (readMembers fuel depth false rest).1,
          (readMembers fuel depth false rest).2) := by
  obtain ⟨cs, hcs, hscan⟩ :=
    scanString_stringChars key (':' :: ' ' :: (indentedChars level j ++ rest))
  refine ⟨cs, ?_, fun misplaced => ?_⟩
  · rw [memberChars, List.append_assoc, List.append_assoc, List.cons_append, List.cons_append,
      hcs]
    exact skipBlanks_lineStart level rfl cs
  · have hvalue : readValue fuel depth (' ' :: (indentedChars level j ++ rest))
        = (.ofJson j, rest) := by
      obtain ⟨fuel, rfl⟩ := Nat.exists_eq_add_one.mpr (Nat.zero_lt_of_lt hfuel)
      have h := h (fuel + 1) rest hrest hfuel
      rw [readValue] at h ⊢
      rw [skipBlanks_blank_cons rfl]
      exact h
    rw [readFromKey_closed fuel depth misplaced hscan, hvalue]

/-- **The first member of an object is read back**, and then what follows it. -/
theorem readMembers_memberChars_first :
    readMembers (fuel + 1) depth true (memberChars level key j ++ rest)
      = ((some key, .ofJson j) :: (readMembers fuel depth false rest).1,
        (readMembers fuel depth false rest).2) := by
  obtain ⟨cs, hcs, hread⟩ := skipBlanks_memberChars h hfuel key hrest
  rw [readMembers_first fuel depth hcs, hread]

/-- **A later member is read back**, and then what follows it. -/
theorem readMembers_memberChars_next :
    readMembers (fuel + 1) depth false (',' :: memberChars level key j ++ rest)
      = ((some key, .ofJson j) :: (readMembers fuel depth false rest).1,
        (readMembers fuel depth false rest).2) := by
  obtain ⟨cs, hcs, hread⟩ := skipBlanks_memberChars h hfuel key hrest
  rw [List.cons_append, readMembers_next fuel depth hcs, hread]

end Member

theorem indentedMembers_cons (level : Nat) (key : String) (j : Json) (xs : List (String × Json)) :
    indentedMembers level ((key, j) :: xs)
      = ',' :: memberChars (level + 1) key j ++ indentedMembers level xs := by
  simp [indentedMembers, memberChars]

theorem indentedChars_object_cons (level : Nat) (key : String) (j : Json)
    (xs : List (String × Json)) :
    indentedChars level (.object ((key, j) :: xs))
      = '\x7b' :: memberChars (level + 1) key j ++ indentedMembers level xs := by
  simp [indentedChars, memberChars]

/-- What follows a member of an object. -/
theorem delimited_indentedMembers (level : Nat) (xs : List (String × Json)) (rest : List Char) :
    Delimited (indentedMembers level xs ++ rest) := by
  intro c hc
  cases xs with
  | nil =>
    obtain rfl : '\n' = c := Option.some.inj hc
    decide
  | cons e xs =>
    obtain rfl : ',' = c := Option.some.inj hc
    decide

theorem length_lt_length_memberChars (level : Nat) (key : String) (j : Json) :
    (indentedChars level j).length < (memberChars level key j).length := by
  simp only [memberChars, List.length_append, List.length_cons]
  omega

theorem readMembers_indentedMembers {level depth : Nat} {xs : List (String × Json)}
    (h : ∀ e ∈ xs, IsReadBack (level + 1) depth e.2) {fuel : Nat} (rest : List Char)
    (hfuel : (indentedMembers level xs).length < fuel) :
    readMembers fuel depth false (indentedMembers level xs ++ rest)
      = (Document.ofMembers xs, none, rest) := by
  induction xs generalizing fuel with
  | nil =>
    obtain ⟨fuel, rfl⟩ := Nat.exists_eq_add_one.mpr (Nat.zero_lt_of_lt hfuel)
    rw [indentedMembers, List.append_assoc, List.singleton_append, readMembers,
      skipBlanks_lineStart level rfl]
    rfl
  | cons e xs ih =>
    obtain ⟨key, j⟩ := e
    rw [List.forall_mem_cons] at h
    obtain ⟨fuel, rfl⟩ := Nat.exists_eq_add_one.mpr (Nat.zero_lt_of_lt hfuel)
    have hlength := length_lt_length_memberChars (level + 1) key j
    rw [indentedMembers_cons, List.cons_append, List.length_cons, List.length_append] at hfuel
    rw [indentedMembers_cons, List.append_assoc,
      readMembers_memberChars_next h.1 (Nat.lt_of_lt_of_le hlength (by omega)) key
        (delimited_indentedMembers level xs rest),
      ih h.2 (by omega), Document.ofMembers]

/-- **An object is read back** if the values of its members are. -/
theorem isReadBack_object {level depth : Nat} (hdepth : depth + 1 < depthLimit)
    {xs : List (String × Json)} (h : ∀ e ∈ xs, IsReadBack (level + 1) (depth + 1) e.2) :
    IsReadBack level depth (.object xs) := by
  intro fuel rest _ hfuel
  obtain ⟨fuel, rfl⟩ := Nat.exists_eq_add_one.mpr (Nat.zero_lt_of_lt hfuel)
  have hmembers : ∃ text, indentedChars level (.object xs) ++ rest = '\x7b' :: text
      ∧ readMembers fuel (depth + 1) true text = (Document.ofMembers xs, none, rest) := by
    cases xs with
    | nil =>
      rw [indentedChars, List.length_cons, List.length_cons] at hfuel
      obtain ⟨fuel, rfl⟩ : ∃ n, fuel = n + 1 := Nat.exists_eq_add_one.mpr (by omega)
      exact ⟨'\x7d' :: rest, by simp [indentedChars], by rw [readMembers, skipBlanks_cons rfl]; rfl⟩
    | cons e xs =>
      obtain ⟨key, j⟩ := e
      rw [List.forall_mem_cons] at h
      have hlength := length_lt_length_memberChars (level + 1) key j
      rw [indentedChars_object_cons, List.cons_append, List.length_cons, List.length_append]
        at hfuel
      obtain ⟨fuel, rfl⟩ : ∃ n, fuel = n + 1 := Nat.exists_eq_add_one.mpr (by omega)
      refine ⟨_, by rw [indentedChars_object_cons, List.append_assoc, List.cons_append], ?_⟩
      rw [readMembers_memberChars_first h.1 (Nat.lt_of_lt_of_le hlength (by omega)) key
          (delimited_indentedMembers level xs rest),
        readMembers_indentedMembers h.2 rest (by omega), Document.ofMembers]
  obtain ⟨text, htext, hread⟩ := hmembers
  rw [htext, readValue_object fuel depth (skipBlanks_cons rfl _), hread, limitDepth,
    if_neg (Nat.not_le.mpr hdepth), Document.ofJson]

end PlanSync.JsonText
