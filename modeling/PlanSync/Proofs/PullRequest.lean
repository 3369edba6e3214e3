import PlanSync.PullRequest
import PlanSync.Proofs.Text.Cut

/-!
# Branch ids and names

A derived name is a base, a dash and a branch id, and a branch id is a head
branch, a dash and a numeral. Both can be taken apart again: the id in a name is
told from the base and the number alone (`BranchId.ofName?_nameFrom`), provided
that the head branch is not empty and the number is one of 64 bits. Whatever
id is told from a name, the name is the one derived for it
(`BranchId.eq_nameFrom_of_ofName?`), so no object is ever counted for a branch
whose name it does not bear.

Dashes and digits may stand anywhere in a base and in a head branch, so a name
could be cut in many places. It is cut in one only (`BranchId.told_uniquely`),
because the base is given and because nothing that is read as a number holds a
dash: neither a sign nor leading zeros bring one in.
-/

namespace PlanSync

namespace Text

/-! ## Numerals -/

theorem digit?_of_isDigit {c : Char} (h : c.isDigit = true) :
    digit? c = some (c.toNat - '0'.toNat) := by
  unfold digit?
  rw [if_pos h]

/-- The value of digits, as the standard library computes it. -/
theorem digitsValue?_eq {cs : List Char} (h : ∀ c ∈ cs, c.isDigit = true) (acc : Nat) :
    digitsValue? acc cs = some (Nat.ofDigitChars 10 cs acc) := by
  induction cs generalizing acc with
  | nil => rw [Nat.ofDigitChars_nil, digitsValue?]
  | cons c cs ih =>
    rw [List.forall_mem_cons] at h
    rw [digitsValue?, digit?_of_isDigit h.1, Nat.ofDigitChars_cons, Nat.mul_comm 10]
    exact ih h.2 _

theorem isDigit_of_mem_decimalDigits {n : Nat} {c : Char} (h : c ∈ decimalDigits n) :
    c.isDigit = true :=
  Nat.isDigit_of_mem_toDigits (by decide) (by decide) h

theorem dash_not_mem_decimal (n : Nat) : '-' ∉ (decimal n).toList := by
  rw [decimal, String.toList_ofList]
  exact fun hdash => absurd (isDigit_of_mem_decimalDigits hdash) (by decide)

/-- **A numeral names one number.** -/
theorem decimal_injective {a b : Nat} (h : decimal a = decimal b) : a = b := by
  have hdigits : Nat.toDigits 10 a = Nat.toDigits 10 b := String.ofList_injective h
  calc
    a = Nat.ofDigitChars 10 (Nat.toDigits 10 a) 0 := Nat.ofDigitChars_ten_toDigits.symm
    _ = Nat.ofDigitChars 10 (Nat.toDigits 10 b) 0 := by rw [hdigits]
    _ = b := Nat.ofDigitChars_ten_toDigits

/-- **A numeral of 64 bits reads back**, and a longer one is not read. -/
theorem readWord?_decimal_eq_some_iff {n m : Nat} :
    readWord? (decimal n) = some m ↔ n = m ∧ m < wordBound := by
  have hvalue : digitsValue? 0 (decimalDigits n) = some n := by
    rw [digitsValue?_eq fun c hc => isDigit_of_mem_decimalDigits hc]
    exact congrArg some Nat.ofDigitChars_ten_toDigits
  have hempty : (decimalDigits n).isEmpty = false := by
    rw [List.isEmpty_eq_false_iff]
    exact Nat.toDigits_ne_nil
  unfold readWord? decimal
  rw [String.toList_ofList]
  split
  · -- no digit is a sign
    next cs hcs =>
    exact absurd (isDigit_of_mem_decimalDigits (hcs ▸ List.mem_cons_self)) (by decide)
  · show (if (decimalDigits n).isEmpty then none
      else (digitsValue? 0 (decimalDigits n)).filter (· < wordBound)) = some m ↔ _
    rw [hempty, if_neg Bool.false_ne_true, hvalue, Option.filter_eq_some_iff, Option.some.injEq,
      decide_eq_true_eq]

theorem readWord?_decimal {n : Nat} (h : n < wordBound) : readWord? (decimal n) = some n :=
  readWord?_decimal_eq_some_iff.mpr ⟨rfl, h⟩

/-- **Only digits have a value.** -/
theorem isDigit_of_digitsValue? {cs : List Char} {acc n : Nat} (h : digitsValue? acc cs = some n) :
    ∀ c ∈ cs, c.isDigit = true := by
  induction cs generalizing acc with
  | nil => exact fun _ hc => by cases hc
  | cons c cs ih =>
    unfold digitsValue? digit? at h
    by_cases hc : c.isDigit = true
    · rw [if_pos hc] at h
      exact List.forall_mem_cons.mpr ⟨hc, ih h⟩
    · rw [if_neg hc] at h
      cases h

/-- **A numeral that is read holds no dash.** -/
theorem dash_not_mem_of_readWord? {s : String} {n : Nat} (h : readWord? s = some n) :
    '-' ∉ s.toList := by
  have hdigits : ∀ {cs : List Char}, (if cs.isEmpty then none
      else (digitsValue? 0 cs).filter (· < wordBound)) = some n → '-' ∉ cs := by
    intro cs h hdash
    by_cases hempty : cs.isEmpty = true
    · rw [if_pos hempty] at h
      cases h
    · rw [if_neg hempty, Option.filter_eq_some_iff] at h
      exact absurd (isDigit_of_digitsValue? h.1 _ hdash) (by decide)
  unfold readWord? at h
  split at h
  · next cs hcs =>
    rw [hcs]
    exact List.not_mem_cons_of_ne_of_not_mem (by decide) (hdigits h)
  · exact hdigits h

end Text

namespace BranchId

/-! ## Names -/

theorem text_injective {a b : BranchId} (h : a.text = b.text) : a = b := by
  cases a
  cases b
  exact congrArg _ h

/-- **Ids that give one name are one.** -/
theorem nameFrom_injective {a b : BranchId} {base : String}
    (h : a.nameFrom base = b.nameFrom base) : a = b := by
  unfold nameFrom at h
  refine text_injective (String.toList_inj.mp ?_)
  have h := congrArg String.toList h
  simp only [String.toList_append] at h
  exact List.append_cancel_left h

/-- **An id tells its head branch and its number.** -/
theorem of_inj {head head' : String} {number number' : Nat} :
    of head number = of head' number' ↔ head = head' ∧ number = number' := by
  refine ⟨fun h => ?_, fun ⟨hhead, hnumber⟩ => hhead ▸ hnumber ▸ rfl⟩
  -- a numeral holds no dash, so the last dash is where the head branch ends
  obtain ⟨hhead, hnumber⟩ := (Text.append_separator_inj (Text.dash_not_mem_decimal number)
    (Text.dash_not_mem_decimal number')).mp (congrArg text h)
  exact ⟨hhead, Text.decimal_injective hnumber⟩

/-- A derived name is longer than what it is derived from. -/
theorem nameFrom_ne (id : BranchId) (base : String) : id.nameFrom base ≠ base := by
  intro h
  have h := congrArg (fun s => s.toList.length) h
  simp only [nameFrom, String.toList_append, List.length_append] at h
  have hdash : "-".toList.length = 1 := rfl
  omega

/-- **The id in a name**: the name is the one derived for it, and it ends in a dash
and the given number, with something before them; and the number is one of 64 bits. -/
theorem ofName?_eq_some_iff {name base number : String} {id : BranchId} :
    ofName? name base number = some id
      ↔ name = id.nameFrom base ∧ (∃ head, head ≠ "" ∧ id.text = head ++ "-" ++ number)
        ∧ ∃ n, Text.readWord? number = some n := by
  unfold ofName?
  simp only [bind, Option.bind_eq_some_iff, Text.dropStart?_eq_some_iff,
    Text.dropEnd?_eq_some_iff]
  constructor
  · rintro ⟨_, rfl, text, rfl, _, rfl, head, rfl, h⟩
    split at h
    · cases h
    · next hread =>
      simp only [Bool.or_eq_true, not_or, Bool.not_eq_true, decide_eq_false_iff_not,
        Option.isNone_eq_false_iff] at hread
      cases h
      exact ⟨String.append_assoc.symm, ⟨head, hread.1, rfl⟩, Option.isSome_iff_exists.mp hread.2⟩
  · rintro ⟨rfl, ⟨head, hhead, htext⟩, n, hn⟩
    refine ⟨_, String.append_assoc, id.text, rfl, _, htext, head, rfl, ?_⟩
    rw [hn, decide_eq_false hhead]
    rfl

/-- **A name tells only the id it was derived for.** -/
theorem eq_nameFrom_of_ofName? {name base number : String} {id : BranchId}
    (h : ofName? name base number = some id) : name = id.nameFrom base :=
  (ofName?_eq_some_iff.mp h).1

/-- **Where the id of a pull request is told**: from the name that is derived for it, by
its number as numbers are written, if the head branch is not empty and the number is one
of 64 bits. -/
theorem ofName?_eq_some_of_iff {name base number head : String} {n : Nat} :
    ofName? name base number = some (of head n)
      ↔ name = (of head n).nameFrom base ∧ head ≠ "" ∧ n < Text.wordBound
        ∧ number = Text.decimal n := by
  rw [ofName?_eq_some_iff]
  refine and_congr_right fun _ => ?_
  constructor
  · rintro ⟨⟨before, hbefore, htext⟩, m, hread⟩
    -- whatever is read as a number holds no dash either, so both cut at the last one
    obtain ⟨rfl, rfl⟩ := (Text.append_separator_inj (Text.dash_not_mem_decimal n)
      (Text.dash_not_mem_of_readWord? hread)).mp htext
    obtain ⟨rfl, hn⟩ := Text.readWord?_decimal_eq_some_iff.mp hread
    exact ⟨hbefore, hn, rfl⟩
  · rintro ⟨hhead, hn, rfl⟩
    exact ⟨⟨head, hhead, rfl⟩, n, Text.readWord?_decimal hn⟩

/-- **The id of a pull request is told only by its number**, written as numbers
are written. -/
theorem number_of_ofName? {name base number head : String} {n : Nat}
    (h : ofName? name base number = some (of head n)) : number = Text.decimal n :=
  (ofName?_eq_some_of_iff.mp h).2.2.2

/-- **A derived name tells its id**, from the base and the number. -/
theorem ofName?_nameFrom {head : String} {number : Nat} (base : String) (hhead : head ≠ "")
    (hnumber : number < Text.wordBound) :
    ofName? ((of head number).nameFrom base) base (Text.decimal number)
      = some (of head number) :=
  ofName?_eq_some_of_iff.mpr ⟨rfl, hhead, hnumber, rfl⟩

/-- **Ids are told uniquely**, wherever dashes and digits stand in the base, the head
branch and the number that is given.

An id has one head branch and one number. It is told from its derived name by the base and
the number, if the head branch is not empty. Whatever id is told from a name, the name is the
one derived for it, and the id is a head branch that is not empty, a dash and the number that
was given; so no two names tell one id for one base. And one text only tells the id of a pull
request, from any name at all: its number, as numbers are written. -/
theorem told_uniquely :
    (∀ head head' n n', of head n = of head' n' → head = head' ∧ n = n')
      ∧ (∀ base head n, head ≠ "" → n < Text.wordBound →
          ofName? ((of head n).nameFrom base) base (Text.decimal n) = some (of head n))
      ∧ (∀ name base number id, ofName? name base number = some id →
          name = id.nameFrom base ∧ ∃ head, head ≠ "" ∧ id.text = head ++ "-" ++ number)
      ∧ (∀ base name name' number number' id, ofName? name base number = some id →
          ofName? name' base number' = some id → name = name')
      ∧ ∀ head n number, (∃ name base, ofName? name base number = some (of head n))
          ↔ head ≠ "" ∧ n < Text.wordBound ∧ number = Text.decimal n := by
  refine ⟨fun _ _ _ _ => of_inj.mp, fun base _ _ => ofName?_nameFrom base,
    fun _ _ _ _ h => ?_, fun _ _ _ _ _ _ h h' => ?_, fun head n number => ⟨?_, fun h => ?_⟩⟩
  · obtain ⟨hname, hhead, -⟩ := ofName?_eq_some_iff.mp h
    exact ⟨hname, hhead⟩
  · exact (eq_nameFrom_of_ofName? h).trans (eq_nameFrom_of_ofName? h').symm
  · rintro ⟨_, _, h⟩
    exact (ofName?_eq_some_of_iff.mp h).2
  · exact ⟨_, "", ofName?_eq_some_of_iff.mpr ⟨rfl, h⟩⟩

/-- Among dashes and ones, there is one reading. -/
theorem told_uniquely_among_dashes :
    (∀ head n, of head n = ⟨"1-1-1"⟩ → head = "1-1" ∧ n = 1)
      ∧ ofName? "plan-1-1-1-1" "plan-1" "1" = some ⟨"1-1-1"⟩
      ∧ (∃ head, head ≠ "" ∧ "1-1-1" = head ++ "-" ++ "1")
      ∧ (∀ name number, ofName? name "plan-1" number = some ⟨"1-1-1"⟩ → name = "plan-1-1-1-1")
      ∧ ∀ name base number, ofName? name base number = some ⟨"1-1-1"⟩ → number = "1" := by
  obtain ⟨hinj, htold, hparts, hname, hnumber⟩ := told_uniquely
  have hid : ofName? "plan-1-1-1-1" "plan-1" "1" = some ⟨"1-1-1"⟩ :=
    htold "plan-1" "1-1" 1 (by decide) (by decide)
  refine ⟨fun head n h => hinj head "1-1" n 1 h, hid, (hparts _ _ _ _ hid).2, ?_, ?_⟩
  · exact fun name number h => hname "plan-1" _ _ number "1" _ h hid
  · exact fun name base number h => ((hnumber "1-1" 1 number).mp ⟨name, base, h⟩).2.2

/-- The base has to be given: a name may be derived from several. -/
example : ofName? "plan-1-2-3" "plan" "3" = some (of "1-2" 3)
    ∧ ofName? "plan-1-2-3" "plan-1" "3" = some (of "2" 3) := by
  decide +kernel

/-- A number that is written otherwise tells an id, too, but that of no pull request. -/
example : ofName? "plan-topic-+07" "plan" "+07" = some ⟨"topic-+07"⟩ := by
  decide +kernel

end BranchId

end PlanSync
