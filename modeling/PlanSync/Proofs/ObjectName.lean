import Mathlib.Computability.Language
import PlanSync.ObjectName
import PlanSync.Proofs.Text.Cut

/-!
# What an object name is

Names are read from left to right, and a reader knows no more of the label it is in than
whether it has begun and whether it may end. This is enough to tell labels between dots
(`ObjectName.accepts_iff`): a label that has begun well (`ObjectName.Begun`) may end exactly
if it is a label already.

The same texts are those of a regular expression (`ObjectName.mem_pattern_iff`), which is
given here as the language it denotes. It can take a label apart in several ways, as a
character of a label may be read by the star or stand behind it; but there is one way only
to take the labels apart, for none of them holds a dot.
-/

namespace PlanSync

namespace ObjectName

open Computability

variable {cs pre : List Char} {c : Char}

/-! ## Labels -/

/-- The characters of a label. -/
def IsLabelChar (c : Char) : Prop := ('a' ≤ c ∧ c ≤ 'z') ∨ ('0' ≤ c ∧ c ≤ '9') ∨ c = '-'

instance : DecidablePred IsLabelChar := fun c =>
  inferInstanceAs (Decidable (('a' ≤ c ∧ c ≤ 'z') ∨ ('0' ≤ c ∧ c ≤ '9') ∨ c = '-'))

/-- **A label** of a name. -/
structure IsLabel (cs : List Char) : Prop where
  nonempty : cs ≠ []
  chars : ∀ c ∈ cs, IsLabelChar c
  head : cs.head? ≠ some '-'
  last : cs.getLast? ≠ some '-'

/-- **A label that has begun well**, and may have to go on before it can end. -/
structure Begun (cs : List Char) : Prop where
  chars : ∀ c ∈ cs, IsLabelChar c
  head : cs.head? ≠ some '-'

theorem isLabelChar_iff : IsLabelChar c ↔ isAlphanumeric c = true ∨ c = '-' := by
  simp only [IsLabelChar, isAlphanumeric, Bool.or_eq_true, Bool.and_eq_true, decide_eq_true_eq,
    or_assoc]

theorem dot_not_mem (h : ∀ c ∈ cs, IsLabelChar c) : '.' ∉ cs := fun hdot =>
  absurd (h '.' hdot) (by decide)

theorem begun_nil : Begun [] := ⟨nofun, nofun⟩

theorem IsLabel.begun (h : IsLabel cs) : Begun cs := ⟨h.chars, h.head⟩

namespace Begun

/-- A label goes on with an alphanumeric character, and then it may end. -/
theorem snoc_alphanumeric (h : Begun pre) (hc : isAlphanumeric c = true) :
    IsLabel (pre ++ [c]) := by
  have hdash : c ≠ '-' := by
    rintro rfl
    exact absurd hc (by decide)
  refine ⟨List.append_ne_nil_of_right_ne_nil _ (List.cons_ne_nil _ _), fun d hd => ?_, ?_, ?_⟩
  · rcases List.mem_append.mp hd with hd | hd
    · exact h.chars d hd
    · rw [List.mem_singleton.mp hd]
      exact isLabelChar_iff.mpr (.inl hc)
  · cases pre with
    | nil => simpa using hdash
    | cons d ds => exact h.head
  · simpa using hdash

/-- A label that has begun goes on with a dash, and then it may not end. -/
theorem snoc_dash (h : Begun pre) (hne : pre ≠ []) : Begun (pre ++ ['-']) := by
  refine ⟨fun d hd => ?_, ?_⟩
  · rcases List.mem_append.mp hd with hd | hd
    · exact h.chars d hd
    · exact isLabelChar_iff.mpr (.inr (List.mem_singleton.mp hd))
  · cases pre with
    | nil => exact absurd rfl hne
    | cons d ds => exact h.head

end Begun

/-! ## Reading -/

/-- Whether a label that has begun well may end. -/
def mayEnd (pre : List Char) : Bool := !pre.isEmpty && pre.getLast? ≠ some '-'

theorem mayEnd_iff (h : Begun pre) : mayEnd pre = true ↔ IsLabel pre := by
  rw [mayEnd, Bool.and_eq_true, Bool.not_eq_true', List.isEmpty_eq_false_iff, decide_eq_true_eq]
  exact ⟨fun ⟨hne, hlast⟩ => ⟨hne, h.chars, h.head, hlast⟩, fun hl => ⟨hl.nonempty, hl.last⟩⟩

theorem mayEnd_snoc (pre : List Char) (c : Char) : mayEnd (pre ++ [c]) = decide (c ≠ '-') := by
  simp [mayEnd]

/-- **Reading goes on to labels** exactly if all pieces are labels, the first of them with what
has been read of it. -/
theorem accepts_iff (h : Begun pre) : accepts (!pre.isEmpty) (mayEnd pre) cs = true
    ↔ ∀ p ∈ Text.piecesOf '.' (pre ++ cs), IsLabel p := by
  have hdot := dot_not_mem h.chars
  induction cs generalizing pre with
  | nil =>
    rw [accepts, mayEnd_iff h, List.append_nil, Text.piecesOf_of_not_mem hdot,
      List.forall_mem_singleton]
  | cons c cs ih =>
    rw [accepts]
    split
    · next hc =>
      -- the label ends here, and another begins
      have ih : accepts false false cs = true ↔ _ := ih begun_nil List.not_mem_nil
      rw [hc, Bool.and_eq_true, mayEnd_iff h, ih, List.nil_append, Text.piecesOf_append_cons,
        Text.piecesOf_of_not_mem hdot, List.singleton_append, List.forall_mem_cons]
    · next hc =>
      have hdot' : '.' ∉ pre ++ [c] := by
        rw [List.mem_append, List.mem_singleton, not_or]
        exact ⟨hdot, Ne.symm hc⟩
      have happend : pre ++ c :: cs = (pre ++ [c]) ++ cs := List.append_cons pre c cs
      have hstarted : (!(pre ++ [c]).isEmpty) = true := by simp
      split
      · next hchar =>
        have hlabel := h.snoc_alphanumeric hchar
        have ih := ih hlabel.begun hdot'
        rwa [hstarted, (mayEnd_iff hlabel.begun).mpr hlabel, ← happend] at ih
      · next hchar =>
        obtain ⟨p, ps, hpieces⟩ := Text.exists_piecesOf_append hdot' cs
        split
        · next hdash =>
          subst hdash
          cases pre with
          | nil =>
            rw [happend, hpieces]
            exact ⟨nofun, fun hp => absurd rfl (hp _ List.mem_cons_self).head⟩
          | cons d ds =>
            have ih := ih (h.snoc_dash (List.cons_ne_nil _ _)) hdot'
            rwa [hstarted, mayEnd_snoc, ← happend] at ih
        · next hdash =>
          rw [happend, hpieces]
          refine ⟨nofun, fun hp => ?_⟩
          rcases isLabelChar_iff.mp ((hp _ List.mem_cons_self).chars c (by simp)) with hc | hc
          · exact absurd hc hchar
          · exact absurd hc hdash

/-! ## The regular expression -/

/-- The texts of one character of a class. -/
def oneOf (p : Char → Prop) : Language Char := {cs | ∃ c, p c ∧ cs = [c]}

/-- The labels of a name: a character that is no dash, and behind it nothing, or any characters
and another one that is no dash. -/
def label : Language Char :=
  oneOf (isAlphanumeric · = true) * (1 + (oneOf IsLabelChar)∗ * oneOf (isAlphanumeric · = true))

/-- **Labels between dots**, at least one. -/
def pattern : Language Char := label * (oneOf (· = '.') * label)∗

theorem mem_oneOf {p : Char → Prop} : cs ∈ oneOf p ↔ ∃ c, p c ∧ cs = [c] := Iff.rfl

theorem mem_kstar_oneOf {p : Char → Prop} : cs ∈ (oneOf p)∗ ↔ ∀ c ∈ cs, p c := by
  rw [Language.mem_kstar]
  constructor
  · rintro ⟨words, rfl, hwords⟩ c hc
    obtain ⟨word, hword, hc⟩ := List.mem_flatten.mp hc
    obtain ⟨d, hd, rfl⟩ := mem_oneOf.mp (hwords word hword)
    rwa [List.mem_singleton.mp hc]
  · intro h
    refine ⟨cs.map ([·]), (List.flatMap_singleton' cs).symm, fun word hword => ?_⟩
    obtain ⟨c, hc, rfl⟩ := List.mem_map.mp hword
    exact ⟨c, h c hc, rfl⟩

/-- **The texts of a label** are the labels. -/
theorem mem_label_iff : cs ∈ label ↔ IsLabel cs := by
  have halphanumeric {c : Char} (h : c ≠ '-') : IsLabelChar c ↔ isAlphanumeric c = true := by
    rw [isLabelChar_iff, or_iff_left h]
  simp only [label, Language.mem_mul, Language.mem_add, Language.mem_one, mem_oneOf,
    mem_kstar_oneOf]
  constructor
  · rintro ⟨_, ⟨c, hc, rfl⟩, _, rfl | ⟨middle, hmiddle, _, ⟨d, hd, rfl⟩, rfl⟩, rfl⟩
    · exact begun_nil.snoc_alphanumeric hc
    · have hbegun : Begun ([c] ++ middle) := by
        refine ⟨fun e he => ?_, (begun_nil.snoc_alphanumeric hc).head⟩
        rcases List.mem_cons.mp he with rfl | he
        · exact isLabelChar_iff.mpr (.inl hc)
        · exact hmiddle e he
      rw [← List.append_assoc]
      exact hbegun.snoc_alphanumeric hd
  · intro h
    obtain ⟨c, rest, rfl⟩ := List.exists_cons_of_ne_nil h.nonempty
    have hc : isAlphanumeric c = true :=
      (halphanumeric fun hdash => h.head (congrArg some hdash)).mp (h.chars c List.mem_cons_self)
    refine ⟨[c], ⟨c, hc, rfl⟩, rest, ?_, rfl⟩
    rcases List.eq_nil_or_concat' rest with rfl | ⟨middle, d, rfl⟩
    · exact .inl rfl
    · have hd : isAlphanumeric d = true := by
        refine (halphanumeric fun hdash => h.last ?_).mp (h.chars d (by simp))
        rw [hdash, ← List.cons_append, List.getLast?_concat]
      exact .inr ⟨middle, fun e he => h.chars e (by simp [he]), [d], ⟨d, hd, rfl⟩, rfl⟩

/-- **The texts of the pattern** are those whose pieces are labels. -/
theorem mem_pattern_iff : cs ∈ pattern ↔ ∀ p ∈ Text.piecesOf '.' cs, IsLabel p := by
  simp only [pattern, Language.mem_mul, Language.mem_kstar, mem_label_iff]
  constructor
  · rintro ⟨first, hfirst, _, ⟨words, rfl, hwords⟩, rfl⟩
    have hdot {l : List Char} (hl : IsLabel l) : '.' ∉ l := dot_not_mem hl.chars
    induction words generalizing first with
    | nil =>
      rw [List.flatten_nil, List.append_nil, Text.piecesOf_of_not_mem (hdot hfirst),
        List.forall_mem_singleton]
      exact hfirst
    | cons word words ih =>
      rw [List.forall_mem_cons] at hwords
      obtain ⟨⟨_, ⟨_, rfl, rfl⟩, next, hnext, rfl⟩, hwords⟩ := hwords
      rw [List.flatten_cons, List.append_assoc, List.singleton_append,
        Text.piecesOf_append_cons, Text.piecesOf_of_not_mem (hdot hfirst), List.singleton_append,
        List.forall_mem_cons]
      exact ⟨hfirst, ih next hnext hwords⟩
  · intro h
    obtain ⟨p, ps, hpieces⟩ := List.exists_cons_of_ne_nil (Text.piecesOf_ne_nil '.' cs)
    have hcs := Text.intercalate_piecesOf '.' cs
    rw [hpieces, Text.intercalate_cons] at hcs
    rw [hpieces, List.forall_mem_cons] at h
    refine ⟨p, h.1, _, ⟨_, rfl, fun word hword => ?_⟩, hcs⟩
    obtain ⟨next, hnext, rfl⟩ := List.mem_map.mp hword
    exact ⟨['.'], ⟨'.', rfl, rfl⟩, next, h.2 next hnext, rfl⟩

/-! ## Names -/

/-- The characters of a label are ASCII characters that are printed. -/
theorem IsLabelChar.printed (h : IsLabelChar c) : c.toNat < 128 ∧ c ≠ '\n' := by
  rcases h with ⟨hleast, hgreatest⟩ | ⟨hleast, hgreatest⟩ | rfl
  · have hgreatest : c.toNat ≤ 122 := hgreatest
    refine ⟨by omega, ?_⟩
    rintro rfl
    exact absurd hleast (by decide)
  · have hgreatest : c.toNat ≤ 57 := hgreatest
    refine ⟨by omega, ?_⟩
    rintro rfl
    exact absurd hleast (by decide)
  · decide

theorem isValid_iff_pieces {s : String} : isValid s = true
    ↔ s.utf8ByteSize ≤ maxLength ∧ ∀ p ∈ Text.piecesOf '.' s.toList, IsLabel p := by
  have haccepts : accepts false false s.toList = true ↔ _ := accepts_iff begun_nil
  rw [List.nil_append] at haccepts
  rw [isValid, Bool.and_eq_true, decide_eq_true_eq, haccepts]

/-- A valid name is made of dots and of the characters of labels. -/
theorem eq_dot_or_isLabelChar {s : String} (h : isValid s = true) (hc : c ∈ s.toList) :
    c = '.' ∨ IsLabelChar c := by
  rcases Text.mem_piecesOf_of_mem '.' hc with rfl | ⟨p, hp, hc⟩
  · exact .inl rfl
  · exact .inr (((isValid_iff_pieces.mp h).2 p hp).chars c hc)

/-- Other characters are in no valid name. -/
theorem not_mem_of_isValid {s : String} (h : isValid s = true) (hdot : c ≠ '.')
    (hc : ¬ IsLabelChar c) : c ∉ s.toList := fun hmem =>
  (eq_dot_or_isLabelChar h hmem).elim hdot hc

/-- **What a valid name is**: a text of at most 253 bytes whose pieces between dots are labels.
These are the texts of the pattern. None is empty, and none holds a line break or a character
that is not ASCII. -/
theorem isValid_iff_labels (s : String) :
    (isValid s = true ↔
        s.utf8ByteSize ≤ 253 ∧ ∀ part ∈ Text.pieces '.' s, IsLabel part.toList)
      ∧ (isValid s = true ↔ s.utf8ByteSize ≤ 253 ∧ s.toList ∈ pattern)
      ∧ (isValid s = true → s ≠ "" ∧ ∀ c ∈ s.toList, c.toNat < 128 ∧ c ≠ '\n') := by
  have hpieces : (∀ part ∈ Text.pieces '.' s, IsLabel part.toList)
      ↔ ∀ p ∈ Text.piecesOf '.' s.toList, IsLabel p := by
    simp only [Text.pieces, List.forall_mem_map, String.toList_ofList]
  refine ⟨?_, ?_, fun h => ⟨?_, fun c hc => ?_⟩⟩
  · rw [isValid_iff_pieces, hpieces, maxLength]
  · rw [isValid_iff_pieces, mem_pattern_iff, maxLength]
  · rintro rfl
    cases h
  · rcases eq_dot_or_isLabelChar h hc with rfl | hc
    · decide
    · exact hc.printed

/-- A name of two labels is one, and is none with a line break behind it. -/
theorem isValid_iff_labels_of_two :
    isValid "a.b-c" = true ∧ isValid "a.b-c\n" = false
      ∧ (∀ part ∈ Text.pieces '.' "a.b-c", IsLabel part.toList)
      ∧ "a.b-c".toList ∈ pattern := by
  have hvalid : isValid "a.b-c" = true := by decide
  obtain ⟨hlabels, hpattern, -⟩ := isValid_iff_labels "a.b-c"
  refine ⟨hvalid, ?_, (hlabels.mp hvalid).2, (hpattern.mp hvalid).2⟩
  refine Bool.eq_false_iff.mpr fun hline => ?_
  exact (((isValid_iff_labels "a.b-c\n").2.2 hline).2 '\n' (by decide)).2 rfl

end ObjectName

end PlanSync
