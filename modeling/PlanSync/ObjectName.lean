import PlanSync.Text.Cut

/-!
# Object names

Stores take names of at most 253 bytes that are made of labels between dots;
a label is made of lower-case letters, digits and dashes, and neither begins
nor ends with a dash.
-/

namespace PlanSync.ObjectName

/-- The greatest length of a name, in bytes. -/
def maxLength : Nat := 253

/-- A lower-case letter or a digit. -/
def isAlphanumeric (c : Char) : Bool := ('a' ≤ c && c ≤ 'z') || ('0' ≤ c && c ≤ '9')

/-- Read labels from left to right. `ended` says whether the label so far may
end here: it has a last character, and that is no dash. `started` says whether
it has begun. -/
def accepts (started ended : Bool) : List Char → Bool
  | [] => ended
  | c :: cs =>
    if c = '.' then ended && accepts false false cs
    else if isAlphanumeric c then accepts true true cs
    else if c = '-' then started && accepts true false cs
    else false

/-- Whether a text can be the name of an object. -/
def isValid (s : String) : Bool := s.utf8ByteSize ≤ maxLength && accepts false false s.toList

end PlanSync.ObjectName
