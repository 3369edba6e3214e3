import PlanSync.Json.Decode
import PlanSync.SortedMap

/-!
# The two kinds of objects

Planning configurations and the sources they read. A kind has a name, which
messages and documents use, and a plural, which storage paths use. Objects are
identified by kind, namespace and name.
-/

namespace PlanSync

/-- The kinds of objects a store holds. -/
inductive Kind where
  | terraform
  | gitRepository
  deriving DecidableEq, Inhabited

namespace Kind

/-- The name of a kind. -/
def name : Kind → String
  | terraform => "Terraform"
  | gitRepository => "GitRepository"

/-- The lower-case plural of a kind. -/
def plural : Kind → String
  | terraform => "terraforms"
  | gitRepository => "gitrepositories"

/-- The kind of a name. -/
def ofName? (s : String) : Option Kind :=
  if s = terraform.name then some terraform
  else if s = gitRepository.name then some gitRepository
  else none

/-- A kind is written as its name, or as an object with the name as its only
key and `null` under it. -/
def decoder : Decoder Kind
  | .string s =>
    match ofName? s with
    | some k => .ok k
    | none => .error .mismatch
  | .object ((some s, d) :: rest) close =>
    match ofName? s with
    | none => .error .mismatch
    | some k =>
      match d with
      | .null =>
        match rest, close with
        | [], none => .ok k
        | [], some b => .error b.naming
        | _ :: _, _ => .error .notAName
      | d => .error d.wrongShape
  | .object [] (some b) => .error b.naming
  | .unreadable => .error (.fault .malformed)
  | .broken b => .error b.naming
  | _ => .error .notAName

end Kind

/-- What identifies an object. -/
structure ObjectKey where
  kind : Kind
  namespaceName : String
  name : String
  deriving DecidableEq

namespace ObjectKey

/-- The parts by which keys are ordered. -/
def parts (k : ObjectKey) : List String :=
  [if k.kind = .terraform then "0" else "1", k.namespaceName, k.name]

theorem parts_injective {a b : ObjectKey} (h : a.parts = b.parts) : a = b := by
  rcases a with ⟨ka, na, ma⟩
  rcases b with ⟨kb, nb, mb⟩
  simp only [parts, List.cons.injEq, and_true] at h
  obtain ⟨hk, rfl, rfl⟩ := h
  cases ka <;> cases kb <;> simp_all

instance : LE ObjectKey := ⟨fun a b => a.parts ≤ b.parts⟩

instance : LT ObjectKey := ⟨fun a b => a.parts < b.parts⟩

instance : DecidableLT ObjectKey := fun a b => inferInstanceAs (Decidable (a.parts < b.parts))

instance : DecidableLE ObjectKey := fun a b => inferInstanceAs (Decidable (a.parts ≤ b.parts))

instance : Std.IsLinearOrder ObjectKey where
  le_refl a := Std.le_refl a.parts
  le_trans _ _ _ h h' := Std.le_trans (α := List String) h h'
  le_antisymm _ _ h h' := parts_injective (Std.le_antisymm (α := List String) h h')
  le_total a b := Std.le_total (a := a.parts) (b := b.parts)

instance : Std.LawfulOrderLT ObjectKey where
  lt_iff a b := Std.LawfulOrderLT.lt_iff a.parts b.parts

/-- `namespace/name`. -/
def path (k : ObjectKey) : String := k.namespaceName ++ "/" ++ k.name

end ObjectKey

end PlanSync
