import PlanSync.Proofs.Pass.Prediction

/-!
# Which derived names are valid

Three names are derived for a branch: those of the two objects, and that of the secret
that receives the outputs, if the template has one. Only the former are looked at when
pull requests are turned down, so only these are valid without further ado, and with
them the keys of the objects (`Pass.Input.valid_names`).

Of a name that is derived from a valid one, however, little can be wrong. Where the name
ends and the dash follows, a label goes on (`ObjectName.accepts_append_dash`); and that the
branch id may follow a dash, the names of the objects show already
(`ObjectName.accepts_of_append_dash`). What is left is the length: the secret may have a
longer name than the template and the source, and then its derived name can be too long
although theirs are not.
-/

namespace PlanSync

namespace ObjectName

variable {started ended : Bool} {xs ys : List Char}

/-- **What follows a dash continues a label.** -/
theorem accepts_of_append_dash (h : accepts started ended (xs ++ '-' :: ys) = true) :
    accepts true false ys = true := by
  induction xs generalizing started ended with
  | nil =>
    rw [List.nil_append, accepts, if_neg (by decide), if_neg (by decide), if_pos rfl] at h
    exact (Bool.and_eq_true_iff.mp h).2
  | cons c cs ih =>
    rw [List.cons_append, accepts] at h
    split at h
    · exact ih (Bool.and_eq_true_iff.mp h).2
    · split at h
      · exact ih h
      · split at h
        · exact ih (Bool.and_eq_true_iff.mp h).2
        · cases h

/-- **A label that may end goes on after a dash.** -/
theorem accepts_append_dash (hxs : accepts started ended xs = true)
    (hstarted : ended = true → started = true) (hys : accepts true false ys = true) :
    accepts started ended (xs ++ '-' :: ys) = true := by
  induction xs generalizing started ended with
  | nil =>
    rw [List.nil_append, accepts, if_neg (by decide), if_neg (by decide), if_pos rfl, hys,
      hstarted hxs, Bool.and_self]
  | cons c cs ih =>
    rw [accepts] at hxs
    rw [List.cons_append, accepts]
    -- a character leads to one state of both texts
    split
    · next hdot =>
      rw [if_pos hdot, Bool.and_eq_true_iff] at hxs
      rw [hxs.1, Bool.true_and]
      exact ih hxs.2 fun h => h
    · next hdot =>
      rw [if_neg hdot] at hxs
      split
      · next hchar =>
        rw [if_pos hchar] at hxs
        exact ih hxs fun _ => rfl
      · next hchar =>
        rw [if_neg hchar] at hxs
        split
        · next hdash =>
          rw [if_pos hdash, Bool.and_eq_true_iff] at hxs
          rw [hxs.1, Bool.true_and]
          exact ih hxs.2 fun _ => rfl
        · next hdash =>
          rw [if_neg hdash] at hxs
          cases hxs

end ObjectName

namespace BranchId

variable {id : BranchId} {base name : String}

theorem toList_nameFrom (id : BranchId) (base : String) :
    (id.nameFrom base).toList = base.toList ++ '-' :: id.text.toList := by
  rw [nameFrom, String.toList_append, String.toList_append, List.append_assoc]
  rfl

theorem utf8ByteSize_nameFrom (id : BranchId) (base : String) :
    (id.nameFrom base).utf8ByteSize = base.utf8ByteSize + 1 + id.text.utf8ByteSize := by
  rw [nameFrom, String.utf8ByteSize_append, String.utf8ByteSize_append]
  rfl

/-- **Only its length can be wrong** with a name that is derived from a valid one for an
id that is in another valid name. -/
theorem isValid_nameFrom_iff (hbase : ObjectName.isValid (id.nameFrom base) = true)
    (hname : ObjectName.isValid name = true) :
    ObjectName.isValid (id.nameFrom name) = true
      ↔ name.utf8ByteSize + 1 + id.text.utf8ByteSize ≤ ObjectName.maxLength := by
  have hend : ObjectName.accepts true false id.text.toList = true := by
    have haccepts := (Bool.and_eq_true_iff.mp hbase).2
    rw [toList_nameFrom] at haccepts
    exact ObjectName.accepts_of_append_dash haccepts
  have haccepts : ObjectName.accepts false false (id.nameFrom name).toList = true := by
    rw [toList_nameFrom]
    exact ObjectName.accepts_append_dash (Bool.and_eq_true_iff.mp hname).2 (fun h => h) hend
  rw [ObjectName.isValid, haccepts, Bool.and_true, decide_eq_true_eq, utf8ByteSize_nameFrom]

end BranchId

/-- The secret that receives the outputs of a configuration. -/
def Object.outputsSecret (o : Terraform) : Option OutputsSecret :=
  TerraformSpec.outputsSecret o.spec

namespace Pass.Input

variable {i : Input} {wanted : DesiredState} {id : BranchId} {pair : DesiredPair}

/-- **The secret of a pair** is that of the template, under a name of its own. -/
theorem outputsSecret_terraform (h : i.derive? = some wanted)
    (hp : wanted.pairs.get? id = some pair) :
    pair.terraform.outputsSecret
      = i.template.outputsSecret.map fun s => { s with name := id.nameFrom s.name } := by
  obtain ⟨pr, -, rfl, -, rfl⟩ := of_get?_pairs h hp
  rfl

theorem isValid_name_half (h : i.derive? = some wanted) (hp : wanted.pairs.get? id = some pair)
    (k : Kind) : ObjectName.isValid (pair.half k).name = true := by
  obtain ⟨-, -, -, hbad, -⟩ := of_get?_pairs h hp
  have hname : (pair.half k).name = (i.derivedKey k id).name :=
    congrArg ObjectKey.name (key_half h hp k)
  rw [hname]
  exact isValid_of_namesValid (badName?_eq_none_iff.mp hbad) k

/-- **Which derived names are valid.** The names of both objects of a pair are, and their
keys can be stored in every namespace that can. If the template names a secret for its
outputs, then the pair names one, too; and if the former has a valid name, then so has the
latter, exactly as long as it is not too long. -/
theorem valid_names (h : i.derive? = some wanted) (hp : wanted.pairs.get? id = some pair) :
    (∀ k, ObjectName.isValid (pair.half k).name = true)
      ∧ (∀ k ns, Naming.isStorable ns = true →
          Naming.checkKey ⟨k, ns, (pair.half k).name⟩ = .ok ())
      ∧ ∀ s, i.template.outputsSecret = some s → ∃ s', pair.terraform.outputsSecret = some s'
          ∧ s'.name = id.nameFrom s.name
          ∧ (ObjectName.isValid s.name = true → (ObjectName.isValid s'.name = true
            ↔ s.name.utf8ByteSize + 1 + id.text.utf8ByteSize ≤ ObjectName.maxLength)) := by
  have hvalid := isValid_name_half h hp
  refine ⟨hvalid, fun k ns hns => ?_, fun s hs => ?_⟩
  · exact Naming.checkKey_of_isStorable hns (ObjectName.isStorable_of_isValid (hvalid k))
  · refine ⟨{ s with name := id.nameFrom s.name }, ?_, rfl, fun hname => ?_⟩
    · rw [outputsSecret_terraform h hp, hs, Option.map_some]
    · have hbase : ObjectName.isValid (id.nameFrom i.template.name) = true := by
        obtain ⟨-, -, -, hbad, -⟩ := of_get?_pairs h hp
        exact isValid_of_namesValid (badName?_eq_none_iff.mp hbad) .terraform
      exact BranchId.isValid_nameFrom_iff hbase hname

/-- A template that sends its outputs to a secret of the given name. -/
def secretInput (secret : String) : Input :=
  { sampleInput with
    template :=
      { sampleInput.template with
        spec :=
          ({ sourceRef := { kind := "GitRepository", name := "repo" },
             outputsSecret := some { name := secret } } : TerraformSpec) } }

/-- The secret of a branch has a valid name beside those of the objects. -/
theorem valid_names_of_outputs :
    ∃ wanted pair s, (secretInput "outputs").derive? = some wanted
      ∧ wanted.pairs.get? (.of "topic" 7) = some pair
      ∧ (∀ k, Naming.checkKey ⟨k, "team", (pair.half k).name⟩ = .ok ())
      ∧ pair.terraform.outputsSecret = some s ∧ s.name = "outputs-topic-7"
      ∧ ObjectName.isValid s.name = true := by
  have hids : (secretInput "outputs").derive?.map (·.pairs.keys) = some [.of "topic" 7] := by
    decide +kernel
  obtain ⟨wanted, pair, hw, hp⟩ := exists_get?_of_keys hids (List.mem_singleton_self _)
  obtain ⟨-, hkeys, hsecret⟩ := valid_names hw hp
  obtain ⟨s, hs, hname, hvalid⟩ := hsecret { name := "outputs" } rfl
  exact ⟨wanted, pair, s, hw, hp, fun k => hkeys k "team" (by decide +kernel), hs, hname,
    (hvalid (by decide +kernel)).mpr (by decide +kernel)⟩

/-- A name of 246 letters. -/
def longName : String := String.ofList (List.replicate 246 'a')

/-- It is valid, and with a dash and the branch id after it, it is too long. The pair is
derived nevertheless. -/
theorem long_secret_derived :
    ∃ wanted pair s, (secretInput longName).derive? = some wanted
      ∧ wanted.pairs.get? (.of "topic" 7) = some pair ∧ ObjectName.isValid longName = true
      ∧ pair.terraform.outputsSecret = some s ∧ ObjectName.isValid s.name = false := by
  have hids : (secretInput longName).derive?.map (·.pairs.keys) = some [.of "topic" 7] := by
    decide +kernel
  obtain ⟨wanted, pair, hw, hp⟩ := exists_get?_of_keys hids (List.mem_singleton_self _)
  exact ⟨wanted, pair, _, hw, hp, by decide +kernel, outputsSecret_terraform hw hp,
    by decide +kernel⟩

end Pass.Input

end PlanSync
