import PlanSync.Proofs.Store.Memory

/-!
# Listing

A listing of a sound store gives exactly the objects that the store holds in
the namespace and that the selector accepts (`Memory.mem_list`), each once. It
succeeds if and only if every cell of the kind and namespace can be read
(`Memory.list_eq_ok_iff`), whatever the selector asks for.
-/

namespace PlanSync.Memory

variable {k : Kind}

/-! ## Decoding one after the other -/

theorem exists_decodeAll {selector : Selector} {js : List Json} :
    (∃ os, decodeAll k selector js = .ok os) ↔ ∀ j ∈ js, ∃ o, decode k j = .ok o := by
  induction js with
  | nil => exact ⟨fun _ _ h => (by cases h), fun _ => ⟨[], rfl⟩⟩
  | cons j js ih =>
    rw [List.forall_mem_cons, ← ih]
    constructor
    · rintro ⟨os, h⟩
      obtain ⟨o, ho, h⟩ := Answer.bind_eq_ok.mp h
      obtain ⟨os', hos, -⟩ := Answer.bind_eq_ok.mp h
      exact ⟨⟨o, ho⟩, ⟨os', hos⟩⟩
    · rintro ⟨⟨o, ho⟩, ⟨os, hos⟩⟩
      refine ⟨_, Answer.bind_eq_ok.mpr ⟨o, ho, Answer.bind_eq_ok.mpr ⟨os, hos, rfl⟩⟩⟩

theorem mem_decodeAll {selector : Selector} {js : List Json} {os : List (Object k)}
    (h : decodeAll k selector js = .ok os) (o : Object k) :
    o ∈ os ↔ selector.accepts o.labels = true ∧ ∃ j ∈ js, decode k j = .ok o := by
  induction js generalizing os with
  | nil =>
    cases h
    simp
  | cons j js ih =>
    obtain ⟨o', ho', h⟩ := Answer.bind_eq_ok.mp h
    obtain ⟨os', hos, h⟩ := Answer.bind_eq_ok.mp h
    have ih := ih hos
    have hhead : decode k j = .ok o ↔ o = o' := by
      rw [ho']
      exact ⟨fun h => (Except.ok.inj h).symm, fun h => congrArg _ h.symm⟩
    cases h
    simp only [List.mem_cons, exists_eq_or_imp, hhead]
    split
    · next ha =>
      rw [List.mem_cons, ih]
      constructor
      · rintro (rfl | ⟨ha', hj⟩)
        · exact ⟨ha, .inl rfl⟩
        · exact ⟨ha', .inr hj⟩
      · rintro ⟨ha', rfl | hj⟩
        · exact .inl rfl
        · exact .inr ⟨ha', hj⟩
    · next ha =>
      rw [ih]
      constructor
      · exact fun ⟨ha', hj⟩ => ⟨ha', .inr hj⟩
      · rintro ⟨ha', rfl | hj⟩
        · exact absurd ha' ha
        · exact ⟨ha', hj⟩

/-- Objects come in the order of the cells they are read from. -/
theorem keys_decodeAll {selector : Selector} {es : List (ObjectKey × Json)} {os : List (Object k)}
    (h : decodeAll k selector (es.map Prod.snd) = .ok os)
    (hkey : ∀ e ∈ es, ∀ o, decode k e.2 = .ok o → o.key = e.1) :
    (os.map Object.key).Sublist (es.map Prod.fst) := by
  induction es generalizing os with
  | nil =>
    cases h
    exact List.Sublist.refl _
  | cons e es ih =>
    obtain ⟨o, ho, h⟩ := Answer.bind_eq_ok.mp h
    obtain ⟨os', hos, h⟩ := Answer.bind_eq_ok.mp h
    rw [List.forall_mem_cons] at hkey
    have ih := ih hos hkey.2
    cases h
    split
    · rw [List.map_cons, List.map_cons, hkey.1 o ho]
      exact ih.cons_cons _
    · exact ih.cons _

/-! ## The cells of a namespace -/

/-- **All cells of a kind in a namespace can be read.** -/
def ReadableIn (m : Memory) (k : Kind) (namespaceName : String) : Prop :=
  ∀ name j, m.cell ⟨k, namespaceName, name⟩ = some j → ∃ o, decode k j = .ok o

theorem mem_valuesIn {m : Memory} {namespaceName : String} {j : Json} :
    j ∈ m.valuesIn k namespaceName ↔ ∃ name, m.cell ⟨k, namespaceName, name⟩ = some j := by
  simp only [valuesIn, List.mem_map, List.mem_filter, SortedMap.mem_entries_iff, cell,
    Bool.and_eq_true, decide_eq_true_eq]
  constructor
  · rintro ⟨⟨⟨k', ns, name⟩, j⟩, ⟨hj, rfl, rfl⟩, rfl⟩
    exact ⟨name, hj⟩
  · rintro ⟨name, hj⟩
    exact ⟨⟨⟨k, namespaceName, name⟩, j⟩, ⟨hj, rfl, rfl⟩, rfl⟩

/-- **Listing succeeds exactly when every cell can be read.** -/
theorem list_eq_ok_iff {m : Memory} {namespaceName : String} {selector : Selector} :
    (∃ os, m.list k namespaceName selector = .ok os) ↔ m.ReadableIn k namespaceName := by
  rw [list, exists_decodeAll]
  constructor
  · exact fun h name j hj => h j (mem_valuesIn.mpr ⟨name, hj⟩)
  · intro h j hj
    obtain ⟨name, hj⟩ := mem_valuesIn.mp hj
    exact h name j hj

section Listed

variable {m : Memory} {namespaceName : String} {selector : Selector} {os : List (Object k)}

/-- **A listing gives the objects that are held and accepted.** -/
theorem mem_list (hm : m.Sound) (h : m.list k namespaceName selector = .ok os) (o : Object k) :
    o ∈ os ↔ m.Holds o ∧ o.namespaceName = namespaceName
      ∧ selector.accepts o.labels = true := by
  rw [mem_decodeAll h]
  constructor
  · rintro ⟨ha, j, hj, hd⟩
    obtain ⟨name, hj⟩ := mem_valuesIn.mp hj
    have hkey := (hm.key_of_decode hj hd).1
    exact ⟨⟨j, hkey ▸ hj, hd⟩, congrArg ObjectKey.namespaceName hkey, ha⟩
  · rintro ⟨⟨j, hj, hd⟩, rfl, ha⟩
    exact ⟨ha, j, mem_valuesIn.mpr ⟨o.name, hj⟩, hd⟩

/-- **A listing gives every object once**, ordered by key. -/
theorem sorted_list (hm : m.Sound) (h : m.list k namespaceName selector = .ok os) :
    (os.map Object.key).Pairwise (· < ·) := by
  refine List.Pairwise.sublist (keys_decodeAll h fun e he o hd => ?_)
    (List.pairwise_map.mpr (m.objects.sorted.filter _))
  obtain ⟨hmem, hp⟩ := List.mem_filter.mp he
  obtain ⟨⟨k', ns, name⟩, j⟩ := e
  simp only [Bool.and_eq_true, decide_eq_true_eq] at hp
  obtain ⟨rfl, rfl⟩ := hp
  exact (hm.key_of_decode (SortedMap.mem_entries_iff.mp hmem) hd).1

theorem nodup_list (hm : m.Sound) (h : m.list k namespaceName selector = .ok os) :
    (os.map Object.key).Nodup :=
  (sorted_list hm h).imp fun {a b} hlt heq => by
    rw [heq] at hlt
    exact Std.lt_irrefl hlt

end Listed

end PlanSync.Memory
