import PlanSync.Proofs.Store.Staged
import PlanSync.Proofs.Store.Staleness

/-!
# What is written to files is found again

A store in files keeps texts, and what its clients get is read from them. If all objects that
were written are such as a text keeps exactly (`Object.Textual`), then every text of the store
can be read (`FileStore.Legible`), and whoever has written an object finds it again as it was
answered, under its key and in the listings that ask for its labels, for as long as nobody
changes it (`FileStore.found_again`).

Files that are staged make no difference.
-/

namespace PlanSync

/-- **What a request writes, a text keeps exactly.** -/
def Request.Textual : Request → Prop
  | create _ o => o.Textual
  | update _ o => o.Textual
  | _ => True

namespace FileStore

open FileTree

variable {root : String} {base : Location} {clock : FileTree → Timestamp} {t t' : FileTree}
  {k : Kind} {key : ObjectKey} {r : Request} {c : Copy}

/-! ## One request -/

/-- **Legible**: all texts can be read. -/
def Legible (base : Location) (t : FileTree) : Prop :=
  ∀ key text, textAt base t key = some text → ∃ o : Object key.kind, decode key.kind text = .ok o

/-- **A copy stands in a tree**: the text under its key reads as the object. -/
def Stands (base : Location) (t : FileTree) (c : Copy) : Prop :=
  ∃ text, textAt base t c.key = some text ∧ decode c.1 text = .ok c.2

/-- What is written exactly stands, and all texts can still be read. -/
theorem stands_of_write {o : Object k} (hread : decode k (content o) = .ok o)
    (htexts : ∀ key, textAt base t' key = if key = o.key then some (content o)
      else textAt base t key) (h : Legible base t) : Legible base t' ∧ Stands base t' ⟨k, o⟩ := by
  refine ⟨fun key text htext => ?_, content o, (htexts _).trans (if_pos rfl), hread⟩
  rw [htexts] at htext
  split at htext
  · next hkey =>
    subst hkey
    cases htext
    exact ⟨o, hread⟩
  · exact h key text htext

namespace Issued

variable {result : Except StoreError (List Copy)} {copies : List Copy}

/-- **A request keeps all texts legible**, and what it writes stands. -/
theorem legible_and_stands (hbefore : Layout root base t) (h : Issued root base t r result t')
    (hr : r.Textual) (hlegible : Legible base t) :
    Legible base t' ∧ (r.isWrite = true → ∀ copies, result = .ok copies → ∀ c ∈ copies,
      r.target? = some c.key ∧ Stands base t' c) := by
  have honly {c : Copy} (hc : r.target? = some c.key ∧ Stands base t' c) :
      ∀ copies, (.ok [c] : Except StoreError (List Copy)) = .ok copies → ∀ c' ∈ copies,
        r.target? = some c'.key ∧ Stands base t' c' := by
    intro copies hcopies c' hc'
    cases hcopies
    obtain rfl := List.mem_singleton.mp hc'
    exact hc
  cases h with
  | refused _ htexts =>
    exact ⟨fun key text htext => hlegible key text ((htexts key).symm.trans htext), nofun⟩
  | looked hlook => exact ⟨hlegible, fun hwrite => by simp [Request.isWrite_of_look hlook] at hwrite⟩
  | @created k o created t' hcreated _ htexts =>
    have hread := decode_content_stamped (o := o) hr (some (Text.decimal 1))
      fun _ ht => Option.some.inj ht ▸ hcreated
    obtain ⟨hlegible', hstands⟩ := stands_of_write hread htexts hlegible
    exact ⟨hlegible', fun _ => honly ⟨rfl, hstands⟩⟩
  | @updated k o stored text t' htext hstored _ _ htexts =>
    obtain ⟨x, hwritten⟩ := (hbefore.kept_of_textAt htext).1.written
    have hread := decode_content_stamped (o := o) hr
      (some (nextVersion stored.metadata.resourceVersion)) (hwritten.of_decode hstored).2.1
    obtain ⟨hlegible', hstands⟩ := stands_of_write hread htexts hlegible
    exact ⟨hlegible', fun _ => honly ⟨rfl, hstands⟩⟩
  | deleted _ htexts =>
    refine ⟨fun key text htext => ?_, fun hwrite => by cases hwrite⟩
    rw [htexts] at htext
    split at htext
    · cases htext
    · exact hlegible key text htext

end Issued

/-! ## Runs -/

theorem legible_after (hclock : ∀ t, (clock t).ReadsBack) (h : Layout root base t)
    (hlegible : Legible base t) {requests : List Request}
    (hrequests : ∀ r ∈ requests, r.Textual) :
    Legible base ((store root clock).after t requests) := by
  refine (Store.after_induction (p := fun t => Layout root base t ∧ Legible base t) _
    ⟨h, hlegible⟩ fun t r hr h => ?_).2
  have hissued := issued hclock h.1 r
  exact ⟨hissued.layout, (hissued.legible_and_stands h.1 (hrequests r hr) h.2).1⟩

/-- **A copy stands** for as long as nobody asks for a change of its object. -/
theorem stands_after (hclock : ∀ t, (clock t).ReadsBack) (h : Layout root base t)
    (hstands : Stands base t c) {requests : List Request}
    (hrequests : ∀ r ∈ requests, r.target? ≠ some c.key) :
    Stands base ((store root clock).after t requests) c := by
  refine (Store.after_induction (p := fun t => Layout root base t ∧ Stands base t c) _
    ⟨h, hstands⟩ fun t r hr h => ?_).2
  have hissued := issued hclock h.1 r
  obtain ⟨text, htext, hread⟩ := h.2
  exact ⟨hissued.layout, text, (hissued.textAt_of_ne (hrequests r hr)).trans htext, hread⟩

/-! ## Finding objects -/

/-- **An object is found again in a tree**: under its key, once in each listing of its namespace
with a selector that accepts its labels, and in no other. What is staged beside changes no
answer. -/
structure FoundAgain (root : String) (t : FileTree) (c : Copy) : Prop where
  got : (get root c.1 c.2.namespaceName c.2.name t).result = .ok c.2
  listed : ∀ selector, ∃ os, (list root c.1 c.2.namespaceName selector t).result = .ok os
    ∧ os.filter (fun o => o.name = c.2.name) = if selector.accepts c.2.labels then [c.2] else []
  staged : ∀ t', Staged root t t' →
    (∀ k namespaceName name, (get root k namespaceName name t').result
      = (get root k namespaceName name t).result)
    ∧ ∀ k namespaceName selector, (list root k namespaceName selector t').result
      = (list root k namespaceName selector t).result

/-- **The object that stands under a key is got.** -/
theorem get_of_stands (h : Layout root base t) (hstands : Stands base t c) :
    (get root c.1 c.2.namespaceName c.2.name t).result = .ok c.2 := by
  obtain ⟨text, htext, hread⟩ := hstands
  have hkey := (h.kept_of_textAt htext).1.storable
  obtain ⟨result, hleaves, ⟨text', -, htext', hresult⟩ | ⟨e, -, hnone⟩⟩ := h.get_cases c.key
  · rw [htext] at htext'
    cases htext'
    exact hleaves.1.trans (hresult.trans hread)
  · cases htext.symm.trans (hnone hkey).1

/-- **The object that stands under a key is listed** once, if the selector accepts its labels. -/
theorem list_of_stands {o : Object k} (h : Layout root base t) (hlegible : Legible base t)
    (hstands : Stands base t ⟨k, o⟩) (selector : Selector) :
    ∃ os, (list root k o.namespaceName selector t).result = .ok os
      ∧ os.filter (fun a => a.name = o.name)
        = if selector.accepts o.labels then [o] else [] := by
  obtain ⟨text, htext, hread⟩ := hstands
  have hkept := (h.kept_of_textAt htext).1
  have hpath := Layout.checkPath_directory hkept.storable hkept.keepable
  obtain ⟨result, hleaves, hlisted, hsucceeds⟩ := h.list_cases k o.namespaceName selector
  obtain ⟨os, rfl⟩ := hsucceeds (checkKey_eq_ok.mp hkept.storable).1 hpath hkept.keepable.2.1
    fun name text htext => hlegible ⟨k, o.namespaceName, name⟩ text htext
  obtain ⟨hmem, hsorted⟩ := hlisted os rfl
  refine ⟨os, hleaves.1, ?_⟩
  split
  · next haccepts => exact filter_name_eq ((hmem o).mpr ⟨rfl, haccepts, text, htext, hread⟩) hsorted
  · next hrejects =>
    refine List.filter_eq_nil_iff.mpr fun a ha hname => hrejects ?_
    -- what has the name has the key, so it is the object itself
    obtain ⟨hnamespace, haccepts, text', htext', hread'⟩ := (hmem a).mp ha
    have hkey : a.key = o.key := by
      rw [Object.key, Object.key, hnamespace, of_decide_eq_true hname]
    have htexts : text' = text := Option.some.inj (htext'.symm.trans (hkey ▸ htext))
    have hsame : a = o := Except.ok.inj (hread'.symm.trans (htexts ▸ hread))
    exact hsame ▸ haccepts

/-! ### With staged files -/

namespace Staged

/-- Getting an object gives the same with staged files. -/
theorem get_eq (hs : Staged root t t') (h : Layout root base t) (k : Kind)
    (namespaceName name : String) :
    (get root k namespaceName name t').result = (get root k namespaceName name t).result := by
  rw [get]
  cases hkey : Naming.checkKey ⟨k, namespaceName, name⟩ with
  | error e => rfl
  | ok _ =>
    show read root k namespaceName name t' = read root k namespaceName name t
    rw [read, read, hs.read_eq h hkey]

/-- Listing a namespace gives the same with staged files. -/
theorem list_eq (hs : Staged root t t') (h : Layout root base t) (k : Kind)
    (namespaceName : String) (selector : Selector) :
    (list root k namespaceName selector t').result
      = (list root k namespaceName selector t).result := by
  rw [list]
  cases hnamespace : Naming.checkPart k "namespace" namespaceName with
  | error e => rfl
  | ok _ => exact hs.listed_eq h selector (checkPart_eq_ok.mp hnamespace)

end Staged

/-- **What is written to files is found again.** Let a store in files be filled from nothing, with
objects that a text keeps exactly, and let a request that writes have given a copy. The copy
has the key that was asked for, and it is found again until somebody asks for a change of its
object. -/
theorem found_again (hvacant : Vacant root t) (hclock : ∀ t, (clock t).ReadsBack)
    {before between : List Request} (hbefore : ∀ s ∈ before, s.Textual) (hr : r.Textual)
    (hwrite : r.isWrite = true) {copies : List Copy}
    (hgives : (store root clock).Gives t before r copies) (hc : c ∈ copies)
    (hbetween : ∀ s ∈ between, s.Textual ∧ s.target? ≠ some c.key) :
    r.target? = some c.key
      ∧ FoundAgain root ((store root clock).after t (before ++ r :: between)) c := by
  obtain ⟨base, hlayout, hnone⟩ := hvacant.exists_layout
  have hempty : Legible base t := fun key text htext => by
    cases (hnone key).symm.trans htext
  have hbefore' := layout_after hclock hlayout before
  have hissued := issued_of_gives hclock hlayout hgives
  obtain ⟨hlegible, hwritten⟩ := hissued.legible_and_stands hbefore' hr
    (legible_after hclock hlayout hempty hbefore)
  obtain ⟨htarget, hstands⟩ := hwritten hwrite copies rfl c hc
  refine ⟨htarget, ?_⟩
  rw [Store.after_append_cons]
  have hstands' := stands_after hclock hissued.layout hstands fun s hs => (hbetween s hs).2
  have hlegible' := legible_after hclock hissued.layout hlegible fun s hs => (hbetween s hs).1
  have hlayout' := layout_after hclock hissued.layout between
  exact ⟨get_of_stands hlayout' hstands', list_of_stands hlayout' hlegible' hstands',
    fun t' hs => ⟨hs.get_eq hlayout', hs.list_eq hlayout'⟩⟩

/-! ### A source that is hard to write -/

/-- A source with characters that have to be escaped in its names, with the last integers on
either side, and with containers that are empty or nested. -/
def knottySource : GitRepository where
  metadata :=
    { name := "a \"b\"\n.json", namespaceName := "\t",
      labels := .ofList [("\\", "\x7f😀"), ("", "\x01")] }
  spec :=
    { url := "https://example.com/é",
      passthrough := .ofList
        [("limits", .array [.number (.int (-9223372036854775808)),
          .number (.int 18446744073709551615)]),
        ("empty", .object [("array", .array []), ("object", .object [])])] }
  status := some (.object [("conditions", .array [.null, .bool true])])

theorem textual_knottySource : knottySource.Textual where
  fromJson := .value (v := knottySource.toJson) (by decide) (by rfl)
  noDouble x hx := by
    have hnumbers : knottySource.toJson.numbers
        = [.int (-9223372036854775808), .int 18446744073709551615] := by rfl
    simp [hnumbers] at hx
  shallow := by decide

theorem textual_plainSource : plainSource.Textual where
  fromJson := .value (v := plainSource.toJson) (by decide) (by rfl)
  noDouble x hx := by cases hx
  shallow := by decide

/-- It is found again when another one has been written. -/
theorem found_again_knottySource :
    Vacant "/data" dataTree ∧ knottySource.Textual ∧ plainSource.Textual
      ∧ (store "/data" fun _ => noon).Gives dataTree [] (.create .gitRepository knottySource)
        [⟨.gitRepository, knottySource.stamped (some "1") (some noon)⟩]
      ∧ FoundAgain "/data" ((store "/data" fun _ => noon).after dataTree
          [.create .gitRepository knottySource, .create .gitRepository plainSource])
        ⟨.gitRepository, knottySource.stamped (some "1") (some noon)⟩ := by
  have hkeepable : Keepable "/data" knottySource.key := ⟨by decide, by decide, by decide⟩
  have hgives : (store "/data" fun _ => noon).Gives dataTree []
      (.create .gitRepository knottySource)
      [⟨.gitRepository, knottySource.stamped (some "1") (some noon)⟩] :=
    vacant_dataTree.gives_create (fun _ => readsBack_noon) (by decide) hkeepable
  have hbefore : ∀ s ∈ ([] : List Request), s.Textual := nofun
  have hbetween : ∀ s ∈ [Request.create .gitRepository plainSource],
      s.Textual ∧ s.target? ≠ some knottySource.key := by
    intro s hs
    obtain rfl := List.mem_singleton.mp hs
    exact ⟨textual_plainSource, by decide⟩
  refine ⟨vacant_dataTree, textual_knottySource, textual_plainSource, hgives, ?_⟩
  exact (found_again (r := .create .gitRepository knottySource) vacant_dataTree
    (fun _ => readsBack_noon) hbefore textual_knottySource rfl hgives (List.mem_singleton_self _)
    hbetween).2

end FileStore

end PlanSync
