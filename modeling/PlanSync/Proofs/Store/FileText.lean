import PlanSync.Store.Files
import PlanSync.Proofs.Object.Exact

/-!
# The text of an object's file

The file of an exact object is read as it was written (`FileStore.decode_content`). Some
things are known of every file.

An object is written with its metadata first. Metadata is made of strings only, so it is
read as it was written, whatever the spec and the status behind it are: if the text of an
object can be read at all, then with the metadata it was written with
(`FileStore.metadata_of_decode_content`).

What stands behind the metadata is read in the same way whatever the metadata is. So if an
object can be read from its text, it can be read when a store has given it another version
(`FileStore.decode_content_of_metadata`).
-/

namespace PlanSync

/-! ## Documents that begin with metadata -/

namespace Decoder

variable {known : List FieldCheck} {other : Document → Except ReadError Unit} {key : String}

/-- **What has been taken is not looked at again**: only its key counts. -/
theorem takeMembers_replace_first {d : Document} (d' : Document)
    {fields unknown : List (String × Document)}
    {xs : List (Option String × Document)} {t : Taken}
    (h : takeMembers known other ⟨(key, d) :: fields, unknown⟩ xs = .ok t) :
    ∃ fields', t.fields = (key, d) :: fields'
      ∧ takeMembers known other ⟨(key, d') :: fields, unknown⟩ xs
        = .ok ⟨(key, d') :: fields', t.unknown⟩ := by
  induction xs generalizing fields unknown with
  | nil =>
    cases h
    exact ⟨fields, rfl, rfl⟩
  | cons e xs ih =>
    rcases e with ⟨_ | k, x⟩
    · cases h
    rw [takeMembers] at h ⊢
    have hsame : (List.lookup k ((key, d') :: fields)).isSome
        = (List.lookup k ((key, d) :: fields)).isSome := by
      rw [Entries.lookup_cons, Entries.lookup_cons]
      split <;> rfl
    split at h
    · split at h
      · cases h
      · next hnew =>
        rw [hsame, if_neg hnew]
        obtain ⟨_, hcheck, h⟩ := Answer.bind_eq_ok.mp h
        rw [hcheck]
        exact ih h
    · obtain ⟨_, hother, h⟩ := Answer.bind_eq_ok.mp h
      rw [hother]
      exact ih h

end Decoder

namespace Object

open Decoder JsonText

variable {k : Kind}

/-- **Metadata that is read first is read on its own**: with other metadata in its place the
object is the same but for the metadata. -/
theorem decoder_metadata_first {d d' : Document} {m : Metadata}
    {xs : List (Option String × Document)} {close : Option Break} {o : Object k}
    (h : decoder k (.object ((some "metadata", d) :: xs) close) = .ok o)
    (hd' : Metadata.decoder d' = .ok m) :
    Metadata.decoder d = .ok o.metadata
      ∧ decoder k (.object ((some "metadata", d') :: xs) close)
        = .ok { o with metadata := m } := by
  obtain ⟨t, ht, h⟩ := Answer.bind_eq_ok.mp h
  obtain ⟨m₀, hm, h⟩ := Answer.bind_eq_ok.mp h
  obtain ⟨spec, hspec, h⟩ := Answer.bind_eq_ok.mp h
  obtain ⟨status, hstatus, h⟩ := Answer.bind_eq_ok.mp h
  cases h
  obtain ⟨t', ht', ht⟩ := Answer.bind_eq_ok.mp ht
  obtain ⟨_, hclose, ht⟩ := Answer.bind_eq_ok.mp ht
  cases ht
  obtain ⟨_, -, htail⟩ := Answer.bind_eq_ok.mp
    (show ((FieldCheck.of "metadata" Metadata.decoder).2 d >>= fun _ =>
      takeMembers (fields k) Document.skip ⟨[("metadata", d)], []⟩ xs) = .ok t from ht')
  obtain ⟨fields', hfields, htail'⟩ := takeMembers_replace_first d' htail
  have hfind {name : String} (hname : name ≠ "metadata") :
      List.lookup name (("metadata", d') :: fields') = List.lookup name t.fields := by
    rw [hfields, Entries.lookup_cons, Entries.lookup_cons, if_neg hname, if_neg hname]
  have htaken : takeMembers (fields k) Document.skip .none ((some "metadata", d') :: xs)
      = .ok ⟨("metadata", d') :: fields', t.unknown⟩ := by
    show ((FieldCheck.of "metadata" Metadata.decoder).2 d' >>= fun _ =>
      takeMembers (fields k) Document.skip ⟨[("metadata", d')], []⟩ xs) = _
    rw [FieldCheck.of_eq_ok.mpr ⟨m, hd'⟩]
    exact htail'
  have hclosed : closedRecord (fields k) (.object ((some "metadata", d') :: xs) close)
      = .ok ⟨("metadata", d') :: fields', t.unknown⟩ := by
    rw [closedRecord, htaken]
    show (Document.endRead close >>= fun _ => _) = _
    rw [hclose]
    rfl
  rw [Taken.required, hfields, Entries.lookup_cons, if_pos rfl] at hm
  rw [Taken.required, ← hfind (by decide)] at hspec
  rw [Taken.optional, ← hfind (by decide)] at hstatus
  refine ⟨hm, ?_⟩
  rw [decoder, hclosed]
  simp only [bind, Except.bind, Taken.required, Taken.optional, hspec, hstatus,
    Entries.lookup_cons "metadata", if_true, hd']
  rfl

end Object

/-! ## Files -/

namespace FileStore

open JsonText

variable {k : Kind} {o o' : Object k}

/-! ### Files of any objects -/

/-- What stands behind the metadata in the text of an object. -/
def behindMetadata (o : Object k) : List Char :=
  Json.indentedMembers 0
      (("spec", k.specJson o.spec) :: Metadata.optionalMember "status" o.status) ++ ['\n']

theorem toList_content (o : Object k) :
    (content o).toList
      = '\x7b' :: (memberChars 1 "metadata" o.metadata.toJson ++ behindMetadata o) := by
  rw [content, Json.pretty, String.toList_append, String.toList_ofList, Object.toJson,
    List.cons_append, indentedChars_object_cons, behindMetadata]
  simp

/-- What is read behind the metadata. -/
def readBehind (o : Object k) : List (Option String × Document) × Option Break × List Char :=
  readMembers (fuelFor (behindMetadata o)) 1 false (behindMetadata o)

/-- **The document of an object begins with its metadata**, and goes on with what does not
depend on the metadata. -/
theorem ofText_content (o : Object k) :
    Document.ofText (content o)
      = (.object ((some "metadata", .ofJson o.metadata.toJson) :: (readBehind o).1)
          (readBehind o).2.1,
        !(skipBlanks (readBehind o).2.2).isEmpty) := by
  have hlength := length_lt_length_memberChars 1 "metadata" o.metadata.toJson
  have hfuel : ∃ fuel, fuelFor (content o).toList = fuel + 1 + 1
      ∧ (Json.indentedChars 1 o.metadata.toJson).length < fuel
      ∧ 2 * (behindMetadata o).length + 1 < fuel := by
    refine ⟨2 * (content o).toList.length, rfl, ?_⟩
    rw [toList_content, List.length_cons, List.length_append]
    omega
  obtain ⟨fuel, hfuel, hmetadata, hbehind⟩ := hfuel
  have hread : readMembers fuel 1 false (behindMetadata o) = readBehind o :=
    (readsAlike _ _).members 1 false _ hbehind (by rw [fuelFor]; omega)
  have hdelimited : Delimited (behindMetadata o) := delimited_indentedMembers _ _ _
  rw [Document.ofText, hfuel, toList_content, readValue_object (fuel + 1) 0 (skipBlanks_cons rfl _),
    readMembers_memberChars_first (o.metadata.isReadBack_toJson (by decide)) hmetadata "metadata"
      hdelimited, hread]
  rfl

/-- An object that is read from a text is the object of the text's document. -/
theorem decode_eq_ok {text : String} :
    decode k text = .ok o ↔ Object.decoder k (Document.ofText text).1 = .ok o
      ∧ (Document.ofText text).2 = false := by
  rw [decode, Answer.mapError_eq_ok, Decoder.ofText_eq_ok]

/-- **A file is never taken for one of other metadata.** -/
theorem metadata_of_decode_content (hc : o.CreationReadsBack)
    (h : decode k (content o) = .ok o') : o'.metadata = o.metadata := by
  have h := (decode_eq_ok.mp h).1
  rw [ofText_content] at h
  have hd := Metadata.decoder_toJson hc
  exact Except.ok.inj ((Object.decoder_metadata_first h hd).1.symm.trans hd)

/-- **What can be read stays so with other metadata.** -/
theorem decode_content_of_metadata {m : Metadata}
    (hc : ∀ t, m.creationTimestamp = some t → t.ReadsBack) (h : decode k (content o) = .ok o') :
    decode k (content { o with metadata := m }) = .ok { o' with metadata := m } := by
  obtain ⟨h, htrailing⟩ := decode_eq_ok.mp h
  rw [ofText_content] at h htrailing
  refine decode_eq_ok.mpr ?_
  rw [ofText_content]
  exact ⟨(Object.decoder_metadata_first h (Metadata.decoder_toJson hc)).2, htrailing⟩

/-! ### Files of exact objects -/

/-- **The file of an exact object is read as it was written.** -/
theorem decode_content (h : o.Tidy) (hc : o.CreationReadsBack) (hexact : o.toJson.Exact)
    (hshallow : o.toJson.nesting ≤ 127) : decode k (content o) = .ok o := by
  have htext : (content o).toList = Json.indentedChars 0 o.toJson ++ ['\n'] := by
    rw [content, Json.pretty, String.toList_append, String.toList_ofList]
    rfl
  have hread : IsReadBack 0 0 o.toJson :=
    isReadBack hexact (by rw [Nat.zero_add]; exact Nat.lt_succ_of_le hshallow)
  have hdelimited : Delimited ['\n'] := by
    intro c hc
    obtain rfl : '\n' = c := Option.some.inj hc
    decide
  have hdocument : Document.ofText (content o) = (.ofJson o.toJson, false) := by
    rw [Document.ofText, htext, hread _ _ hdelimited (by rw [fuelFor, List.length_append]; omega)]
    rfl
  rw [decode_eq_ok, hdocument]
  exact ⟨Object.decoder_toJson h hc, rfl⟩

/-- **So is the file that a store makes of an object that a text can keep.** -/
theorem decode_content_stamped (h : o.Textual) (version : Option String)
    {created : Option Timestamp} (hc : ∀ t, created = some t → t.ReadsBack) :
    decode k (content (o.stamped version created)) = .ok (o.stamped version created) :=
  decode_content h.tidy.stamped hc (Object.exact_stamped h.exact)
    (Object.nesting_stamped_le h.shallow)

end FileStore

end PlanSync
