import PlanSync.Proofs.Derived
import PlanSync.Proofs.Text.Cut
import PlanSync.Repository

/-!
# Clone URLs of one repository

A clone URL is an origin and a path. The path spells out the segments that name the
repository, perhaps with more slashes than it needs and with markers between them
(`Repository.Spells`); the origin says how to get to the host, in one of two forms
(`Repository.Origin`). Whatever the form is, the path is found behind the origin
(`Repository.Origin.Proper.hostAndPath?_url`), and whatever the spelling is, the segments are
found in the path (`Repository.Spells.segments_join`). So all URLs of a repository name it
(`Repository.ofUrl?_url`).

The short form is told from the other by what it does not hold, a colon with two slashes
behind it. This is why its path must not begin with two slashes.
-/

namespace PlanSync.Repository

/-! ## Paths -/

/-- **A segment** of the path to a repository. -/
structure IsSegment (s : String) : Prop where
  nonempty : s ≠ ""
  slash : '/' ∉ s.toList
  colon : ':' ∉ s.toList
  unmarked : s ≠ "_git"

/-- **Parts of a path spell out segments**: what else there is between slashes is nothing, or
a marker. -/
inductive Spells : (segments parts : List String) → Prop
  | nil : Spells [] []
  | slash {segments parts : List String} (h : Spells segments parts) :
    Spells segments ("" :: parts)
  | marker {segments parts : List String} (h : Spells segments parts) :
    Spells segments ("_git" :: parts)
  | segment (s : String) {segments parts : List String} (h : Spells segments parts) :
    Spells (s :: segments) (s :: parts)

variable {segments parts : List String}

namespace Spells

theorem mem_parts (h : Spells segments parts) {p : String} (hp : p ∈ parts) :
    p = "" ∨ p = "_git" ∨ p ∈ segments := by
  induction h with
  | nil => cases hp
  | slash h ih =>
    rcases List.mem_cons.mp hp with rfl | hp
    · exact .inl rfl
    · exact ih hp
  | marker h ih =>
    rcases List.mem_cons.mp hp with rfl | hp
    · exact .inr (.inl rfl)
    · exact ih hp
  | segment s h ih =>
    rcases List.mem_cons.mp hp with rfl | hp
    · exact .inr (.inr List.mem_cons_self)
    · exact (ih hp).imp_right (Or.imp_right (List.mem_cons_of_mem s))

/-- No part holds a character that neither a segment nor the marker holds. -/
theorem not_mem_part (h : Spells segments parts) {c : Char}
    (hsegments : ∀ s ∈ segments, c ∉ s.toList) (hmarker : c ∉ "_git".toList) :
    ∀ p ∈ parts, c ∉ p.toList := by
  intro p hp
  rcases h.mem_parts hp with rfl | rfl | hp
  · exact List.not_mem_nil
  · exact hmarker
  · exact hsegments p hp

/-- **What is left of the parts** are the segments. -/
theorem filter_eq (h : Spells segments parts) (hsegments : ∀ s ∈ segments, IsSegment s) :
    parts.filter (fun s => s ≠ "" && s ≠ "_git") = segments := by
  induction h with
  | nil => rfl
  | slash h ih => exact ih hsegments
  | marker h ih => exact ih hsegments
  | segment s h ih =>
    rw [List.forall_mem_cons] at hsegments
    rw [List.filter_cons, ih hsegments.2, if_pos]
    simp [hsegments.1.nonempty, hsegments.1.unmarked]

/-- **The segments of a path** are those that its parts spell out. -/
theorem segments_join (h : Spells segments parts) (hsegments : ∀ s ∈ segments, IsSegment s) :
    Repository.segments (Text.join "/" parts) = segments := by
  cases parts with
  | nil =>
    cases h
    rfl
  | cons p ps =>
    have hslash := h.not_mem_part (fun s hs => (hsegments s hs).slash) (by decide)
    have hpieces : Text.pieces '/' (Text.join "/" (p :: ps)) = p :: ps :=
      Text.pieces_join (List.cons_ne_nil p ps) hslash
    rw [Repository.segments, hpieces]
    exact h.filter_eq hsegments

/-- A path of segments holds no colon. -/
theorem colon_not_mem_join (h : Spells segments parts) (hsegments : ∀ s ∈ segments, IsSegment s) :
    ':' ∉ (Text.join "/" parts).toList := by
  intro hmem
  rw [Text.join, String.toList_intercalate] at hmem
  rcases Text.mem_intercalate '/' hmem with hslash | ⟨_, hmem, hcolon⟩
  · exact absurd hslash (by decide)
  · obtain ⟨p, hp, rfl⟩ := List.mem_map.mp hmem
    exact h.not_mem_part (fun s hs => (hsegments s hs).colon) (by decide) p hp hcolon

end Spells

/-! ## Origins -/

/-- **A part of an origin**: the name of a host or of a user. -/
structure IsOriginPart (s : String) : Prop where
  nonempty : s ≠ ""
  slash : '/' ∉ s.toList
  colon : ':' ∉ s.toList

/-- **What stands before the path** of a clone URL. -/
inductive Origin where
  /-- A scheme and an address, perhaps with a user and a port. -/
  | address (scheme : String) (user : Option String) (host : String) (port : Option String)
  /-- A user and a host. -/
  | short (user host : String)

namespace Origin

/-- The origin as it is written. -/
def text : Origin → String
  | address _ user host port =>
    user.elim "" (· ++ "@") ++ host ++ port.elim "" (":" ++ ·)
  | short user host => user ++ "@" ++ host

/-- **The clone URL** of an origin and a path. -/
def url (origin : Origin) (path : String) : String :=
  match origin with
  | address scheme .. => scheme ++ "://" ++ (origin.text ++ "/" ++ path)
  | short .. => origin.text ++ ":" ++ path

/-- **A proper origin.** An alphanumeric scheme has no colon in particular, and a numeric port
no slash. -/
inductive Proper : Origin → Prop
  | address {scheme host : String} {user port : Option String} (hscheme : ':' ∉ scheme.toList)
    (huser : ∀ u ∈ user, IsOriginPart u) (hhost : IsOriginPart host)
    (hport : ∀ p ∈ port, '/' ∉ p.toList) : Proper (.address scheme user host port)
  | short {user host : String} (huser : IsOriginPart user) (hhost : IsOriginPart host) :
    Proper (.short user host)

/-- **Paths that an origin takes.** One in short form takes none that begins with two
slashes. -/
def Takes : Origin → String → Prop
  | address .., _ => True
  | short .., path => ¬ ['/', '/'] <+: path.toList

variable {origin : Origin} {path : String}

theorem Proper.text_ne_empty (h : origin.Proper) : origin.text ≠ "" := by
  intro hempty
  have hnil := String.toList_eq_nil_iff.mpr hempty
  cases h with
  | address hscheme huser hhost hport =>
    rw [text, String.toList_append, String.toList_append, List.append_eq_nil_iff,
      List.append_eq_nil_iff] at hnil
    exact hhost.nonempty (String.toList_eq_nil_iff.mp hnil.1.2)
  | short huser hhost =>
    rw [text, String.toList_append, List.append_eq_nil_iff] at hnil
    exact hhost.nonempty (String.toList_eq_nil_iff.mp hnil.2)

theorem Proper.slash_not_mem_text (h : origin.Proper) : '/' ∉ origin.text.toList := by
  cases h with
  | @address scheme host user port hscheme huser hhost hport =>
    have huser' : '/' ∉ (user.elim "" (· ++ "@")).toList := by
      cases user with
      | none => exact List.not_mem_nil
      | some u => simp [(huser u rfl).slash]
    have hport' : '/' ∉ (port.elim "" (":" ++ ·)).toList := by
      cases port with
      | none => exact List.not_mem_nil
      | some p => simp [hport p rfl]
    simp [text, huser', hhost.slash, hport']
  | short huser hhost => simp [text, huser.slash, hhost.slash]

/-- **The path is found behind the origin**, and something before it. -/
theorem Proper.hostAndPath?_url (h : origin.Proper) (htakes : origin.Takes path)
    (hcolon : ':' ∉ path.toList) : hostAndPath? (origin.url path) = some (origin.text, path) := by
  have hslash := h.slash_not_mem_text
  cases h with
  | @address scheme host user port hscheme huser hhost hport =>
    generalize htext : (Origin.address scheme user host port).text = text at hslash ⊢
    have hafter : afterScheme ((Origin.address scheme user host port).url path)
        = (text ++ "/" ++ path, true) := by
      have hword := Text.afterWord?_word ['/', '/'] hscheme (text ++ "/" ++ path).toList
      rw [afterScheme, url, htext, String.toList_append, String.toList_append, List.append_assoc]
      rw [show "://".toList = [':', '/', '/'] from rfl, hword]
      exact congrArg (·, true) String.ofList_toList
    have hcut : Text.cut? '/' (text ++ "/" ++ path) = some (text, path) :=
      Text.cut?_append hslash path
    rw [hostAndPath?, hafter]
    simp [hcut]
  | @short user host huser hhost =>
    have hcolon' : ':' ∉ (Origin.short user host).text.toList := by
      simp [text, huser.colon, hhost.colon]
    generalize htext : (Origin.short user host).text = text at hslash hcolon' ⊢
    have hurl : (Origin.short user host).url path = text ++ ":" ++ path := by rw [url, htext]
    have hwhole : (text ++ ":" ++ path).toList = text.toList ++ ':' :: path.toList := by simp
    have hafter : afterScheme (text ++ ":" ++ path) = (text ++ ":" ++ path, false) := by
      rw [afterScheme, hwhole, Text.afterWord?_eq_none hcolon' hcolon htakes]
    have hcut : Text.cut? ':' (text ++ ":" ++ path) = some (text, path) :=
      Text.cut?_append hcolon' path
    rw [hurl, hostAndPath?, hafter]
    simp only [hcut]
    split
    · next before after hslash' =>
      -- the first slash is in the path, behind the colon
      have hbefore : ':' ∈ before.toList :=
        Text.mem_of_cut?_eq_some hslash' hwhole hslash (by decide)
      simp [hbefore]
    · rfl

end Origin

/-! ## Repositories -/

/-- The name in the last segment, with and without `.git` behind it. -/
theorem nameOfSegment_eq {name last : String} (hname : ¬ ".git".toList <:+ name.toList)
    (hlast : last = name ∨ last = name ++ ".git") : nameOfSegment last = name := by
  rw [nameOfSegment]
  rcases hlast with rfl | rfl
  · have hnone : Text.dropEnd? ".git" last = none :=
      Option.eq_none_iff_forall_ne_some.mpr fun rest hrest => by
        refine hname ⟨rest.toList, ?_⟩
        rw [← String.toList_append, ← Text.dropEnd?_eq_some_iff.mp hrest]
    rw [hnone, Option.getD_none]
  · rw [Text.dropEnd?_eq_some_iff.mpr rfl, Option.getD_some]

/-- A name with `.git` behind it is a segment, too. -/
theorem IsSegment.withEnding {name last : String} (h : IsSegment name)
    (hlast : last = name ∨ last = name ++ ".git") : IsSegment last := by
  rcases hlast with rfl | rfl
  · exact h
  · have hlength : 4 < (name ++ ".git").toList.length := by
      have hname : 0 < name.toList.length :=
        List.length_pos_iff.mpr fun hnil => h.nonempty (String.toList_eq_nil_iff.mp hnil)
      rw [String.toList_append, List.length_append]
      exact Nat.lt_add_of_pos_left hname
    have hne {s : String} (hs : s.toList.length ≤ 4) : name ++ ".git" ≠ s := fun heq =>
      absurd hlength (Nat.not_lt.mpr (heq ▸ hs))
    exact ⟨hne (by decide), by simp [h.slash], by simp [h.colon], hne (by decide)⟩

/-- What a clone URL names is told from the segments of its path. -/
theorem ofUrl?_of_hostAndPath? {url host path : String}
    (h : hostAndPath? url = some (host, path)) (hhost : host ≠ "") :
    ofUrl? url = match Repository.segments path with
      | org :: rest => rest.getLast?.bind fun last =>
        if nameOfSegment last = "" then none
        else some { org, project := Text.join "/" rest.dropLast, name := nameOfSegment last }
      | [] => none := by
  rw [ofUrl?, h]
  exact if_neg hhost

/-- **All clone URLs of a repository name it.** In whichever form a URL is written, and
whichever slashes and markers are in its path: it names the repository with the organisation,
the middle segments and the name that the path spells out, where `.git` may stand behind the
name. If there are fewer than two segments, it names none. -/
theorem ofUrl?_url {origin : Origin} (horigin : origin.Proper)
    (htakes : origin.Takes (Text.join "/" parts)) :
    (∀ org middle name last, IsSegment org → (∀ s ∈ middle, IsSegment s) → IsSegment name →
        ¬ ".git".toList <:+ name.toList → last = name ∨ last = name ++ ".git" →
        Spells (org :: middle ++ [last]) parts →
        ofUrl? (origin.url (Text.join "/" parts))
          = some { org, project := Text.join "/" middle, name })
      ∧ ∀ segments, (∀ s ∈ segments, IsSegment s) → segments.length < 2 → Spells segments parts →
        ofUrl? (origin.url (Text.join "/" parts)) = none := by
  have hurl (segments : List String) (hsegments : ∀ s ∈ segments, IsSegment s)
      (h : Spells segments parts) :=
    ofUrl?_of_hostAndPath?
      (horigin.hostAndPath?_url htakes (h.colon_not_mem_join hsegments)) horigin.text_ne_empty
  constructor
  · intro org middle name last horg hmiddle hname hending hlast h
    have hsegments : ∀ s ∈ org :: middle ++ [last], IsSegment s := by
      rw [List.forall_mem_append, List.forall_mem_cons, List.forall_mem_singleton]
      exact ⟨⟨horg, hmiddle⟩, hname.withEnding hlast⟩
    rw [hurl _ hsegments h, h.segments_join hsegments, List.cons_append]
    simp only [List.getLast?_concat, List.dropLast_concat, Option.bind_some,
      nameOfSegment_eq hending hlast, if_neg hname.nonempty]
  · intro segments hsegments hlength h
    rw [hurl segments hsegments h, h.segments_join hsegments]
    match segments, hlength with
    | [], _ => rfl
    | [_], _ => rfl

/-- A URL with everything that a URL can have, and one in short form with a single segment. -/
theorem ofUrl?_url_with_markers :
    ofUrl? "ssh://git@example.com:2222//org/team//_git/repo.git/"
        = some { org := "org", project := "team", name := "repo" }
      ∧ ofUrl? "git@example.com:/org/_git" = none := by
  have hpart (s : String) (hs : s ≠ "" ∧ '/' ∉ s.toList ∧ ':' ∉ s.toList) : IsOriginPart s :=
    ⟨hs.1, hs.2.1, hs.2.2⟩
  have hsegment (s : String) (hs : (s ≠ "" ∧ '/' ∉ s.toList ∧ ':' ∉ s.toList) ∧ s ≠ "_git") :
      IsSegment s := ⟨hs.1.1, hs.1.2.1, hs.1.2.2, hs.2⟩
  have haddress : (Origin.address "ssh" (some "git") "example.com" (some "2222")).Proper := by
    refine .address (by decide) (fun u hu => ?_) (hpart _ (by decide)) fun p hp => ?_
    · cases hu
      exact hpart _ (by decide)
    · cases hp
      decide
  have hshort : (Origin.short "git" "example.com").Proper :=
    .short (hpart _ (by decide)) (hpart _ (by decide))
  have hparts : Spells ["org", "team", "repo.git"]
      ["", "org", "team", "", "_git", "repo.git", ""] :=
    .slash (.segment _ (.segment _ (.slash (.marker (.segment _ (.slash .nil))))))
  have hurl : "ssh://git@example.com:2222//org/team//_git/repo.git/"
      = (Origin.address "ssh" (some "git") "example.com" (some "2222")).url
          (Text.join "/" ["", "org", "team", "", "_git", "repo.git", ""]) := by
    decide +kernel
  have hurl' : "git@example.com:/org/_git"
      = (Origin.short "git" "example.com").url (Text.join "/" ["", "org", "_git"]) := by
    decide +kernel
  have htakes : (Origin.short "git" "example.com").Takes (Text.join "/" ["", "org", "_git"]) :=
    show ¬ ['/', '/'] <+: _ by decide +kernel
  constructor
  · rw [hurl]
    exact (ofUrl?_url haddress trivial).1 "org" ["team"] "repo" "repo.git"
      (hsegment _ (by decide)) (List.forall_mem_singleton.mpr (hsegment _ (by decide)))
      (hsegment _ (by decide)) (by decide) (.inr rfl) hparts
  · rw [hurl']
    exact (ofUrl?_url hshort htakes).2 ["org"]
      (List.forall_mem_singleton.mpr (hsegment _ (by decide))) (by decide)
      (.slash (.segment _ (.marker .nil)))

end PlanSync.Repository
