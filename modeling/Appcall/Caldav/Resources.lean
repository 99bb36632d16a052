/-
Multistatus documents are read back.

The texts of a document have no angle brackets, so its tags are all there is to be found. A tag
is recognised by its name behind the prefix, unless the prefix has one of the names that are
looked for; an end tag is recognised by its whole name. So the first element of a name behind
the start of a response is that response's own, whatever white space stands between the
elements, and its text is read up to the first closing tag, which is its own. What is read is
escaped still, but for the ETag; decoded it is the original without the white space around it.
-/
import Appcall.Caldav.Multistatus

set_option autoImplicit false

namespace Appcall.Caldav

open Chars (is_space)
open Replace (prefix_split infix_split)

/-! ## Documents -/

structure Resource where
  href : Text
  display_name : Text
  etag : Text
  calendar_data : Text

/-- A character as one of the five entities, or as it is. -/
def escape_xml_char (c : Char) : Text :=
  if c = '&' then "&amp;".toList
  else if c = '<' then "&lt;".toList
  else if c = '>' then "&gt;".toList
  else if c = '"' then "&quot;".toList
  else if c = '\'' then "&apos;".toList
  else [c]

def escape_xml (text : Text) : Text := text.flatMap escape_xml_char

/-- A name behind its prefix, if there is one. -/
def tag_name (ns : Text) (name : Text) : Text := if ns = [] then name else ns ++ ':' :: name

def start_tag (ns name : Text) : Text := '<' :: tag_name ns name ++ ['>']

def end_tag (ns name : Text) : Text := '<' :: '/' :: tag_name ns name ++ ['>']

def element (ns name content : Text) : Text := start_tag ns name ++ content ++ end_tag ns name

/-- The elements in front of the calendar data, with white space of its own at each place
between elements. -/
def response_front (dav : Text) (gap : ℕ → Text) (r : Resource) : Text :=
  gap 0 ++ element dav "href".toList (escape_xml r.href) ++ gap 1
    ++ start_tag dav "propstat".toList ++ gap 2 ++ start_tag dav "prop".toList ++ gap 3
    ++ element dav "displayname".toList (escape_xml r.display_name) ++ gap 4
    ++ element dav "getetag".toList (escape_xml r.etag) ++ gap 5

/-- The elements behind the calendar data. -/
def response_back (dav : Text) (gap : ℕ → Text) : Text :=
  gap 6 ++ end_tag dav "prop".toList ++ gap 7
    ++ element dav "status".toList "HTTP/1.1 200 OK".toList ++ gap 8
    ++ end_tag dav "propstat".toList ++ gap 9

def response (dav caldav : Text) (gap : ℕ → Text) (r : Resource) : Text :=
  element dav "response".toList (response_front dav gap r
    ++ element caldav "calendar-data".toList (escape_xml r.calendar_data) ++ response_back dav gap)

def declaration (ns uri : Text) : Text :=
  " xmlns".toList ++ (if ns = [] then [] else ':' :: ns) ++ "=\"".toList ++ uri ++ ['"']

/-- Everything in front of the first response. -/
def document_front (dav caldav : Text) (gap : ℕ → Text) : Text :=
  "<?xml version=\"1.0\" encoding=\"UTF-8\"?>".toList ++ gap 0
    ++ ('<' :: tag_name dav "multistatus".toList ++ declaration dav "DAV:".toList
      ++ declaration caldav "urn:ietf:params:xml:ns:caldav".toList ++ ['>']) ++ gap 1

/-- A multistatus document with one response element for each resource, which comes with the
white space in its element and behind it. -/
def document (dav caldav : Text) (gap : ℕ → Text) (resources : List (Resource × (ℕ → Text))) :
    Text :=
  document_front dav caldav gap
    ++ resources.flatMap (fun r => response dav caldav r.2 r.1 ++ r.2 10)
    ++ end_tag dav "multistatus".toList

/-! ## Names -/

/-- The characters of a prefix: letters, digits, and what else may be in a name. -/
def Prefix (ns : Text) : Prop := ∀ c ∈ ns, c ≠ ':' ∧ c ≠ '<' ∧ c ≠ '>' ∧ c ≠ '/'

/-- A name that is looked for: small letters and hyphens. -/
def Name (name : Text) : Prop :=
  name ≠ [] ∧ ∀ c ∈ name, c ≠ ':' ∧ c ≠ '<' ∧ c ≠ '>' ∧ c ≠ '/' ∧ c.toLower = c

instance (name : Text) : Decidable (Name name) := inferInstanceAs (Decidable (_ ∧ _))

theorem lower_name {name : Text} (h : Name name) : lower name = name :=
  (List.map_congr_left fun c hc => (h.2 c hc).2.2.2.2).trans (List.map_id name)

variable {c : Char} {text rest before content : Text} {name ns : Text}

theorem lower_separator (h : c = ':' ∨ c = '>' ∨ c = '/') (a b : Text) :
    lower (a ++ c :: b) = lower a ++ c :: lower b := by
  rw [lower_append]
  rcases h with rfl | rfl | rfl <;> rfl

theorem has_name_cons (name : Text) (c : Char) (text : Text) :
    has_name name (c :: text) = (starts name (c :: text) || (c == ':' && starts name text)
      || (c != ':' && c != '>' && has_name name text)) := by
  rw [has_name]

theorem has_name_separator {u v : Text} (hu : ∀ c ∈ u, c ≠ ':' ∧ c ≠ '>') {d : Char}
    (hd : d = ':' ∨ d = '>') (h : has_name name (u ++ d :: v) = true) :
    (∃ after, after <:+ u ∧ name <+: lower (after ++ d :: v)) ∨ d = ':' ∧ name <+: lower v := by
  induction u with
  | nil =>
    rw [List.nil_append, has_name_cons] at h
    rcases hd with rfl | rfl
    · simp only [bne_self_eq_false, Bool.false_and, Bool.or_false, Bool.or_eq_true,
        Bool.and_eq_true, beq_self_eq_true, true_and, starts_iff] at h
      rcases h with h | h
      · exact .inl ⟨[], List.suffix_rfl, h⟩
      · exact .inr ⟨rfl, h⟩
    · simp only [bne_self_eq_false, Bool.and_false, Bool.false_and, Bool.or_false,
        Bool.or_eq_true, Bool.and_eq_true, starts_iff] at h
      rcases h with h | ⟨h, -⟩
      · exact .inl ⟨[], List.suffix_rfl, h⟩
      · exact absurd h (by decide)
  | cons c u ih =>
    obtain ⟨hc, hu⟩ := List.forall_mem_cons.mp hu
    rw [List.cons_append, has_name_cons] at h
    simp only [Bool.or_eq_true, Bool.and_eq_true, beq_iff_eq, starts_iff] at h
    rcases h with (h | ⟨h, -⟩) | ⟨-, h⟩
    · exact .inl ⟨c :: u, List.suffix_rfl, h⟩
    · exact absurd h hc.1
    · rcases ih hu h with ⟨after, hafter, hname⟩ | h
      · exact .inl ⟨after, hafter.trans (List.suffix_cons c u), hname⟩
      · exact .inr h

theorem has_name_append {u v : Text} (hu : ∀ c ∈ u, c ≠ ':' ∧ c ≠ '>')
    (h : has_name name v = true) : has_name name (u ++ v) = true := by
  induction u with
  | nil => exact h
  | cons c u ih =>
    obtain ⟨hc, hu⟩ := List.forall_mem_cons.mp hu
    rw [List.cons_append, has_name_cons, ih hu]
    simp [hc.1, hc.2]

theorem has_name_front (h : name <+: lower text) : has_name name text = true := by
  cases text with
  | nil => rwa [has_name, starts_iff]
  | cons c text =>
    rw [has_name_cons, starts_iff.mpr h]
    rfl

theorem has_name_colon (h : name <+: lower text) : has_name name (':' :: text) = true := by
  rw [has_name_cons, starts_iff.mpr h]
  simp

/-! ## Tags -/

theorem has_name_tag (hns : Prefix ns) (rest : Text) {pattern : Text}
    (h : pattern <+: lower (name ++ rest)) :
    has_name pattern (tag_name ns name ++ rest) = true := by
  rw [tag_name]
  split
  · exact has_name_front h
  · rw [List.append_assoc, List.cons_append]
    exact has_name_append (fun c hc => ⟨(hns c hc).1, (hns c hc).2.2.1⟩) (has_name_colon h)

theorem name_in_tag {pattern : Text} (hns : Prefix ns) (hname : Name name) (slash : Text)
    (hslash : slash = [] ∨ slash = ['/'])
    (h : has_name pattern (slash ++ tag_name ns name ++ '>' :: rest) = true) :
    (∃ after, after <:+ slash ++ ns ∧ pattern <+: lower after ++ ':' :: (name ++ '>' :: lower rest))
      ∨ (∃ after, after <:+ slash ++ name ∧ pattern <+: lower after ++ '>' :: lower rest)
      ∨ pattern <+: name ++ '>' :: lower rest := by
  have hslash_chars : ∀ c ∈ slash, c ≠ ':' ∧ c ≠ '>' := by
    rcases hslash with rfl | rfl
    · exact fun c hc => absurd hc List.not_mem_nil
    · intro c hc
      rw [List.mem_singleton.mp hc]
      decide
  have hlower : ∀ rest, lower (name ++ '>' :: rest) = name ++ '>' :: lower rest := by
    intro rest
    rw [lower_separator (.inr (.inl rfl)), lower_name hname]
  rw [tag_name] at h
  split at h
  · have hu : ∀ c ∈ slash ++ name, c ≠ ':' ∧ c ≠ '>' :=
      List.forall_mem_append.mpr ⟨hslash_chars, fun c hc => ⟨(hname.2 c hc).1,
        (hname.2 c hc).2.2.1⟩⟩
    rcases has_name_separator hu (.inr rfl) h with ⟨after, hafter, hpattern⟩ | ⟨hcolon, -⟩
    · rw [lower_separator (.inr (.inl rfl))] at hpattern
      exact .inr (.inl ⟨after, hafter, hpattern⟩)
    · exact absurd hcolon (by decide)
  · have hu : ∀ c ∈ slash ++ ns, c ≠ ':' ∧ c ≠ '>' :=
      List.forall_mem_append.mpr ⟨hslash_chars, fun c hc => ⟨(hns c hc).1, (hns c hc).2.2.1⟩⟩
    rw [← List.append_assoc, List.append_assoc, List.cons_append] at h
    rcases has_name_separator hu (.inl rfl) h with ⟨after, hafter, hpattern⟩ | ⟨-, hpattern⟩
    · rw [lower_separator (.inl rfl), hlower] at hpattern
      exact .inl ⟨after, hafter, hpattern⟩
    · rw [hlower] at hpattern
      exact .inr (.inr hpattern)

theorem not_mem_lower (hc : c = ':' ∨ c = '>' ∨ c = '/') (h : c ∉ text) : c ∉ lower text := by
  intro hmem
  obtain ⟨d, hd, heq⟩ := List.mem_map.mp hmem
  refine h ?_
  -- what becomes a separator was one
  by_cases hupper : d.val ≥ 'A'.val ∧ d.val ≤ 'Z'.val
  · unfold Char.toLower at heq
    rw [dif_pos hupper] at heq
    have hval : (d.val + ('a'.val - 'A'.val)).toNat = c.val.toNat :=
      congrArg (fun e : Char => e.val.toNat) heq
    have hlow : 65 ≤ d.val.toNat := hupper.1
    have hhigh : d.val.toNat ≤ 90 := hupper.2
    have hdiff : ('a'.val - 'A'.val).toNat = 32 := by decide
    rw [UInt32.toNat_add, hdiff] at hval
    have hc : c.val.toNat ≤ 62 := by
      rcases hc with rfl | rfl | rfl <;> decide
    omega
  · unfold Char.toLower at heq
    rw [dif_neg hupper] at heq
    rwa [← heq]

theorem prefix_separator {a b : Text} (ha : c ∉ a) (hb : c ∉ b) (h : a ++ [c] <+: b ++ c :: rest) :
    a = b := by
  induction a generalizing b with
  | nil =>
    cases b with
    | nil => rfl
    | cons d b => exact absurd (List.mem_cons.mpr (.inl (List.cons_prefix_cons.mp h).1)) hb
  | cons d a ih =>
    rw [List.mem_cons, not_or] at ha
    cases b with
    | nil => exact absurd (List.cons_prefix_cons.mp h).1.symm ha.1
    | cons e b =>
      rw [List.mem_cons, not_or] at hb
      obtain ⟨rfl, htail⟩ := List.cons_prefix_cons.mp h
      rw [ih ha.2 hb.2 htail]

theorem Name.separators (h : Name name) : ':' ∉ name ∧ '>' ∉ name ∧ '/' ∉ name ∧ '<' ∉ name :=
  ⟨fun hm => (h.2 _ hm).1 rfl, fun hm => (h.2 _ hm).2.2.1 rfl, fun hm => (h.2 _ hm).2.2.2.1 rfl,
    fun hm => (h.2 _ hm).2.1 rfl⟩

theorem not_has_name {wanted : Text} (hns : Prefix ns) (hname : Name name) (hwanted : Name wanted)
    (hsilent : ¬wanted <:+: lower ns) (hother : ¬wanted <:+: name) (slash : Text)
    (hslash : slash = [] ∨ slash = ['/']) :
    has_name wanted (slash ++ tag_name ns name ++ '>' :: rest) = false := by
  obtain ⟨hcolon, hend, hbar, -⟩ := hwanted.separators
  have hin : ∀ {text after : Text}, after <:+ slash ++ text → wanted <+: lower after →
      wanted <:+: lower text := by
    intro text after hafter hpattern
    have hinfix : wanted <:+: lower (slash ++ text) := by
      obtain ⟨before, hbefore⟩ := hafter
      rw [← hbefore, lower_append]
      exact List.infix_append_of_infix_right hpattern.isInfix
    rcases hslash with rfl | rfl
    · exact hinfix
    · rcases infix_split (x := []) hbar hinfix with hnil | hinfix
      · exact absurd (List.eq_nil_of_infix_nil hnil) hwanted.1
      · exact hinfix
  refine Bool.eq_false_iff.mpr fun h => ?_
  rcases name_in_tag hns hname slash hslash h with ⟨after, hafter, hp⟩ | ⟨after, hafter, hp⟩ | hp
  · exact hsilent (hin hafter (prefix_split hcolon hp))
  · refine hother ?_
    rw [← lower_name hname]
    exact hin hafter (prefix_split hend hp)
  · exact hother (prefix_split hend hp).isInfix

theorem not_has_name_end {wanted : Text} (hns : Prefix ns) (hname : Name name)
    (hwanted : Name wanted) (hother : ¬wanted <:+ name) :
    has_name (wanted ++ ['>']) (tag_name ns name ++ '>' :: rest) = false := by
  obtain ⟨hcolon, hend, -, -⟩ := hwanted.separators
  have hmem : '>' ∈ wanted ++ ['>'] := List.mem_append_right _ List.mem_cons_self
  refine Bool.eq_false_iff.mpr fun h => ?_
  rcases name_in_tag hns hname [] (.inl rfl) h with
    ⟨after, hafter, hp⟩ | ⟨after, hafter, hp⟩ | hp
  · -- the bracket would be in the prefix
    have hcolon' : ':' ∉ wanted ++ ['>'] := by
      rw [List.mem_append, not_or]
      exact ⟨hcolon, by decide⟩
    refine not_mem_lower (.inr (.inl rfl)) ?_ ((prefix_split hcolon' hp).subset hmem)
    exact fun hin => (hns _ (hafter.subset hin)).2.2.1 rfl
  · refine hother ?_
    have hafter_end : '>' ∉ after := fun hin => hname.separators.2.1 (hafter.subset hin)
    have hafter_name : Name after ∨ after = [] := by
      by_cases hnil : after = []
      · exact .inr hnil
      · exact .inl ⟨hnil, fun c hc => hname.2 c (hafter.subset hc)⟩
    have hlower : lower after = after := by
      rcases hafter_name with h | rfl
      · exact lower_name h
      · rfl
    rw [prefix_separator hend (not_mem_lower (.inr (.inl rfl)) hafter_end) hp, hlower]
    exact hafter
  · exact hother (prefix_separator hend hname.separators.2.1 hp ▸ List.suffix_rfl)

/-! ## Searching -/

/-- Nothing is found at a place of the text, whatever is behind the text. -/
def Nowhere (find : Text → Option Text) (text : Text) : Prop :=
  ∀ after rest, after <:+ text → after ≠ [] → find (after ++ rest) = none

/-- Only a left angle bracket starts a match. -/
def Tags (find : Text → Option Text) : Prop := ∀ c rest, c ≠ '<' → find (c :: rest) = none

theorem tags_opens (name : Text) : Tags (opens name) := by
  intro c rest h
  rw [opens.eq_def]
  split
  next heq => exact absurd (List.cons.inj heq).1 h
  next => rfl

theorem tags_closes (name : Text) : Tags (closes name) := by
  intro c rest h
  rw [closes.eq_def]
  split
  next heq => exact absurd (List.cons.inj heq).1 h
  next => rfl

section Nowhere

variable {find : Text → Option Text}

theorem nowhere_suffix {a b : Text} (h : Nowhere find b) (hsuffix : a <:+ b) : Nowhere find a :=
  fun after rest hafter hne => h after rest (hafter.trans hsuffix) hne

theorem nowhere_append {a b : Text} (ha : Nowhere find a) (hb : Nowhere find b) :
    Nowhere find (a ++ b) := by
  induction a with
  | nil => exact hb
  | cons c a ih =>
    intro after rest hafter hne
    rcases List.suffix_cons_iff.mp hafter with rfl | hsuffix
    · have hfront := ha (c :: a) (b ++ rest) List.suffix_rfl (List.cons_ne_nil c a)
      rwa [← List.append_assoc] at hfront
    · exact ih (nowhere_suffix ha (List.suffix_cons c a)) after rest hsuffix hne

theorem nowhere_plain (hfind : Tags find) {text : Text} (h : '<' ∉ text) : Nowhere find text := by
  intro after rest hafter hne
  cases after with
  | nil => exact absurd rfl hne
  | cons c after =>
    exact hfind c (after ++ rest) fun heq => h (hafter.subset (heq ▸ List.mem_cons_self))

theorem nowhere_tag (hfind : Tags find) {body : Text} (hbody : '<' ∉ body)
    (h : ∀ rest, find ('<' :: body ++ '>' :: rest) = none) :
    Nowhere find ('<' :: body ++ ['>']) := by
  intro after rest hafter hne
  rw [List.cons_append] at hafter
  rcases List.suffix_cons_iff.mp hafter with rfl | hsuffix
  · have hnone := h rest
    simpa using hnone
  · refine nowhere_plain hfind ?_ after rest hsuffix hne
    rw [List.mem_append, not_or]
    exact ⟨hbody, by decide⟩

theorem nowhere_front {text : Text} (h : Nowhere find text) {c : Char} {text' rest : Text}
    (htext : text = c :: text') : find (c :: (text' ++ rest)) = none := by
  subst htext
  exact h (c :: text') rest List.suffix_rfl (List.cons_ne_nil c text')

end Nowhere

theorem extract_tag_append (h : Nowhere (opens name) before) :
    extract_tag name (before ++ text) = extract_tag name text := by
  induction before with
  | nil => rfl
  | cons c before ih =>
    rw [List.cons_append, extract_tag, nowhere_front h rfl]
    exact ih (nowhere_suffix h (List.suffix_cons c before))

theorem find_close_append (h : Nowhere (closes name) before) : find_close name (before ++ text)
      = (find_close name text).map fun found => (before ++ found.1, found.2) := by
  induction before with
  | nil =>
    rw [List.nil_append]
    exact Option.map_id'.symm
  | cons c before ih =>
    rw [List.cons_append, find_close, nowhere_front h rfl]
    dsimp only
    rw [ih (nowhere_suffix h (List.suffix_cons c before)), Option.map_map]
    rfl

/-! ## The tags of a document -/

theorem behind_append {body : Text} (h : '>' ∉ body) (rest : Text) :
    behind (body ++ '>' :: rest) = some rest := by
  rw [behind]
  induction body with
  | nil => rfl
  | cons c body ih =>
    rw [List.mem_cons, not_or] at h
    rw [List.cons_append, List.dropWhile_cons, if_pos (by simpa using Ne.symm h.1)]
    exact ih h.2

theorem tag_name_not_mem (hns : Prefix ns) (hname : Name name) (hc : c = '<' ∨ c = '>' ∨ c = '/') :
    c ∉ tag_name ns name := by
  have hin_ns : c ∉ ns := by
    intro hmem
    rcases hc with rfl | rfl | rfl
    · exact (hns _ hmem).2.1 rfl
    · exact (hns _ hmem).2.2.1 rfl
    · exact (hns _ hmem).2.2.2 rfl
  have hin_name : c ∉ name := by
    intro hmem
    rcases hc with rfl | rfl | rfl
    · exact hname.separators.2.2.2 hmem
    · exact hname.separators.2.1 hmem
    · exact hname.separators.2.2.1 hmem
  rw [tag_name]
  split
  · exact hin_name
  · rw [List.mem_append, List.mem_cons, not_or, not_or]
    refine ⟨hin_ns, ?_, hin_name⟩
    rcases hc with rfl | rfl | rfl <;> decide

theorem opens_start_tag (hns : Prefix ns) (hname : Name name) (rest : Text) :
    opens name (start_tag ns name ++ rest) = some rest := by
  have htext : start_tag ns name ++ rest = '<' :: (tag_name ns name ++ '>' :: rest) := by
    simp [start_tag]
  rw [htext, opens, if_pos, behind_append (tag_name_not_mem hns hname (.inr (.inl rfl)))]
  refine has_name_tag hns _ ?_
  rw [lower_append, lower_name hname]
  exact List.prefix_append _ _

theorem closes_end_tag (hns : Prefix ns) (hname : Name name) (rest : Text) :
    closes name (end_tag ns name ++ rest) = some rest := by
  have htext : end_tag ns name ++ rest = '<' :: '/' :: (tag_name ns name ++ '>' :: rest) := by
    simp [end_tag]
  rw [htext, closes, if_pos, behind_append (tag_name_not_mem hns hname (.inr (.inl rfl)))]
  refine has_name_tag hns _ ?_
  rw [lower_separator (.inr (.inl rfl)), lower_name hname]
  exact List.prefix_append_right_inj name |>.mpr (List.cons_prefix_cons.mpr ⟨rfl, List.nil_prefix⟩)

theorem extract_element (hns : Prefix ns) (hname : Name name)
    (hbefore : Nowhere (opens name) before) (hcontent : Nowhere (closes name) content)
    (rest : Text) :
    extract_tag name (before ++ element ns name content ++ rest) = some (trim content) := by
  have hopen : opens name
      ('<' :: (tag_name ns name ++ ['>'] ++ (content ++ end_tag ns name ++ rest)))
      = some (content ++ end_tag ns name ++ rest) := by
    have h := opens_start_tag hns hname (content ++ end_tag ns name ++ rest)
    rwa [start_tag, List.cons_append, List.cons_append] at h
  have hclose : find_close name (end_tag ns name ++ rest) = some ([], rest) := by
    have h := closes_end_tag hns hname rest
    rw [end_tag, List.cons_append, List.cons_append] at h ⊢
    rw [find_close, h]
  rw [List.append_assoc, extract_tag_append hbefore, element, start_tag, List.append_assoc,
    List.append_assoc, List.cons_append, List.cons_append, extract_tag, ← List.append_assoc content,
    hopen, Option.bind_some, List.append_assoc content, find_close_append hcontent, hclose]
  simp only [Option.map_some, List.append_nil]

/-! ## Tags of other elements -/

section Tags

variable {wanted : Text}

theorem quiet_start_tag (hns : Prefix ns) (hname : Name name) (hwanted : Name wanted)
    (hsilent : ¬wanted <:+: lower ns) (hother : ¬wanted <:+: name) :
    Nowhere (opens wanted) (start_tag ns name) := by
  refine nowhere_tag (tags_opens wanted) (tag_name_not_mem hns hname (.inl rfl)) fun rest => ?_
  rw [List.cons_append, opens, if_neg]
  rw [Bool.not_eq_true]
  exact not_has_name hns hname hwanted hsilent hother [] (.inl rfl)

theorem quiet_end_tag (hns : Prefix ns) (hname : Name name) (hwanted : Name wanted)
    (hsilent : ¬wanted <:+: lower ns) (hother : ¬wanted <:+: name) :
    Nowhere (opens wanted) (end_tag ns name) := by
  have hbody : '<' ∉ '/' :: tag_name ns name := by
    rw [List.mem_cons, not_or]
    exact ⟨by decide, tag_name_not_mem hns hname (.inl rfl)⟩
  refine nowhere_tag (tags_opens wanted) hbody fun rest => ?_
  rw [List.cons_append, opens, if_neg]
  rw [Bool.not_eq_true]
  exact not_has_name hns hname hwanted hsilent hother ['/'] (.inr rfl)

theorem unclosed_start_tag (hns : Prefix ns) (hname : Name name) :
    Nowhere (closes wanted) (start_tag ns name) := by
  refine nowhere_tag (tags_closes wanted) (tag_name_not_mem hns hname (.inl rfl)) fun rest => ?_
  rw [List.cons_append, closes.eq_def]
  split
  next text heq =>
    have htext : tag_name ns name ++ '>' :: rest = '/' :: text := (List.cons.inj heq).2
    have hbar := tag_name_not_mem hns hname (c := '/') (.inr (.inr rfl))
    cases htag : tag_name ns name with
    | nil =>
      rw [htag] at htext
      exact absurd (List.cons.inj htext).1 (by decide)
    | cons c tag =>
      rw [htag] at htext hbar
      exact absurd (List.mem_cons.mpr (.inl (List.cons.inj htext).1.symm)) hbar
  next => rfl

theorem unclosed_end_tag (hns : Prefix ns) (hname : Name name) (hwanted : Name wanted)
    (hother : ¬wanted <:+ name) : Nowhere (closes wanted) (end_tag ns name) := by
  have hbody : '<' ∉ '/' :: tag_name ns name := by
    rw [List.mem_cons, not_or]
    exact ⟨by decide, tag_name_not_mem hns hname (.inl rfl)⟩
  refine nowhere_tag (tags_closes wanted) hbody fun rest => ?_
  rw [List.cons_append, List.cons_append, closes, if_neg]
  rw [Bool.not_eq_true]
  exact not_has_name_end hns hname hwanted hother

theorem quiet_element (hns : Prefix ns) (hname : Name name) (hwanted : Name wanted)
    (hsilent : ¬wanted <:+: lower ns) (hother : ¬wanted <:+: name) {content : Text}
    (hcontent : '<' ∉ content) : Nowhere (opens wanted) (element ns name content) :=
  nowhere_append (nowhere_append (quiet_start_tag hns hname hwanted hsilent hother)
    (nowhere_plain (tags_opens wanted) hcontent))
    (quiet_end_tag hns hname hwanted hsilent hother)

theorem unclosed_element (hns : Prefix ns) (hname : Name name) (hwanted : Name wanted)
    (hother : ¬wanted <:+ name) {content : Text} (hcontent : '<' ∉ content) :
    Nowhere (closes wanted) (element ns name content) :=
  nowhere_append (nowhere_append (unclosed_start_tag hns hname)
    (nowhere_plain (tags_closes wanted) hcontent)) (unclosed_end_tag hns hname hwanted hother)

end Tags

/-! ## Escaped texts -/

theorem escape_xml_char_plain :
    '<' ∉ escape_xml_char c ∧ (is_space c = true → escape_xml_char c = [c])
      ∧ (is_space c = false → (∃ d rest, escape_xml_char c = d :: rest ∧ is_space d = false)
        ∧ ∃ d rest, escape_xml_char c = rest ++ [d] ∧ is_space d = false) := by
  rw [escape_xml_char]
  split_ifs with hamp hless hgreater hquot hapos
  · subst hamp
    exact ⟨by decide, fun h => absurd h (by decide), fun _ =>
      ⟨⟨'&', "amp;".toList, rfl, by decide⟩, ';', "&amp".toList, rfl, by decide⟩⟩
  · subst hless
    exact ⟨by decide, fun h => absurd h (by decide), fun _ =>
      ⟨⟨'&', "lt;".toList, rfl, by decide⟩, ';', "&lt".toList, rfl, by decide⟩⟩
  · subst hgreater
    exact ⟨by decide, fun h => absurd h (by decide), fun _ =>
      ⟨⟨'&', "gt;".toList, rfl, by decide⟩, ';', "&gt".toList, rfl, by decide⟩⟩
  · subst hquot
    exact ⟨by decide, fun h => absurd h (by decide), fun _ =>
      ⟨⟨'&', "quot;".toList, rfl, by decide⟩, ';', "&quot".toList, rfl, by decide⟩⟩
  · subst hapos
    exact ⟨by decide, fun h => absurd h (by decide), fun _ =>
      ⟨⟨'&', "apos;".toList, rfl, by decide⟩, ';', "&apos".toList, rfl, by decide⟩⟩
  · refine ⟨?_, fun _ => rfl, fun h => ⟨⟨c, [], rfl, h⟩, c, [], rfl, h⟩⟩
    rw [List.mem_singleton]
    exact Ne.symm hless

theorem escape_xml_plain (text : Text) : '<' ∉ escape_xml text := by
  intro h
  obtain ⟨c, -, hc⟩ := List.mem_flatMap.mp h
  exact escape_xml_char_plain.1 hc

theorem escape_xml_front (text : Text) :
    (escape_xml text).dropWhile is_space = escape_xml (text.dropWhile is_space) := by
  induction text with
  | nil => rfl
  | cons c text ih =>
    rw [escape_xml, List.flatMap_cons, List.dropWhile_cons]
    by_cases hspace : is_space c = true
    · rw [escape_xml_char_plain.2.1 hspace, if_pos hspace, List.singleton_append,
        List.dropWhile_cons, if_pos hspace]
      exact ih
    · obtain ⟨⟨d, rest, heq, hd⟩, -⟩ := escape_xml_char_plain.2.2 (Bool.eq_false_iff.mpr hspace)
      rw [if_neg hspace, heq, List.cons_append, List.dropWhile_cons,
        if_neg (Bool.eq_false_iff.mp hd), escape_xml, List.flatMap_cons, heq]
      rfl

theorem escape_xml_back (text : Text) :
    ((escape_xml text).reverse.dropWhile is_space).reverse
      = escape_xml (text.reverse.dropWhile is_space).reverse := by
  induction text using List.reverseRecOn with
  | nil => rfl
  | append_singleton text c ih =>
    have hsplit : escape_xml (text ++ [c]) = escape_xml text ++ escape_xml_char c := by
      rw [escape_xml, List.flatMap_append, List.flatMap_singleton, escape_xml]
    rw [hsplit, List.reverse_append, List.reverse_append, List.reverse_singleton,
      List.singleton_append, List.dropWhile_cons]
    by_cases hspace : is_space c = true
    · rw [escape_xml_char_plain.2.1 hspace, if_pos hspace, List.reverse_singleton,
        List.singleton_append, List.dropWhile_cons, if_pos hspace]
      exact ih
    · obtain ⟨-, d, rest, heq, hd⟩ := escape_xml_char_plain.2.2 (Bool.eq_false_iff.mpr hspace)
      rw [if_neg hspace, heq, List.reverse_append, List.reverse_singleton, List.singleton_append,
        List.cons_append, List.dropWhile_cons, if_neg (Bool.eq_false_iff.mp hd), List.reverse_cons,
        List.reverse_cons, List.reverse_reverse, hsplit, heq, List.reverse_append,
        List.reverse_reverse, List.reverse_reverse, List.append_assoc]

theorem trim_escape (text : Text) : trim (escape_xml text) = escape_xml (trim text) := by
  rw [trim, trim, escape_xml_front, escape_xml_back]

/-! ## Decoding -/

theorem decode_plain (h : c ≠ '&') (text : Text) :
    decode_from 0 (c :: text) = c :: decode_from 0 text := by
  rw [decode_from, if_neg h]

theorem decode_entity (text : Text) (h : entity (text ++ rest) = some ([c], text.length)) :
    decode_from 0 ('&' :: (text ++ rest)) = c :: decode_from 0 rest := by
  have hskip : ∀ text rest : Text, decode_from text.length (text ++ rest) = decode_from 0 rest := by
    intro text rest
    induction text with
    | nil => rfl
    | cons d text ih => exact ih
  rw [decode_from, if_pos rfl, h]
  dsimp only
  rw [hskip]
  rfl

theorem decode_escape_char (c : Char) (rest : Text) :
    decode_from 0 (escape_xml_char c ++ rest) = c :: decode_from 0 rest := by
  rw [escape_xml_char]
  split_ifs with hamp hless hgreater hquot hapos
  · subst hamp
    exact decode_entity "amp;".toList rfl
  · subst hless
    exact decode_entity "lt;".toList rfl
  · subst hgreater
    exact decode_entity "gt;".toList rfl
  · subst hquot
    exact decode_entity "quot;".toList rfl
  · subst hapos
    exact decode_entity "apos;".toList rfl
  · exact decode_plain hamp rest

/-- **What is escaped is decoded.** -/
theorem decode_escape (text : Text) : decode_xml_text (escape_xml text) = text := by
  rw [decode_xml_text]
  induction text with
  | nil => rfl
  | cons c text ih =>
    rw [escape_xml, List.flatMap_cons, decode_escape_char]
    exact congrArg (c :: ·) ih

/-! ## Splitting -/

theorem behind_suffix (h : behind text = some rest) : rest <:+ text := by
  rw [behind] at h
  have hdrop := List.dropWhile_suffix (l := text) (· ≠ '>')
  cases htail : text.dropWhile (· ≠ '>') with
  | nil =>
    rw [htail] at h
    cases h
  | cons c after =>
    rw [htail] at h hdrop
    cases h
    exact (List.suffix_cons c _).trans hdrop

theorem find_close_none (h : Nowhere (closes name) text) : find_close name text = none := by
  have hfind : find_close name (text ++ []) = _ := find_close_append h
  rwa [List.append_nil] at hfind

theorem opens_suffix (h : opens name text = some rest) : rest <:+ text := by
  rw [opens.eq_def] at h
  split at h
  next text' =>
    split at h
    · exact (behind_suffix h).trans (List.suffix_cons _ _)
    · cases h
  next => cases h

theorem split_unclosed (h : Nowhere (closes "response".toList) text) : split_from 0 text = [] := by
  induction text with
  | nil => rfl
  | cons c text ih =>
    rw [split_from]
    cases hopens : opens "response".toList (c :: text) with
    | none => exact ih (nowhere_suffix h (List.suffix_cons c text))
    | some rest =>
      rw [Option.bind_some, find_close_none (nowhere_suffix h (opens_suffix hopens))]
      exact ih (nowhere_suffix h (List.suffix_cons c text))

theorem split_match {block inner : Text} (hne : block ≠ [])
    (hopens : opens "response".toList (block ++ rest) = some inner)
    (hclose : find_close "response".toList inner = some (content, rest)) :
    split_from 0 (block ++ rest) = block :: split_from 0 rest := by
  have hskip : ∀ text : Text, split_from text.length (text ++ rest) = split_from 0 rest := by
    intro text
    induction text with
    | nil => rfl
    | cons d text ih => exact ih
  cases block with
  | nil => exact absurd rfl hne
  | cons c block =>
    rw [List.cons_append] at hopens ⊢
    rw [split_from, hopens, Option.bind_some, hclose]
    dsimp only
    have hlength : (block ++ rest).length - rest.length = block.length := by
      rw [List.length_append]
      omega
    have htake : (block ++ rest).length + 1 - rest.length = (c :: block).length := by
      rw [List.length_append, List.length_cons]
      omega
    rw [hlength, hskip, htake, ← List.cons_append, List.take_left']
    rfl

/-- Where a bracket opens a tag, the tag is closed. -/
def Tagged (text : Text) : Prop := ∀ after, after <:+ text → after.head? = some '<' → '>' ∈ after

theorem tagged_suffix {a b : Text} (h : Tagged b) (hsuffix : a <:+ b) : Tagged a :=
  fun after hafter => h after (hafter.trans hsuffix)

theorem tagged_plain (h : '<' ∉ text) : Tagged text := by
  intro after hafter hhead
  exact absurd (hafter.subset (List.mem_of_head? hhead)) h

theorem tagged_append {a b : Text} (hb : '<' ∉ b) : Tagged (a ++ '>' :: b) := by
  intro after hafter hhead
  rcases List.suffix_or_suffix_of_suffix hafter
    ((List.suffix_cons '>' b).trans (List.suffix_append a ('>' :: b))) with hsuffix | hsuffix
  · exact absurd (hsuffix.subset (List.mem_of_head? hhead)) hb
  · -- the text up to the bracket is part of it
    rcases List.suffix_or_suffix_of_suffix hafter (List.suffix_append a ('>' :: b)) with h | h
    · rcases List.suffix_cons_iff.mp h with rfl | h
      · exact List.mem_cons_self
      · exact absurd (h.subset (List.mem_of_head? hhead)) hb
    · exact h.subset List.mem_cons_self

/-- The search cuts a response off at its closing tag. -/
theorem split_response (hns : Prefix ns) (hbefore : Nowhere (closes "response".toList) before)
    (htagged : Tagged before) (hcontent : Nowhere (closes "response".toList) content)
    (rest : Text) : ∃ lead, lead <:+ before
      ∧ split_from 0 (before ++ element ns "response".toList content ++ rest)
        = (lead ++ element ns "response".toList content) :: split_from 0 rest := by
  have hname : Name "response".toList := by decide
  have hclose : ∀ text : Text, Nowhere (closes "response".toList) text →
      find_close "response".toList (text ++ (end_tag ns "response".toList ++ rest))
        = some (text, rest) := by
    intro text htext
    have hend : find_close "response".toList (end_tag ns "response".toList ++ rest)
        = some ([], rest) := by
      have h := closes_end_tag hns hname rest
      rw [end_tag, List.cons_append, List.cons_append] at h ⊢
      rw [find_close, h]
    rw [find_close_append htext, hend]
    simp only [Option.map_some, List.append_nil]
  induction before with
  | nil =>
    refine ⟨[], List.suffix_rfl, ?_⟩
    rw [List.nil_append]
    refine split_match ?_ ?_ (hclose content hcontent)
    · rw [element, start_tag]
      exact List.cons_ne_nil _ _
    · rw [element, List.append_assoc, List.append_assoc]
      exact opens_start_tag hns hname _
  | cons c before ih =>
    by_cases hopens : ∃ inner, opens "response".toList
        ((c :: before) ++ element ns "response".toList content ++ rest) = some inner
    · -- the match starts in front of the response, and ends where that does
      obtain ⟨inner, hinner⟩ := hopens
      refine ⟨c :: before, List.suffix_rfl, ?_⟩
      have hc : c = '<' := by
        by_contra hne
        rw [List.cons_append, List.cons_append, tags_opens _ _ _ hne] at hinner
        cases hinner
      subst hc
      have hmem : '>' ∈ before := by
        rcases List.mem_cons.mp (htagged _ List.suffix_rfl rfl) with heq | hmem
        · exact absurd heq (by decide)
        · exact hmem
      obtain ⟨a, b, rfl, ha⟩ := List.eq_append_cons_of_mem hmem
      have hb : Nowhere (closes "response".toList) b := by
        refine nowhere_suffix hbefore ⟨'<' :: a ++ ['>'], ?_⟩
        simp
      have hbehind : inner = b ++ element ns "response".toList content ++ rest := by
        rw [List.cons_append, List.cons_append, opens] at hinner
        split at hinner
        · rw [List.append_assoc, List.append_assoc, List.cons_append, behind_append ha] at hinner
          cases hinner
          rw [List.append_assoc]
        · cases hinner
      have hfound : find_close "response".toList inner
          = some (b ++ (start_tag ns "response".toList ++ content), rest) := by
        rw [hbehind, element]
        have h := hclose (b ++ (start_tag ns "response".toList ++ content))
          (nowhere_append hb (nowhere_append (unclosed_start_tag hns hname) hcontent))
        simpa using h
      exact split_match (List.cons_ne_nil _ _) hinner hfound
    · have hnone : opens "response".toList
          (c :: (before ++ element ns "response".toList content ++ rest)) = none := by
        cases h : opens "response".toList
          (c :: (before ++ element ns "response".toList content ++ rest)) with
        | none => rfl
        | some inner => exact absurd ⟨inner, h⟩ hopens
      obtain ⟨lead, hlead, hsplit⟩ := ih
        (nowhere_suffix hbefore (List.suffix_cons c before))
        (tagged_suffix htagged (List.suffix_cons c before))
      refine ⟨lead, hlead.trans (List.suffix_cons c before), ?_⟩
      rw [List.cons_append, List.cons_append, split_from, hnone]
      exact hsplit

/-! ## The front of a document -/

/-- The names that are looked for in a response. -/
def wanted_names : List Text :=
  ["href".toList, "displayname".toList, "getetag".toList, "calendar-data".toList]

def Silent (dav : Text) : Prop := ∀ wanted ∈ wanted_names, ¬wanted <:+: lower dav

def Gap (gap : Text) : Prop := ∀ c ∈ gap, is_space c = true

theorem Gap.plain {gap : Text} (h : Gap gap) : '<' ∉ gap :=
  fun hmem => absurd (h '<' hmem) (by decide)

def xml_body : Text := "?xml version=\"1.0\" encoding=\"UTF-8\"?".toList

/-- The body of the first tag up to its first colon, without a prefix. -/
def default_body : Text := "multistatus xmlns=\"DAV".toList

theorem wanted_spec : ∀ wanted ∈ wanted_names, Name wanted ∧ ¬wanted <:+: lower xml_body
    ∧ ¬wanted <:+: lower default_body ∧ wanted.head? ≠ some 'm' ∧ wanted.head? ≠ some '"'
    ∧ ∀ name ∈ ["response".toList, "propstat".toList, "prop".toList], ¬wanted <:+: name := by
  decide

theorem wanted_apart : ¬"displayname".toList <:+: "href".toList
    ∧ ¬"getetag".toList <:+: "href".toList ∧ ¬"getetag".toList <:+: "displayname".toList
    ∧ ¬"calendar-data".toList <:+: "href".toList
    ∧ ¬"calendar-data".toList <:+: "displayname".toList
    ∧ ¬"calendar-data".toList <:+: "getetag".toList := by
  decide

section Front

variable {dav caldav : Text} {gap : ℕ → Text}

theorem Prefix.not_mem (h : Prefix ns) {c : Char} (hc : c = '<' ∨ c = '>') : c ∉ ns := by
  rcases hc with rfl | rfl
  · exact fun hmem => (h _ hmem).2.1 rfl
  · exact fun hmem => (h _ hmem).2.2.1 rfl

theorem bracket_not_mem {c : Char} (hc : c = '<' ∨ c = '>') : c ∉ " xmlns".toList
    ∧ c ∉ "=\"".toList ∧ c ∉ ['"'] ∧ c ≠ ':' ∧ c ∉ "DAV:".toList
    ∧ c ∉ "urn:ietf:params:xml:ns:caldav".toList := by
  rcases hc with rfl | rfl <;> decide

theorem declaration_not_mem {uri : Text} (hns : Prefix ns) {c : Char} (hc : c = '<' ∨ c = '>')
    (huri : c ∉ uri) : c ∉ declaration ns uri := by
  obtain ⟨hxmlns, hequals, hquote, hcolon, -⟩ := bracket_not_mem hc
  have hmiddle : c ∉ (if ns = [] then [] else ':' :: ns) := by
    split
    · exact List.not_mem_nil
    · rw [List.mem_cons, not_or]
      exact ⟨hcolon, hns.not_mem hc⟩
  unfold declaration
  intro h
  rcases List.mem_append.mp h with h | h
  · rcases List.mem_append.mp h with h | h
    · rcases List.mem_append.mp h with h | h
      · rcases List.mem_append.mp h with h | h
        · exact hxmlns h
        · exact hmiddle h
      · exact hequals h
    · exact huri h
  · exact hquote h

def document_body (dav caldav : Text) : Text :=
  tag_name dav "multistatus".toList ++ declaration dav "DAV:".toList
    ++ declaration caldav "urn:ietf:params:xml:ns:caldav".toList

theorem document_body_not_mem (hdav : Prefix dav) (hcaldav : Prefix caldav) {c : Char}
    (hc : c = '<' ∨ c = '>') : c ∉ document_body dav caldav := by
  have htag : c ∉ tag_name dav "multistatus".toList :=
    tag_name_not_mem hdav (by decide) (hc.imp_right .inl)
  rw [document_body, List.mem_append, List.mem_append, not_or, not_or]
  obtain ⟨-, -, -, -, hdav_uri, hcaldav_uri⟩ := bracket_not_mem hc
  exact ⟨⟨htag, declaration_not_mem hdav hc hdav_uri⟩, declaration_not_mem hcaldav hc hcaldav_uri⟩

theorem document_front_eq : document_front dav caldav gap
    = ('<' :: xml_body ++ ['>']) ++ gap 0 ++ ('<' :: document_body dav caldav ++ ['>'])
      ++ gap 1 := by
  have hxml : "<?xml version=\"1.0\" encoding=\"UTF-8\"?>".toList = '<' :: xml_body ++ ['>'] := by
    decide
  unfold document_front document_body
  rw [hxml]
  simp only [List.cons_append, List.append_assoc]

theorem document_body_silent (hdav : Prefix dav) (hsilent : Silent dav) {wanted : Text}
    (hwanted : wanted ∈ wanted_names) (rest : Text) :
    has_name wanted (document_body dav caldav ++ '>' :: rest) = false := by
  obtain ⟨hname, -, hdefault, hm, hquote, -⟩ := wanted_spec wanted hwanted
  have hcolon := hname.separators.1
  refine Bool.eq_false_iff.mpr fun h => ?_
  rw [document_body, tag_name] at h
  split at h
  next hnil =>
    -- without a prefix the first colon is that of the namespace
    have hbody : ∀ tail : Text, "multistatus".toList ++ declaration dav "DAV:".toList ++ tail
        = default_body ++ ':' :: ('"' :: tail) := by
      intro tail
      rw [hnil]
      rfl
    rw [List.append_assoc, hbody] at h
    have hplain : ∀ c ∈ default_body, c ≠ ':' ∧ c ≠ '>' := by decide
    rcases has_name_separator hplain (.inl rfl) h with ⟨after, hafter, hp⟩ | ⟨-, hp⟩
    · rw [lower_separator (.inl rfl)] at hp
      obtain ⟨before, hbefore⟩ := hafter
      refine hdefault ?_
      rw [← hbefore, lower_append]
      exact List.infix_append_of_infix_right (prefix_split hcolon hp).isInfix
    · exact hquote (prefix_head hp hname.1)
  next =>
    have hplain : ∀ c ∈ dav, c ≠ ':' ∧ c ≠ '>' := fun c hc => ⟨(hdav c hc).1, (hdav c hc).2.2.1⟩
    rw [List.append_assoc, List.append_assoc, List.append_assoc, List.cons_append] at h
    rcases has_name_separator hplain (.inl rfl) h with ⟨after, hafter, hp⟩ | ⟨-, hp⟩
    · rw [lower_separator (.inl rfl)] at hp
      obtain ⟨before, hbefore⟩ := hafter
      refine hsilent wanted hwanted ?_
      rw [← hbefore, lower_append]
      exact List.infix_append_of_infix_right (prefix_split hcolon hp).isInfix
    · exact hm (prefix_head hp hname.1)

theorem xml_body_silent {wanted : Text} (hwanted : wanted ∈ wanted_names) (rest : Text) :
    has_name wanted (xml_body ++ '>' :: rest) = false := by
  obtain ⟨hname, hxml, -⟩ := wanted_spec wanted hwanted
  have hplain : ∀ c ∈ xml_body, c ≠ ':' ∧ c ≠ '>' := by decide
  refine Bool.eq_false_iff.mpr fun h => ?_
  rcases has_name_separator hplain (.inr rfl) h with ⟨after, hafter, hp⟩ | ⟨hcolon, -⟩
  · rw [lower_separator (.inr (.inl rfl))] at hp
    obtain ⟨before, hbefore⟩ := hafter
    refine hxml ?_
    rw [← hbefore, lower_append]
    exact List.infix_append_of_infix_right (prefix_split hname.separators.2.1 hp).isInfix
  · exact absurd hcolon (by decide)

theorem quiet_front (hdav : Prefix dav) (hcaldav : Prefix caldav) (hgap : ∀ k, Gap (gap k))
    (hsilent : Silent dav) {wanted : Text} (hwanted : wanted ∈ wanted_names) :
    Nowhere (opens wanted) (document_front dav caldav gap) := by
  have hgap' : ∀ k, Nowhere (opens wanted) (gap k) :=
    fun _ => nowhere_plain (tags_opens wanted) (hgap _).plain
  rw [document_front_eq]
  refine nowhere_append (nowhere_append (nowhere_append ?_ (hgap' _)) ?_) (hgap' _)
  · refine nowhere_tag (tags_opens wanted) (by decide) fun rest => ?_
    rw [List.cons_append, opens, if_neg]
    rw [Bool.not_eq_true]
    exact xml_body_silent hwanted rest
  · refine nowhere_tag (tags_opens wanted) (document_body_not_mem hdav hcaldav (.inl rfl))
      fun rest => ?_
    rw [List.cons_append, opens, if_neg]
    rw [Bool.not_eq_true]
    exact document_body_silent hdav hsilent hwanted rest

theorem document_body_head (hdav : Prefix dav) : (document_body dav caldav).head? ≠ some '/' := by
  rw [document_body, tag_name]
  split
  · intro h
    cases h
  next hne =>
    cases dav with
    | nil => exact absurd rfl hne
    | cons c dav =>
      intro h
      exact (hdav c List.mem_cons_self).2.2.2 (Option.some.inj h)

theorem unclosed_front (hdav : Prefix dav) (hcaldav : Prefix caldav) (hgap : ∀ k, Gap (gap k))
    (name : Text) : Nowhere (closes name) (document_front dav caldav gap) := by
  have hgap' : ∀ k, Nowhere (closes name) (gap k) :=
    fun _ => nowhere_plain (tags_closes name) (hgap _).plain
  have hstart : ∀ body rest : Text, body ≠ [] → body.head? ≠ some '/' →
      closes name ('<' :: body ++ '>' :: rest) = none := by
    intro body rest hne hhead
    cases body with
    | nil => exact absurd rfl hne
    | cons c body =>
      rw [closes.eq_def]
      split
      next text heq =>
        exact absurd (congrArg some (List.cons.inj (List.cons.inj heq).2).1) hhead
      next => rfl
  have hne : document_body dav caldav ≠ [] := by
    rw [document_body, tag_name]
    split <;> simp
  rw [document_front_eq]
  refine nowhere_append (nowhere_append (nowhere_append ?_ (hgap' _)) ?_) (hgap' _)
  · exact nowhere_tag (tags_closes name) (by decide) fun rest =>
      hstart xml_body rest (by decide) (by decide)
  · exact nowhere_tag (tags_closes name) (document_body_not_mem hdav hcaldav (.inl rfl))
      fun rest => hstart _ rest hne (document_body_head hdav)

theorem tagged_front (hgap : ∀ k, Gap (gap k)) : Tagged (document_front dav caldav gap) := by
  have hend : document_front dav caldav gap
      = (('<' :: xml_body ++ ['>']) ++ gap 0 ++ ('<' :: document_body dav caldav))
        ++ '>' :: gap 1 := by
    rw [document_front_eq]
    simp only [List.append_assoc, List.cons_append, List.nil_append]
  rw [hend]
  exact tagged_append (hgap _).plain

end Front

/-! ## One response -/

section Response

variable {dav caldav : Text} {gap : ℕ → Text}

def up_to_display_name (dav : Text) (gap : ℕ → Text) (r : Resource) : Text :=
  start_tag dav "response".toList ++ gap 0 ++ element dav "href".toList (escape_xml r.href)
    ++ gap 1 ++ start_tag dav "propstat".toList ++ gap 2 ++ start_tag dav "prop".toList ++ gap 3

def up_to_etag (dav : Text) (gap : ℕ → Text) (r : Resource) : Text :=
  up_to_display_name dav gap r
    ++ element dav "displayname".toList (escape_xml r.display_name) ++ gap 4

def up_to_calendar_data (dav : Text) (gap : ℕ → Text) (r : Resource) : Text :=
  up_to_etag dav gap r ++ element dav "getetag".toList (escape_xml r.etag) ++ gap 5

theorem unclosed_content (hdav : Prefix dav) (hcaldav : Prefix caldav) (hgap : ∀ k, Gap (gap k))
    (r : Resource) : Nowhere (closes "response".toList) (response_front dav gap r
      ++ element caldav "calendar-data".toList (escape_xml r.calendar_data)
      ++ response_back dav gap) := by
  have hname : Name "response".toList := by decide
  have hgap' : ∀ k, Nowhere (closes "response".toList) (gap k) :=
    fun _ => nowhere_plain (tags_closes _) (hgap _).plain
  have hstart : ∀ {name : Text}, Name name →
      Nowhere (closes "response".toList) (start_tag dav name) := fun h => unclosed_start_tag hdav h
  have hend : ∀ {name : Text}, Name name → ¬"response".toList <:+ name →
      Nowhere (closes "response".toList) (end_tag dav name) :=
    fun h hother => unclosed_end_tag hdav h hname hother
  have helement : ∀ {name content : Text}, Name name → ¬"response".toList <:+ name →
      '<' ∉ content → Nowhere (closes "response".toList) (element dav name content) :=
    fun h hother hcontent => unclosed_element hdav h hname hother hcontent
  have hfront : Nowhere (closes "response".toList) (response_front dav gap r) := by
    unfold response_front
    refine nowhere_append (nowhere_append (nowhere_append (nowhere_append (nowhere_append
      (nowhere_append (nowhere_append (nowhere_append (nowhere_append (nowhere_append (hgap' _) ?_)
      (hgap' _)) ?_) (hgap' _)) ?_) (hgap' _)) ?_) (hgap' _)) ?_) (hgap' _)
    · exact helement (by decide) (by decide) (escape_xml_plain _)
    · exact hstart (by decide)
    · exact hstart (by decide)
    · exact helement (by decide) (by decide) (escape_xml_plain _)
    · exact helement (by decide) (by decide) (escape_xml_plain _)
  have hback : Nowhere (closes "response".toList) (response_back dav gap) := by
    unfold response_back
    refine nowhere_append (nowhere_append (nowhere_append (nowhere_append (nowhere_append
      (nowhere_append (hgap' _) ?_) (hgap' _)) ?_) (hgap' _)) ?_) (hgap' _)
    · exact hend (by decide) (by decide)
    · exact helement (by decide) (by decide) (by decide)
    · exact hend (by decide) (by decide)
  refine nowhere_append (nowhere_append hfront ?_) hback
  exact unclosed_element hcaldav (by decide) hname (by decide) (escape_xml_plain _)

theorem quiet_up_to (hdav : Prefix dav) (hgap : ∀ k, Gap (gap k)) {wanted : Text}
    (hwanted : Name wanted)
    (hsilent : ¬wanted <:+: lower dav) (r : Resource)
    (hothers : ∀ name ∈ ["response".toList, "propstat".toList, "prop".toList],
      ¬wanted <:+: name) :
    Nowhere (opens wanted) (start_tag dav "response".toList ++ gap 0)
      ∧ (¬wanted <:+: "href".toList → Nowhere (opens wanted) (up_to_display_name dav gap r))
      ∧ (¬wanted <:+: "href".toList → ¬wanted <:+: "displayname".toList →
        Nowhere (opens wanted) (up_to_etag dav gap r))
      ∧ (¬wanted <:+: "href".toList → ¬wanted <:+: "displayname".toList →
        ¬wanted <:+: "getetag".toList →
        Nowhere (opens wanted) (up_to_calendar_data dav gap r)) := by
  have hgap' : ∀ k, Nowhere (opens wanted) (gap k) :=
    fun _ => nowhere_plain (tags_opens wanted) (hgap _).plain
  have hstart : ∀ name : Text, Name name → ¬wanted <:+: name →
      Nowhere (opens wanted) (start_tag dav name) :=
    fun name h hother => quiet_start_tag hdav h hwanted hsilent hother
  have helement : ∀ name content : Text, Name name → ¬wanted <:+: name →
      Nowhere (opens wanted) (element dav name (escape_xml content)) :=
    fun name content h hother =>
      quiet_element hdav h hwanted hsilent hother (escape_xml_plain content)
  have hopening : Nowhere (opens wanted) (start_tag dav "response".toList ++ gap 0) :=
    nowhere_append (hstart _ (by decide) (hothers _ (.head _))) (hgap' _)
  have hdisplay : ¬wanted <:+: "href".toList →
      Nowhere (opens wanted) (up_to_display_name dav gap r) := by
    intro hhref
    unfold up_to_display_name
    refine nowhere_append (nowhere_append (nowhere_append (nowhere_append (nowhere_append
      (nowhere_append hopening ?_) (hgap' _)) ?_) (hgap' _)) ?_) (hgap' _)
    · exact helement _ _ (by decide) hhref
    · exact hstart _ (by decide) (hothers _ (.tail _ (.head _)))
    · exact hstart _ (by decide) (hothers _ (.tail _ (.tail _ (.head _))))
  have hetag : ¬wanted <:+: "href".toList → ¬wanted <:+: "displayname".toList →
      Nowhere (opens wanted) (up_to_etag dav gap r) := by
    intro hhref hname
    exact nowhere_append (nowhere_append (hdisplay hhref) (helement _ _ (by decide) hname))
      (hgap' _)
  refine ⟨hopening, hdisplay, hetag, fun hhref hname htag => ?_⟩
  exact nowhere_append (nowhere_append (hetag hhref hname) (helement _ _ (by decide) htag))
    (hgap' _)

theorem append_around (lead before inner rest : Text) :
    lead ++ (before ++ inner ++ rest) = lead ++ before ++ inner ++ rest := by
  simp only [List.append_assoc]

/-- What is read of one response, behind a text that opens none of the fields. -/
theorem parse_response_spec (hdav : Prefix dav) (hcaldav : Prefix caldav) (hgap : ∀ k, Gap (gap k))
    (hsilent : Silent dav) {lead : Text}
    (hlead : ∀ wanted ∈ wanted_names, Nowhere (opens wanted) lead) (r : Resource) :
    (parse_response (lead ++ response dav caldav gap r)).href = escape_xml (trim r.href)
      ∧ (parse_response (lead ++ response dav caldav gap r)).display_name
        = some (escape_xml (trim r.display_name))
      ∧ (parse_response (lead ++ response dav caldav gap r)).etag
        = (if trim r.etag = [] then none else some (trim r.etag))
      ∧ (parse_response (lead ++ response dav caldav gap r)).calendar_data
        = some (escape_xml (trim r.calendar_data)) := by
  have hup : ∀ wanted ∈ wanted_names, Name wanted ∧ ¬wanted <:+: lower dav
      ∧ ∀ name ∈ ["response".toList, "propstat".toList, "prop".toList], ¬wanted <:+: name := by
    intro wanted hwanted
    obtain ⟨hname, -, -, -, -, hothers⟩ := wanted_spec wanted hwanted
    exact ⟨hname, hsilent wanted hwanted, hothers⟩
  have hhref_mem : "href".toList ∈ wanted_names := .head _
  have hdisplay_mem : "displayname".toList ∈ wanted_names := .tail _ (.head _)
  have hetag_mem : "getetag".toList ∈ wanted_names := .tail _ (.tail _ (.head _))
  have hdata_mem : "calendar-data".toList ∈ wanted_names :=
    .tail _ (.tail _ (.tail _ (.head _)))
  obtain ⟨hdisplay_href, hetag_href, hetag_display, hdata_href, hdata_display, hdata_etag⟩ :=
    wanted_apart
  have hclosed : ∀ name text : Text, Nowhere (closes name) (escape_xml text) :=
    fun name text => nowhere_plain (tags_closes name) (escape_xml_plain text)
  have hdata : response dav caldav gap r
      = up_to_calendar_data dav gap r
        ++ element caldav "calendar-data".toList (escape_xml r.calendar_data)
        ++ (response_back dav gap ++ end_tag dav "response".toList) := by
    unfold response response_front up_to_calendar_data up_to_etag up_to_display_name element
    simp only [List.append_assoc]
  have htag : response dav caldav gap r
      = up_to_etag dav gap r ++ element dav "getetag".toList (escape_xml r.etag)
        ++ (gap 5 ++ element caldav "calendar-data".toList (escape_xml r.calendar_data)
          ++ response_back dav gap ++ end_tag dav "response".toList) := by
    rw [hdata, up_to_calendar_data]
    simp only [List.append_assoc]
  have hdisplay : response dav caldav gap r
      = up_to_display_name dav gap r
        ++ element dav "displayname".toList (escape_xml r.display_name)
        ++ (gap 4 ++ element dav "getetag".toList (escape_xml r.etag) ++ gap 5
          ++ element caldav "calendar-data".toList (escape_xml r.calendar_data)
          ++ response_back dav gap ++ end_tag dav "response".toList) := by
    rw [htag, up_to_etag]
    simp only [List.append_assoc]
  have hfirst : response dav caldav gap r
      = start_tag dav "response".toList ++ gap 0 ++ element dav "href".toList (escape_xml r.href)
        ++ (gap 1 ++ start_tag dav "propstat".toList ++ gap 2 ++ start_tag dav "prop".toList
          ++ gap 3 ++ element dav "displayname".toList (escape_xml r.display_name)
          ++ gap 4 ++ element dav "getetag".toList (escape_xml r.etag) ++ gap 5
          ++ element caldav "calendar-data".toList (escape_xml r.calendar_data)
          ++ response_back dav gap ++ end_tag dav "response".toList) := by
    rw [hdisplay, up_to_display_name]
    simp only [List.append_assoc]
  -- each name is first found at its own element
  have hhref : extract_tag "href".toList (lead ++ response dav caldav gap r)
      = some (trim (escape_xml r.href)) := by
    obtain ⟨hname, hns, hothers⟩ := hup _ hhref_mem
    rw [hfirst, append_around]
    exact extract_element hdav hname (nowhere_append (hlead _ hhref_mem)
      (quiet_up_to hdav hgap hname hns r hothers).1) (hclosed _ _) _
  have hdisplay_name : extract_tag "displayname".toList (lead ++ response dav caldav gap r)
      = some (trim (escape_xml r.display_name)) := by
    obtain ⟨hname, hns, hothers⟩ := hup _ hdisplay_mem
    rw [hdisplay, append_around]
    exact extract_element hdav hname (nowhere_append (hlead _ hdisplay_mem)
      ((quiet_up_to hdav hgap hname hns r hothers).2.1 hdisplay_href)) (hclosed _ _) _
  have hetag : extract_tag "getetag".toList (lead ++ response dav caldav gap r)
      = some (trim (escape_xml r.etag)) := by
    obtain ⟨hname, hns, hothers⟩ := hup _ hetag_mem
    rw [htag, append_around]
    exact extract_element hdav hname (nowhere_append (hlead _ hetag_mem)
      ((quiet_up_to hdav hgap hname hns r hothers).2.2.1 hetag_href hetag_display))
      (hclosed _ _) _
  have hcalendar : extract_tag "calendar-data".toList (lead ++ response dav caldav gap r)
      = some (trim (escape_xml r.calendar_data)) := by
    obtain ⟨hname, hns, hothers⟩ := hup _ hdata_mem
    rw [hdata, append_around]
    exact extract_element hcaldav hname (nowhere_append (hlead _ hdata_mem)
      ((quiet_up_to hdav hgap hname hns r hothers).2.2.2 hdata_href hdata_display hdata_etag))
      (hclosed _ _) _
  rw [trim_escape] at hhref hdisplay_name hetag hcalendar
  refine ⟨?_, hdisplay_name, ?_, hcalendar⟩
  · change (extract_tag "href".toList _).getD [] = _
    rw [hhref, Option.getD_some]
  · change ((extract_tag "getetag".toList _).filter (fun etag => !etag.isEmpty)).map decode_xml_text
      = _
    rw [hetag]
    by_cases hnil : trim r.etag = []
    · rw [hnil, if_pos rfl]
      rfl
    · have hne : escape_xml (trim r.etag) ≠ [] := by
        intro heq
        rw [← decode_escape (trim r.etag), heq] at hnil
        exact hnil rfl
      have hfull : (!(escape_xml (trim r.etag)).isEmpty) = true := by
        rw [Bool.not_eq_true', List.isEmpty_eq_false_iff]
        exact hne
      rw [if_neg hnil, Option.filter_some, if_pos hfull, Option.map_some, decode_escape]

/-! ## Documents are read back -/

/-- A text in which nothing was to be escaped. -/
def Unescaped (text : Text) : Prop :=
  ∀ c ∈ text, c ≠ '&' ∧ c ≠ '<' ∧ c ≠ '>' ∧ c ≠ '"' ∧ c ≠ '\''

instance (text : Text) : Decidable (Unescaped text) :=
  inferInstanceAs (Decidable (∀ c ∈ text, _))

theorem trim_subset (text : Text) : trim text ⊆ text := by
  intro c hc
  have hinner := (List.dropWhile_sublist _).subset (List.mem_reverse.mp hc)
  exact (List.dropWhile_sublist _).subset (List.mem_reverse.mp hinner)

theorem escape_unescaped {text : Text} (h : Unescaped text) :
    escape_xml (trim text) = trim text := by
  have hall : ∀ c ∈ trim text, escape_xml_char c = [c] := by
    intro c hc
    obtain ⟨h1, h2, h3, h4, h5⟩ := h c (trim_subset text hc)
    rw [escape_xml_char, if_neg h1, if_neg h2, if_neg h3, if_neg h4, if_neg h5]
  rw [escape_xml, List.flatMap_congr hall, List.flatMap_singleton']

/-- What is read of a text: the text without the white space around it, as it stands in the
document, which is itself where nothing was to be escaped. -/
def Undecoded (text read : Text) : Prop :=
  decode_xml_text read = trim text ∧ (Unescaped text → read = trim text)

theorem undecoded_escape (text : Text) : Undecoded text (escape_xml (trim text)) :=
  ⟨decode_escape _, escape_unescaped⟩

/-- What is read is the resource, without the white space around its texts. -/
structure Recovered (r : Resource) (read : ParsedDavResponse) : Prop where
  href : Undecoded r.href read.href
  display_name : ∃ name, read.display_name = some name ∧ Undecoded r.display_name name
  etag : read.etag = if trim r.etag = [] then none else some (trim r.etag)
  calendar_data : ∃ data, read.calendar_data = some data ∧ Undecoded r.calendar_data data

theorem parse_response_recovered (hdav : Prefix dav) (hcaldav : Prefix caldav)
    (hgap : ∀ k, Gap (gap k)) (hsilent : Silent dav) {lead : Text}
    (hlead : ∀ wanted ∈ wanted_names, Nowhere (opens wanted) lead) (r : Resource) :
    Recovered r (parse_response (lead ++ response dav caldav gap r)) := by
  obtain ⟨hhref, hname, hetag, hdata⟩ := parse_response_spec hdav hcaldav hgap hsilent hlead r
  refine ⟨?_, ⟨_, hname, undecoded_escape _⟩, hetag, _, hdata, undecoded_escape _⟩
  rw [hhref]
  exact undecoded_escape _

theorem parse_responses (hdav : Prefix dav) (hcaldav : Prefix caldav) (hsilent : Silent dav)
    (resources : List (Resource × (ℕ → Text))) (hgap : ∀ r ∈ resources, ∀ k, Gap (r.2 k))
    {before : Text} (hunclosed : Nowhere (closes "response".toList) before)
    (htagged : Tagged before) (hquiet : ∀ wanted ∈ wanted_names, Nowhere (opens wanted) before) :
    List.Forall₂ (fun r read => Recovered r.1 read) resources ((split_from 0
      (before ++ resources.flatMap (fun r => response dav caldav r.2 r.1 ++ r.2 10)
        ++ end_tag dav "multistatus".toList)).map parse_response) := by
  induction resources generalizing before with
  | nil =>
    have hend : Nowhere (closes "response".toList) (end_tag dav "multistatus".toList) :=
      unclosed_end_tag hdav (by decide) (by decide) (by decide)
    rw [List.flatMap_nil, List.append_nil, split_unclosed (nowhere_append hunclosed hend)]
    exact List.Forall₂.nil
  | cons r resources ih =>
    have hown := hgap r List.mem_cons_self
    obtain ⟨lead, hlead, hsplit⟩ := split_response hdav hunclosed htagged
      (unclosed_content hdav hcaldav hown r.1)
      (r.2 10 ++ resources.flatMap (fun r => response dav caldav r.2 r.1 ++ r.2 10)
        ++ end_tag dav "multistatus".toList)
    have hshape : before ++ (r :: resources).flatMap
          (fun r => response dav caldav r.2 r.1 ++ r.2 10) ++ end_tag dav "multistatus".toList
        = before ++ response dav caldav r.2 r.1
          ++ (r.2 10 ++ resources.flatMap (fun r => response dav caldav r.2 r.1 ++ r.2 10)
            ++ end_tag dav "multistatus".toList) := by
      rw [List.flatMap_cons]
      simp only [List.append_assoc]
    rw [hshape]
    unfold response at hsplit ⊢
    rw [hsplit, List.map_cons]
    refine List.Forall₂.cons ?_ ?_
    · exact parse_response_recovered hdav hcaldav hown hsilent
        (fun wanted hwanted => nowhere_suffix (hquiet wanted hwanted) hlead) r.1
    · -- behind a response there is the white space in front of the next one
      have hplain := (hown 10).plain
      exact ih (fun r' hr' => hgap r' (List.mem_cons_of_mem r hr'))
        (nowhere_plain (tags_closes _) hplain) (tagged_plain hplain)
        fun wanted _ => nowhere_plain (tags_opens wanted) hplain

/-- **A document gives one response for each resource, in order, with its own texts**, whatever
white space stands between its elements. -/
theorem multistatus_recovered (hdav : Prefix dav) (hcaldav : Prefix caldav)
    (hgap : ∀ k, Gap (gap k)) (hsilent : Silent dav) (resources : List (Resource × (ℕ → Text)))
    (hgaps : ∀ r ∈ resources, ∀ k, Gap (r.2 k)) :
    List.Forall₂ (fun r read => Recovered r.1 read) resources
      (parse_multi_status (document dav caldav gap resources)) :=
  parse_responses hdav hcaldav hsilent resources hgaps (unclosed_front hdav hcaldav hgap _)
    (tagged_front hgap) fun _ hwanted => quiet_front hdav hcaldav hgap hsilent hwanted

end Response

namespace Sample

def dav : Text := "D".toList

def caldav : Text := "C".toList

def first : Resource :=
  { href := "/home/one.ics".toList, display_name := "One".toList, etag := "\"<1> & 2\"".toList,
    calendar_data := "BEGIN:VCALENDAR\nEND:VCALENDAR".toList }

/-- A text that has to be escaped, and white space at the end of a text. -/
def second : Resource :=
  { href := "/home/two.ics".toList, display_name := "Q & A".toList, etag := "W/\"2\"".toList,
    calendar_data := "END:VCALENDAR\n".toList }

/-- A line for each element, indented more and more. -/
def indent (k : ℕ) : Text := '\n' :: List.replicate k ' '

theorem indent_gap (k : ℕ) : Gap (indent k) := by
  intro c hc
  rcases List.mem_cons.mp hc with rfl | hc
  · decide
  · rw [List.eq_of_mem_replicate hc]
    decide

/-- Two resources, the second on one line. -/
def listed : List (Resource × (ℕ → Text)) := [(first, indent), (second, fun _ => [])]

/-- Both are read back, whatever their layout. -/
theorem two_recovered : List.Forall₂ (fun r read => Recovered r.1 read) listed
    (parse_multi_status (document dav caldav indent listed)) := by
  refine multistatus_recovered (by unfold Prefix; decide) (by unfold Prefix; decide) indent_gap
    (by unfold Silent; decide) listed fun r hr k => ?_
  rcases List.mem_pair.mp hr with rfl | rfl
  · exact indent_gap k
  · exact fun c hc => absurd hc List.not_mem_nil

/-- The line break at the end of the calendar data is not read. -/
theorem spaced_read :
    (parse_multi_status (document dav caldav indent [(second, indent)])).map (·.calendar_data)
      ≠ [some second.calendar_data] := by
  decide +kernel

end Sample

end Appcall.Caldav
