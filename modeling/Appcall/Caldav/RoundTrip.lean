/-
An event that is written and read again.

The lines of an event are one for each property, whatever the texts in them. A field is read
from the line of its name; the dates are as they were written, and a text is, unless it has
a backslash in front of an n.

`Written` says what the writer puts down for an input it accepts. The reader finds the block of
the event between its bounds (`Written.vevent_block`) and each field in the first line with its
name (`direct_property_value_lines`); `Written.parse` collects what it reads.
-/
import Appcall.Caldav.Calendar
import Appcall.Lib.Query
import Mathlib.Data.List.TakeWhile

set_option autoImplicit false

namespace Appcall.Caldav

open Replace (replace replace_absent replace_append replace_singleton)

/-! ## Lines -/

theorem intercalate_terminated (sep : Text) {lines : List Text} (h : lines ≠ []) :
    List.intercalate sep lines ++ sep = lines.flatMap (· ++ sep) := by
  induction lines with
  | nil => exact absurd rfl h
  | cons line lines ih =>
    cases lines with
    | nil => simp [List.intercalate]
    | cons next lines =>
      rw [List.flatMap_cons, ← ih (List.cons_ne_nil _ _)]
      simp [List.intercalate]

theorem split_lines_join {lines : List Text} (hreturn : ∀ line ∈ lines, '\r' ∉ line)
    (hbreak : ∀ line ∈ lines, '\n' ∉ line) :
    split_lines (lines.flatMap (· ++ ['\r', '\n'])) = lines ++ [[]] := by
  have hfeeds : replace ['\r', '\n'] ['\n'] (lines.flatMap (· ++ ['\r', '\n']))
      = lines.flatMap (· ++ ['\n']) := by
    induction lines with
    | nil => rfl
    | cons line lines ih =>
      rw [List.forall_mem_cons] at hreturn hbreak
      rw [List.flatMap_cons, List.flatMap_cons, ← ih hreturn.2 hbreak.2, List.append_assoc,
        replace_absent hreturn.1, replace_append (List.cons_ne_nil _ _), List.append_assoc]
  have hnone : '\r' ∉ lines.flatMap (· ++ ['\n']) := by
    intro hmem
    obtain ⟨line, hline, hmem⟩ := List.mem_flatMap.mp hmem
    rcases List.mem_append.mp hmem with hmem | hmem
    · exact hreturn line hline hmem
    · exact absurd (List.mem_singleton.mp hmem) (by decide)
  have hkept : replace ['\r'] ['\n'] (lines.flatMap (· ++ ['\n']))
      = lines.flatMap (· ++ ['\n']) := by
    have h := @replace_absent _ _ '\r' [] _ hnone ['\n'] []
    rw [List.append_nil] at h
    exact h.trans (List.append_nil _)
  rw [split_lines, hfeeds, hkept]
  clear hfeeds hnone hkept hreturn
  induction lines with
  | nil => exact List.splitOn_nil _
  | cons line lines ih =>
    rw [List.forall_mem_cons] at hbreak
    rw [List.flatMap_cons, List.append_assoc, List.singleton_append,
      List.splitOn_append_cons_self_of_not_mem hbreak.1, ih hbreak.2]
    rfl

/-! ## Upper case -/

section Reading

variable {r : Runtime}

theorem upper_case_ascii {text : Text} (h : text.all (fun c => c.toNat < 128) = true) :
    upper_case r text = text.map Char.toUpper := by
  rw [upper_case]
  induction text with
  | nil => rfl
  | cons c text ih =>
    rw [List.all_cons, Bool.and_eq_true, decide_eq_true_eq] at h
    rw [List.flatMap_cons, r.to_upper_ascii c h.1, ih h.2]
    rfl

/-- Upper-case letters: the characters of a name. -/
def is_upper (c : Char) : Bool := 65 ≤ c.toNat && c.toNat ≤ 90

theorem upper_case_head {c : Char} (h : is_upper c = true) (text : Text) :
    upper_case r (c :: text) = c :: upper_case r text := by
  rw [is_upper, Bool.and_eq_true, decide_eq_true_eq, decide_eq_true_eq] at h
  have hupper : c.toUpper = c := by
    unfold Char.toUpper
    rw [dif_neg]
    intro hlower
    have hletter : ('a').toNat ≤ c.toNat := UInt32.le_iff_toNat_le.mp hlower.1
    have hvalue : ('a').toNat = 97 := rfl
    omega
  rw [upper_case, List.flatMap_cons, r.to_upper_ascii c (by omega), hupper]
  rfl

/-! ## Properties -/

theorem is_upper_ne {c d : Char} (h : is_upper c = true) (hd : is_upper d = false) : c ≠ d := by
  rintro rfl
  rw [h] at hd
  cases hd

variable {name : String}

theorem find_value_delimiter_line (hname : ∀ c ∈ name.toList, is_upper c = true) (value : Text) :
    find_value_delimiter false (content_line name value) = .ok (some (name.toList, value)) := by
  rw [content_line]
  generalize name.toList = text at hname
  induction text with
  | nil =>
    rw [List.nil_append, find_value_delimiter, if_neg (by decide), if_pos ⟨rfl, rfl⟩]
  | cons c text ih =>
    rw [List.forall_mem_cons] at hname
    have hquote := is_upper_ne (d := '"') hname.1 (by decide)
    have hcolon := is_upper_ne (d := ':') hname.1 (by decide)
    rw [List.cons_append, find_value_delimiter, if_neg hquote, if_neg (fun h => hcolon h.1),
      ih hname.2]
    rfl

theorem upper_case_name (hname : ∀ c ∈ name.toList, is_upper c = true) (text : Text) :
    upper_case r (name.toList ++ text) = name.toList ++ upper_case r text := by
  generalize name.toList = front at hname
  induction front with
  | nil => rfl
  | cons c front ih =>
    rw [List.forall_mem_cons] at hname
    rw [List.cons_append, upper_case_head hname.1, ih hname.2]
    rfl

/-- A property of an event: its name and its value. -/
abbrev Property := String × Text

def Property.line (p : Property) : Text := content_line p.1 p.2

/-- The name of a property that delimits no component. -/
structure Field (name : String) : Prop where
  letters : name.toList.all is_upper = true
  ne_nil : name.toList ≠ []
  not_begin : name.toList ≠ "BEGIN".toList
  not_end : name.toList ≠ "END".toList

theorem Field.upper (h : Field name) : ∀ c ∈ name.toList, is_upper c = true :=
  List.all_eq_true.mp h.letters

theorem word_of_start {word name text : Text} (hword : ':' ∉ word) (hname : ':' ∉ name)
    (h : word ++ [':'] <+: name ++ ':' :: text) : word = name := by
  obtain ⟨rest, h⟩ := h
  have htake : ∀ {front : Text} (tail : Text), ':' ∉ front →
      (front ++ ':' :: tail).takeWhile (· ≠ ':') = front := by
    intro front tail hfront
    rw [List.takeWhile_append_of_pos]
    · simp
    · intro c hc
      rw [decide_eq_true_eq]
      rintro rfl
      exact hfront hc
  rw [← htake text hname, ← h, List.append_assoc]
  exact (htake rest hword).symm

variable {p : Property}

theorem Field.not_delimiter (h : Field p.1) (word : Text) (hword : ':' ∉ word)
    (hne : p.1.toList ≠ word) : ¬word ++ [':'] <+: upper_case r p.line := by
  have hname : ':' ∉ p.1.toList := fun hmem =>
    is_upper_ne (d := ':') (h.upper ':' hmem) (by decide) rfl
  have hcolon : ∀ text : Text, upper_case r (':' :: text) = ':' :: upper_case r text := by
    intro text
    rw [upper_case, List.flatMap_cons, r.to_upper_ascii ':' (by decide)]
    rfl
  rw [Property.line, content_line, upper_case_name h.upper, hcolon]
  exact fun hprefix => hne (word_of_start hword hname hprefix).symm

theorem Field.not_folded (h : Field p.1) : is_folded p.line = false := by
  rw [Property.line, content_line]
  cases hname : p.1.toList with
  | nil => exact absurd hname h.ne_nil
  | cons c text =>
    have hupper := h.upper c (hname ▸ List.mem_cons_self)
    rw [List.cons_append, is_folded, Bool.or_eq_false_iff, decide_eq_false_iff_not,
      decide_eq_false_iff_not]
    exact ⟨is_upper_ne hupper (by decide), is_upper_ne hupper (by decide)⟩

theorem Field.upper_name (h : Field p.1) :
    upper_case r (p.1.toList.takeWhile (· ≠ ';')) = p.1.toList := by
  have hwhole : p.1.toList.takeWhile (· ≠ ';') = p.1.toList := by
    rw [List.takeWhile_eq_self_iff]
    intro c hc
    rw [decide_eq_true_eq]
    exact is_upper_ne (h.upper c hc) (by decide)
  have hupper := upper_case_name (r := r) h.upper []
  rw [List.append_nil] at hupper
  rw [hwhole, hupper]
  exact List.append_nil _

variable {block : List Property}

/-- **The properties of a name are the lines with the name.** -/
theorem direct_property_lines (h : ∀ p ∈ block, Field p.1) (name : Text) :
    direct_property r name 0 0 (block.map Property.line)
      = .ok ((block.filter (fun p => p.1.toList = name)).map (fun p => [p.line])) := by
  induction block with
  | nil => rfl
  | cons p block ih =>
    rw [List.forall_mem_cons] at h
    have hfolded : (block.map Property.line).takeWhile is_folded = [] := by
      cases block with
      | nil => rfl
      | cons q block =>
        rw [List.map_cons, List.takeWhile_cons, (h.2 q List.mem_cons_self).not_folded]
        rfl
    have hunfold : unfold_property_lines [p.line] = content_line p.1 p.2 := List.append_nil _
    have hbegin : ¬"BEGIN:".toList <+: upper_case r p.line :=
      h.1.not_delimiter "BEGIN".toList (by decide) h.1.not_begin
    have hend : ¬"END:".toList <+: upper_case r p.line :=
      h.1.not_delimiter "END".toList (by decide) h.1.not_end
    rw [List.map_cons, direct_property.eq_def]
    dsimp only
    rw [if_neg hbegin, if_neg hend, if_neg (by rw [h.1.not_folded]; simp), hfolded, hunfold,
      find_value_delimiter_line h.1.upper]
    dsimp only [bind, Except.bind]
    rw [h.1.upper_name, List.length_nil, ih h.2, List.filter_cons]
    by_cases hname : p.1.toList = name
    · rw [if_neg (not_not_intro hname), if_pos (decide_eq_true hname)]
      rfl
    · rw [if_pos hname, if_neg (by simpa using hname)]

/-- **A field is read from the first line of its name.** -/
theorem direct_property_value_lines (h : ∀ p ∈ block, Field p.1) (name : Text) :
    direct_property_value r (block.map Property.line) name
      = .ok ((block.find? (fun p => p.1.toList = name)).map (fun p => unfold_ical_line p.2)) := by
  rw [direct_property_value, direct_property_lines h]
  dsimp only [bind, Except.bind]
  rw [List.head?_map, ← List.head?_filter]
  cases hfirst : (block.filter (fun p => p.1.toList = name)).head? with
  | none => rfl
  | some p =>
    have hmem := List.mem_of_mem_filter (List.mem_of_head? hfirst)
    have hunfold : unfold_property_lines [p.line] = content_line p.1 p.2 := List.append_nil _
    rw [Option.map_some]
    dsimp only
    rw [hunfold, find_value_delimiter_line (h p hmem).upper]
    rfl

end Reading

/-! ## What is written -/

def date_char (c : Char) : Prop := c.isDigit = true ∨ c = 'T' ∨ c = 'Z'

theorem date_char_plain {c : Char} (h : date_char c) : c ≠ '\r' ∧ c ≠ '\n' ∧ c ≠ '\\' := by
  rcases h with h | rfl | rfl
  · refine ⟨?_, ?_, ?_⟩ <;>
    · rintro rfl
      revert h
      decide
  · decide
  · decide

theorem pad_start_date (width n : ℕ) {c : Char} (h : c ∈ pad_start width (Decimal.write n)) :
    date_char c := by
  rcases List.mem_append.mp h with hzero | hdigit
  · rw [List.eq_of_mem_replicate hzero]
    exact .inl (by decide)
  · exact .inl (Decimal.mem_write hdigit).1

variable {text : Text}

theorem format_instant_date {utc : Utc} (h : format_instant utc = .ok text) :
    ∀ c ∈ text, date_char c := by
  rw [format_instant] at h
  split at h
  · cases h
  · cases h
    intro c hc
    simp only [List.mem_append, List.mem_cons, List.not_mem_nil, or_false] at hc
    rcases hc with (((((hyear | hmonth) | hday) | rfl | hhour) | hminute) | hsecond) | rfl
    · exact pad_start_date _ _ hyear
    · exact pad_start_date _ _ hmonth
    · exact pad_start_date _ _ hday
    · exact .inr (.inl rfl)
    · exact pad_start_date _ _ hhour
    · exact pad_start_date _ _ hminute
    · exact pad_start_date _ _ hsecond
    · exact .inr (.inr rfl)

theorem to_caldav_date {r : Runtime} {iso : Text} {timezone : Option Text}
    (h : to_caldav_date_time r iso timezone = .ok text) : ∀ c ∈ text, date_char c := by
  rw [to_caldav_date_time] at h
  split at h
  · cases h
  split at h
  · cases h
  split at h
  · cases h
  obtain ⟨-, -, h⟩ := bind_eq_ok h
  split at h
  · exact format_instant_date h
  · cases h

/-- The line of a text that is given and not empty. -/
def given (name : String) : Option Text → List Property
  | none | some [] => []
  | some text => [(name, text.flatMap escape)]

/-- The properties of an event, with its dates and the addresses of its attendees. -/
def VEventInput.block (input : VEventInput) (now dtstart dtend : Text) (addresses : List Text) :
    List Property :=
  [("UID", input.uid.flatMap escape), ("DTSTAMP", now), ("DTSTART", dtstart), ("DTEND", dtend),
      ("SUMMARY", input.summary.flatMap escape)]
    ++ given "DESCRIPTION" input.description ++ given "LOCATION" input.location
    ++ addresses.map (fun address => ("ATTENDEE", "mailto:".toList ++ address))

def preamble : List Property :=
  [("BEGIN", "VCALENDAR".toList), ("VERSION", "2.0".toList),
    ("PRODID", "-//CalDAV Connector//EN".toList), ("CALSCALE", "GREGORIAN".toList)]

def opening : List Property := preamble ++ [("BEGIN", "VEVENT".toList)]

def closing : List Property := [("END", "VEVENT".toList), ("END", "VCALENDAR".toList)]

/-- What is written for an event that is accepted. -/
structure Written (r : Runtime) (input : VEventInput) (lines : List Text) (stamp first last : Text)
    (mailed : List Text) : Prop where
  now : to_caldav_date_time r r.now none = .ok stamp
  dtstart : to_caldav_date_time r input.start input.timezone = .ok first
  dtend : to_caldav_date_time r input.end_ input.timezone = .ok last
  lines : lines = (opening ++ input.block stamp first last mailed ++ closing).map Property.line
  uid : assert_safe_text input.uid = .ok ()
  summary : assert_safe_text input.summary = .ok ()
  description : ∀ text, input.description = some text → assert_safe_text text = .ok ()
  location : ∀ text, input.location = some text → assert_safe_text text = .ok ()
  length : mailed.length = (input.attendees.getD []).length
  addresses : ∀ address ∈ mailed, is_address address = true

theorem text_line_ok {name : String} {text : Option Text} {lines : List Text}
    (h : text_line name text = .ok lines) :
    lines = (given name text).map Property.line
      ∧ ∀ value, text = some value → assert_safe_text value = .ok () := by
  cases text with
  | none =>
    cases h
    exact ⟨rfl, fun _ h => nomatch h⟩
  | some value =>
    cases value with
    | nil =>
      cases h
      refine ⟨rfl, fun _ h => ?_⟩
      cases h
      rfl
    | cons c value =>
      obtain ⟨folded, hfolded, h⟩ := bind_eq_ok h
      obtain ⟨hsafe, rfl⟩ := fold_ok hfolded
      cases h
      refine ⟨rfl, fun _ h => ?_⟩
      cases h
      exact hsafe

theorem mapM_addresses {attendees lines : List Text}
    (h : attendees.mapM (fun attendee => do
      let address ← normalize_calendar_address attendee
      return content_line "ATTENDEE" ("mailto:".toList ++ address)) = Except.ok lines) :
    ∃ addresses : List Text, addresses.length = attendees.length
      ∧ (∀ address ∈ addresses, is_address address = true)
      ∧ lines = (addresses.map (fun address =>
        (("ATTENDEE", "mailto:".toList ++ address) : Property))).map Property.line := by
  induction attendees generalizing lines with
  | nil =>
    cases h
    exact ⟨[], rfl, (fun _ h => nomatch h), rfl⟩
  | cons attendee attendees ih =>
    rw [List.mapM_cons] at h
    obtain ⟨line, hline, h⟩ := bind_eq_ok h
    obtain ⟨rest, hrest, h⟩ := bind_eq_ok h
    cases h
    obtain ⟨address, haddress, hline⟩ := bind_eq_ok hline
    cases hline
    obtain ⟨addresses, hlength, hvalid, rfl⟩ := ih hrest
    rw [normalize_calendar_address] at haddress
    obtain ⟨-, -, haddress⟩ := bind_eq_ok haddress
    dsimp only at haddress
    split at haddress
    next hvalid' =>
      cases haddress
      refine ⟨strip_mailto attendee :: addresses, ?_, ?_, rfl⟩
      · rw [List.length_cons, List.length_cons, hlength]
      · exact List.forall_mem_cons.mpr ⟨hvalid', hvalid⟩
    next => cases haddress

theorem vevent_lines_ok {r : Runtime} {input : VEventInput} {lines : List Text}
    (h : vevent_lines r input = .ok lines) :
    ∃ now dtstart dtend addresses, Written r input lines now dtstart dtend addresses := by
  rw [vevent_lines] at h
  obtain ⟨-, -, h⟩ := bind_eq_ok h
  obtain ⟨now, hnow, h⟩ := bind_eq_ok h
  obtain ⟨dtstart, hstart, h⟩ := bind_eq_ok h
  obtain ⟨dtend, hend, h⟩ := bind_eq_ok h
  obtain ⟨uid, huid, h⟩ := bind_eq_ok h
  obtain ⟨summary, hsummary, h⟩ := bind_eq_ok h
  obtain ⟨description, hdescription, h⟩ := bind_eq_ok h
  obtain ⟨location, hlocation, h⟩ := bind_eq_ok h
  obtain ⟨attendees, hattendees, h⟩ := bind_eq_ok h
  cases h
  obtain ⟨huid', rfl⟩ := fold_ok huid
  obtain ⟨hsummary', rfl⟩ := fold_ok hsummary
  obtain ⟨rfl, hdescription'⟩ := text_line_ok hdescription
  obtain ⟨rfl, hlocation'⟩ := text_line_ok hlocation
  obtain ⟨addresses, hlength, hvalid, rfl⟩ := mapM_addresses hattendees
  refine ⟨now, dtstart, dtend, addresses, hnow, hstart, hend, ?_, huid', hsummary', hdescription',
    hlocation', hlength, hvalid⟩
  simp only [VEventInput.block, List.map_append]
  rfl

/-! ### No line breaks -/

def OneLine (text : Text) : Prop := '\r' ∉ text ∧ '\n' ∉ text

theorem OneLine.append {a b : Text} (ha : OneLine a) (hb : OneLine b) : OneLine (a ++ b) :=
  ⟨fun h => (List.mem_append.mp h).elim ha.1 hb.1, fun h => (List.mem_append.mp h).elim ha.2 hb.2⟩

theorem escape_one_line (h : assert_safe_text text = .ok ()) : OneLine (text.flatMap escape) := by
  have hwritten : ∀ c d : Char, d ∈ escape c → d ≠ '\n' ∧ (d = '\r' → c = '\r') := by
    intro c d hd
    rw [escape] at hd
    split_ifs at hd with _ _ _ hbreak
    all_goals simp only [List.mem_cons, List.not_mem_nil, or_false] at hd
    · rcases hd with rfl | rfl <;> exact ⟨by decide, fun h => absurd h (by decide)⟩
    · rcases hd with rfl | rfl <;> exact ⟨by decide, fun h => absurd h (by decide)⟩
    · rcases hd with rfl | rfl <;> exact ⟨by decide, fun h => absurd h (by decide)⟩
    · rcases hd with rfl | rfl <;> exact ⟨by decide, fun h => absurd h (by decide)⟩
    · subst hd
      exact ⟨hbreak, id⟩
  refine ⟨fun hmem => ?_, fun hmem => ?_⟩
  · obtain ⟨c, hc, hmem⟩ := List.mem_flatMap.mp hmem
    have hunsafe := safe_of_fold h c hc
    rw [(hwritten c _ hmem).2 rfl] at hunsafe
    revert hunsafe
    decide
  · obtain ⟨c, -, hmem⟩ := List.mem_flatMap.mp hmem
    exact (hwritten c _ hmem).1 rfl

theorem date_one_line (h : ∀ c ∈ text, date_char c) : OneLine text :=
  ⟨fun hmem => (date_char_plain (h _ hmem)).1 rfl, fun hmem => (date_char_plain (h _ hmem)).2.1 rfl⟩

theorem address_one_line {address : Text} (h : is_address address = true) : OneLine address := by
  rw [is_address] at h
  split at h
  next domain hdomain =>
    simp only [Bool.and_eq_true] at h
    have hchar : ∀ c ∈ address, address_char c = true ∨ c = '@' := by
      intro c hc
      rw [← List.takeWhile_append_dropWhile (p := address_char) (l := address), hdomain,
        List.mem_append, List.mem_cons] at hc
      rcases hc with hbefore | rfl | hbehind
      · exact .inl (List.mem_takeWhile_imp hbefore)
      · exact .inr rfl
      · exact .inl (List.all_eq_true.mp h.2 c hbehind)
    refine ⟨fun hmem => ?_, fun hmem => ?_⟩
    · exact absurd (hchar _ hmem) (by decide)
    · exact absurd (hchar _ hmem) (by decide)
  next => cases h

section Lines

variable {r : Runtime} {input : VEventInput} {lines : List Text} {stamp first last : Text}
  {mailed : List Text}

variable {text : Option Text} {block after : List Property}

theorem mem_given {name : String} {p : Property} (h : p ∈ given name text) :
    ∃ value, text = some value ∧ p = (name, value.flatMap escape) := by
  cases text with
  | none => cases h
  | some value =>
    cases value with
    | nil => cases h
    | cons c value => exact ⟨_, rfl, List.mem_singleton.mp h⟩

/-- The names of the properties of an event. -/
def field_names : List String :=
  ["UID", "DTSTAMP", "DTSTART", "DTEND", "SUMMARY", "DESCRIPTION", "LOCATION", "ATTENDEE"]

theorem field_of_mem {name : String} (h : name ∈ field_names) : Field name := by
  simp only [field_names, List.mem_cons, List.not_mem_nil, or_false] at h
  rcases h with rfl | rfl | rfl | rfl | rfl | rfl | rfl | rfl <;>
    exact ⟨by decide, by decide, by decide, by decide⟩

theorem Written.field (h : Written r input lines stamp first last mailed) :
    ∀ p ∈ input.block stamp first last mailed, Field p.1 ∧ OneLine p.2 := by
  intro p hp
  simp only [VEventInput.block, List.mem_append, List.mem_cons, List.not_mem_nil, or_false] at hp
  rcases hp with (((rfl | rfl | rfl | rfl | rfl) | hdescription) | hlocation) | hmailed
  · exact ⟨@field_of_mem "UID" (by decide), escape_one_line h.uid⟩
  · exact ⟨@field_of_mem "DTSTAMP" (by decide), date_one_line (to_caldav_date h.now)⟩
  · exact ⟨@field_of_mem "DTSTART" (by decide), date_one_line (to_caldav_date h.dtstart)⟩
  · exact ⟨@field_of_mem "DTEND" (by decide), date_one_line (to_caldav_date h.dtend)⟩
  · exact ⟨@field_of_mem "SUMMARY" (by decide), escape_one_line h.summary⟩
  · obtain ⟨value, hvalue, rfl⟩ := mem_given hdescription
    exact ⟨@field_of_mem "DESCRIPTION" (by decide),
      escape_one_line (h.description value hvalue)⟩
  · obtain ⟨value, hvalue, rfl⟩ := mem_given hlocation
    exact ⟨@field_of_mem "LOCATION" (by decide), escape_one_line (h.location value hvalue)⟩
  · obtain ⟨address, haddress, rfl⟩ := List.mem_map.mp hmailed
    refine ⟨@field_of_mem "ATTENDEE" (by decide), ?_⟩
    exact OneLine.append ⟨by decide, by decide⟩ (address_one_line (h.addresses address haddress))

theorem Field.one_line {p : Property} (h : Field p.1) (hvalue : OneLine p.2) : OneLine p.line := by
  have hname : OneLine p.1.toList :=
    ⟨fun hmem => is_upper_ne (d := '\r') (h.upper _ hmem) (by decide) rfl,
      fun hmem => is_upper_ne (d := '\n') (h.upper _ hmem) (by decide) rfl⟩
  rw [Property.line, content_line, ← List.singleton_append]
  exact hname.append (OneLine.append ⟨by decide, by decide⟩ hvalue)

theorem Written.one_line (h : Written r input lines stamp first last mailed) :
    ∀ line ∈ lines, OneLine line := by
  intro line hline
  rw [h.lines, List.mem_map] at hline
  obtain ⟨p, hp, rfl⟩ := hline
  rw [List.mem_append, List.mem_append] at hp
  rcases hp with (hopening | hblock) | hclosing
  · simp only [opening, preamble, List.mem_append, List.mem_cons, List.not_mem_nil, or_false]
      at hopening
    rcases hopening with (rfl | rfl | rfl | rfl) | rfl <;> exact ⟨by decide, by decide⟩
  · exact (h.field p hblock).1.one_line (h.field p hblock).2
  · simp only [closing, List.mem_cons, List.not_mem_nil, or_false] at hclosing
    rcases hclosing with rfl | rfl <;> exact ⟨by decide, by decide⟩

theorem Written.split (h : Written r input lines stamp first last mailed) :
    split_lines (List.intercalate ['\r', '\n'] lines ++ ['\r', '\n']) = lines ++ [[]] := by
  have hne : lines ≠ [] := by
    rw [h.lines]
    exact List.cons_ne_nil _ _
  rw [intercalate_terminated _ hne,
    split_lines_join (fun line hline => (h.one_line line hline).1)
      (fun line hline => (h.one_line line hline).2)]

/-! ### The block of the event -/

theorem upper_case_ne {line word : Text} (hascii : line.all (fun c => c.toNat < 128) = true)
    (h : line.map Char.toUpper ≠ word) : upper_case r line ≠ word := by
  rw [upper_case_ascii hascii]
  exact h

theorem findIdx_opening (rest : List Text) :
    (opening.map Property.line ++ rest).findIdx?
      (fun line => upper_case r line = "BEGIN:VEVENT".toList) = some 4 := by
  have hevent : upper_case r (content_line "BEGIN" "VEVENT".toList) = "BEGIN:VEVENT".toList := by
    rw [upper_case_ascii (by decide)]
    decide
  have hpreamble : (preamble.map Property.line).findIdx?
      (fun line => upper_case r line = "BEGIN:VEVENT".toList) = none := by
    rw [List.findIdx?_eq_none_iff]
    intro line hline
    obtain ⟨p, hp, rfl⟩ := List.mem_map.mp hline
    rw [decide_eq_false_iff_not]
    simp only [preamble, List.mem_cons, List.not_mem_nil, or_false] at hp
    rcases hp with rfl | rfl | rfl | rfl <;> exact upper_case_ne (by decide) (by decide)
  have hmark : ([content_line "BEGIN" "VEVENT".toList] ++ rest).findIdx?
      (fun line => upper_case r line = "BEGIN:VEVENT".toList) = some 0 := by
    rw [List.singleton_append, List.findIdx?_cons, if_pos (decide_eq_true hevent)]
  rw [opening, List.map_append, List.append_assoc, List.findIdx?_append, hpreamble]
  exact congrArg (Option.map (· + 4)) hmark

/-- **The block of the event is found between its delimiters.** -/
theorem Written.vevent_block (h : Written r input lines stamp first last mailed) :
    vevent_block r (lines ++ [[]])
      = some ((input.block stamp first last mailed).map Property.line) := by
  have hlines : lines ++ [[]] = opening.map Property.line
      ++ ((input.block stamp first last mailed).map Property.line
        ++ (closing.map Property.line ++ [[]])) := by
    rw [h.lines, List.map_append, List.map_append, List.append_assoc, List.append_assoc]
  have hend : upper_case r (Property.line ("END", "VEVENT".toList)) = "END:VEVENT".toList := by
    rw [upper_case_ascii (by decide)]
    decide
  have hinner : ((input.block stamp first last mailed).map Property.line).findIdx?
      (fun line => upper_case r line = "END:VEVENT".toList) = none := by
    rw [List.findIdx?_eq_none_iff]
    intro line hline
    obtain ⟨p, hp, rfl⟩ := List.mem_map.mp hline
    rw [decide_eq_false_iff_not]
    intro heq
    refine (h.field p hp).1.not_delimiter (r := r) "END".toList (by decide)
      (h.field p hp).1.not_end ?_
    rw [heq]
    exact ⟨"VEVENT".toList, by decide⟩
  have hclosing : (closing.map Property.line ++ [[]]).findIdx?
      (fun line => upper_case r line = "END:VEVENT".toList) = some 0 := by
    rw [closing, List.map_cons, List.cons_append, List.findIdx?_cons,
      if_pos (decide_eq_true hend)]
  rw [Caldav.vevent_block, hlines, findIdx_opening]
  dsimp only [bind, Option.bind]
  have hlength : 4 + 1 = (opening.map Property.line).length := rfl
  rw [hlength, List.drop_left, List.findIdx?_append, hinner, hclosing]
  dsimp only [Option.map_some, Option.or]
  rw [Nat.zero_add, List.take_left]

theorem unfold_date {text : Text} (h : ∀ c ∈ text, date_char c) : unfold_ical_line text = text := by
  have hnone : '\\' ∉ text := fun hmem => (date_char_plain (h _ hmem)).2.2 rfl
  have hkept : ∀ (b : Char) (marker : Text), replace ['\\', b] marker text = text := by
    intro b marker
    have happend := @replace_absent _ _ '\\' [b] _ hnone marker []
    rw [List.append_nil] at happend
    exact happend.trans (List.append_nil _)
  rw [unfold_ical_line, hkept, hkept, hkept, hkept]

def read_field (block : List Property) (name : String) : Option Text :=
  (block.find? (fun p => p.1.toList = name.toList)).map (fun p => unfold_ical_line p.2)

theorem read_property (before : List Property) (p : Property) {text : Text}
    (h : block = before ++ p :: after) (hbefore : ∀ q ∈ before, q.1 ≠ p.1)
    (htext : unfold_ical_line p.2 = text) : read_field block p.1 = some text := by
  have hnone : before.find? (fun q => q.1.toList = p.1.toList) = none := by
    rw [List.find?_eq_none]
    intro q hq
    rw [decide_eq_true_eq]
    exact fun heq => hbefore q hq (String.toList_inj.mp heq)
  rw [read_field, h, List.find?_append, hnone, List.find?_cons, decide_eq_true rfl]
  exact congrArg some htext

theorem read_given {before : List Property} (name : String) {value : Text} (h : text = some value)
    (hne : value ≠ []) (hblock : block = before ++ (given name text ++ after))
    (hbefore : ∀ q ∈ before, q.1 ≠ name) : read_field block name = some (misread value) := by
  subst h
  cases value with
  | nil => exact absurd rfl hne
  | cons c value => exact read_property before (name, _) hblock hbefore (unfold_escape _)

/-- What is read of an event that was written. -/
structure Read (input : VEventInput) (first last : Text) (parsed : ParsedVEvent) : Prop where
  uid : parsed.uid = some (misread input.uid)
  summary : parsed.summary = some (misread input.summary)
  start : parsed.start = some first
  end_ : parsed.end_ = some last
  description : ∀ text, input.description = some text → text ≠ [] →
    parsed.description = some (misread text)
  location : ∀ text, input.location = some text → text ≠ [] →
    parsed.location = some (misread text)

/-- **The fields are read from their lines.** -/
theorem Written.parse (h : Written r input lines stamp first last mailed) :
    ∃ parsed, parse_vevent r (List.intercalate ['\r', '\n'] lines ++ ['\r', '\n']) = .ok parsed
      ∧ Read input first last parsed := by
  have hvalue := fun field : String =>
    direct_property_value_lines (r := r) (fun p hp => (h.field p hp).1) field.toList
  have hhead : ∀ q ∈ ([("UID", input.uid.flatMap escape), ("DTSTAMP", stamp), ("DTSTART", first),
      ("DTEND", last), ("SUMMARY", input.summary.flatMap escape)] : List Property),
      q.1 ≠ "DESCRIPTION" ∧ q.1 ≠ "LOCATION" := by
    intro q hq
    simp only [List.mem_cons, List.not_mem_nil, or_false] at hq
    rcases hq with rfl | rfl | rfl | rfl | rfl <;> exact ⟨by simp, by simp⟩
  let read := read_field (input.block stamp first last mailed)
  refine ⟨⟨read "UID", read "SUMMARY", read "DTSTART", read "DTEND", read "LOCATION",
    read "DESCRIPTION"⟩, ?_, ?_, ?_, ?_, ?_, fun text htext hne => ?_, fun text htext hne => ?_⟩
  · rw [parse_vevent, h.split, h.vevent_block]
    dsimp only
    rw [hvalue, hvalue, hvalue, hvalue, hvalue, hvalue]
    rfl
  · exact read_property [] ("UID", _) rfl (fun q hq => absurd hq List.not_mem_nil)
      (unfold_escape _)
  · exact read_property [("UID", _), ("DTSTAMP", _), ("DTSTART", _), ("DTEND", _)]
      ("SUMMARY", _) rfl (by simp) (unfold_escape _)
  · exact read_property [("UID", _), ("DTSTAMP", _)] ("DTSTART", _) rfl (by simp)
      (unfold_date (to_caldav_date h.dtstart))
  · exact read_property [("UID", _), ("DTSTAMP", _), ("DTSTART", _)] ("DTEND", _) rfl (by simp)
      (unfold_date (to_caldav_date h.dtend))
  · exact read_given "DESCRIPTION" htext hne
      ((List.append_assoc _ _ _).trans (List.append_assoc _ _ _)) (fun q hq => (hhead q hq).1)
  · refine read_given "LOCATION" htext hne (List.append_assoc _ _ _) (fun q hq => ?_)
    rcases List.mem_append.mp hq with hq | hq
    · exact (hhead q hq).2
    · obtain ⟨value, -, rfl⟩ := mem_given hq
      simp

end Lines

/-! ## The round trip -/

def VEventInput.texts (input : VEventInput) : List Text :=
  [input.uid, input.summary] ++ input.description.toList ++ input.location.toList

/-- The event that is read is the one that was written. -/
structure ReadsBack (r : Runtime) (input : VEventInput) (parsed : ParsedVEvent) : Prop where
  uid : parsed.uid = some input.uid
  summary : parsed.summary = some input.summary
  start : ∃ text, to_caldav_date_time r input.start input.timezone = .ok text
    ∧ parsed.start = some text
  end_ : ∃ text, to_caldav_date_time r input.end_ input.timezone = .ok text
    ∧ parsed.end_ = some text
  description : ∀ text, input.description = some text → text ≠ [] → parsed.description = some text
  location : ∀ text, input.location = some text → text ≠ [] → parsed.location = some text

/-- A line that begins or ends a component. -/
def delimits (r : Runtime) (line : Text) : Bool :=
  decide ("BEGIN:".toList <+: upper_case r line) || decide ("END:".toList <+: upper_case r line)

def VEventInput.names (input : VEventInput) : List String :=
  ["BEGIN", "VERSION", "PRODID", "CALSCALE", "BEGIN", "UID", "DTSTAMP", "DTSTART", "DTEND",
      "SUMMARY"]
    ++ (given "DESCRIPTION" input.description).map Prod.fst
    ++ (given "LOCATION" input.location).map Prod.fst
    ++ (input.attendees.getD []).map (fun _ => "ATTENDEE") ++ ["END", "END"]

/-- The text is one line for each property, and its components are the calendar and the
event. -/
structure OneLineEach (r : Runtime) (input : VEventInput) (out : Text) : Prop where
  lines : ∃ values : List Text, values.length = input.names.length
    ∧ split_lines out = List.zipWith content_line input.names values ++ [[]]
  components : (split_lines out).filter (delimits r)
    = ["BEGIN:VCALENDAR".toList, "BEGIN:VEVENT".toList, "END:VEVENT".toList,
      "END:VCALENDAR".toList]

section RoundTrip

variable {r : Runtime} {input : VEventInput} {lines : List Text} {stamp first last : Text}
  {mailed : List Text}

theorem zipWith_lines (block : List Property) :
    List.zipWith content_line (block.map Prod.fst) (block.map Prod.snd)
      = block.map Property.line := by
  rw [List.zipWith_map, List.zipWith_self]
  rfl

theorem Written.names (h : Written r input lines stamp first last mailed) :
    (opening ++ input.block stamp first last mailed ++ closing).map Prod.fst = input.names := by
  have hmailed : (mailed.map (fun address =>
      (("ATTENDEE", "mailto:".toList ++ address) : Property))).map Prod.fst
        = (input.attendees.getD []).map (fun _ => "ATTENDEE") := by
    rw [List.map_map, List.map_const', ← h.length, ← List.map_const']
    rfl
  rw [VEventInput.names, ← hmailed]
  simp only [VEventInput.block, List.map_append]
  rfl

theorem Field.delimits_line {p : Property} (h : Field p.1) : delimits r p.line = false := by
  rw [delimits, Bool.or_eq_false_iff, decide_eq_false_iff_not, decide_eq_false_iff_not]
  exact ⟨h.not_delimiter "BEGIN".toList (by decide) h.not_begin,
    h.not_delimiter "END".toList (by decide) h.not_end⟩

theorem filter_fields {block : List Property} (h : ∀ p ∈ block, Field p.1) :
    (block.map Property.line).filter (delimits r) = [] := by
  rw [List.filter_eq_nil_iff]
  intro line hline
  obtain ⟨p, hp, rfl⟩ := List.mem_map.mp hline
  rw [(h p hp).delimits_line]
  exact Bool.false_ne_true

theorem delimits_ascii {line : Text} (hascii : line.all (fun c => c.toNat < 128) = true)
    (h : "BEGIN:".toList <+: line.map Char.toUpper ∨ "END:".toList <+: line.map Char.toUpper) :
    delimits r line = true := by
  rw [delimits, upper_case_ascii hascii, Bool.or_eq_true, decide_eq_true_eq, decide_eq_true_eq]
  exact h

theorem filter_preamble : (preamble.map Property.line).filter (delimits r)
    = ["BEGIN:VCALENDAR".toList] := by
  have hfields : ∀ p ∈ preamble.tail, Field p.1 := by
    intro p hp
    simp only [preamble, List.tail_cons, List.mem_cons, List.not_mem_nil, or_false] at hp
    rcases hp with rfl | rfl | rfl <;> exact ⟨by decide, by decide, by decide, by decide⟩
  have hbegin : delimits r "BEGIN:VCALENDAR".toList = true :=
    delimits_ascii (by decide) (.inl (by decide))
  have hsplit : preamble.map Property.line
      = "BEGIN:VCALENDAR".toList :: preamble.tail.map Property.line := by decide
  rw [hsplit, List.filter_cons, if_pos hbegin, filter_fields hfields]

theorem Written.one_line_each (h : Written r input lines stamp first last mailed) :
    OneLineEach r input (List.intercalate ['\r', '\n'] lines ++ ['\r', '\n']) := by
  constructor
  · refine ⟨(opening ++ input.block stamp first last mailed ++ closing).map Prod.snd, ?_, ?_⟩
    · rw [← h.names, List.length_map, List.length_map]
    · rw [h.split, ← h.names, zipWith_lines, h.lines]
  · have hevent : delimits r "BEGIN:VEVENT".toList = true :=
      delimits_ascii (by decide) (.inl (by decide))
    have hend : delimits r "END:VEVENT".toList = true :=
      delimits_ascii (by decide) (.inr (by decide))
    have hlast : delimits r "END:VCALENDAR".toList = true :=
      delimits_ascii (by decide) (.inr (by decide))
    have hempty : delimits r [] = false := by
      rw [delimits, upper_case, List.flatMap_nil]
      decide
    have hopening : opening.map Property.line
        = preamble.map Property.line ++ ["BEGIN:VEVENT".toList] := by decide
    have hclosing : closing.map Property.line
        = ["END:VEVENT".toList, "END:VCALENDAR".toList] := by decide
    rw [h.split, h.lines, List.map_append, List.map_append, hopening, hclosing]
    simp only [List.filter_append, filter_preamble, filter_fields fun p hp => (h.field p hp).1,
      List.filter_cons, hevent, hend, hlast, hempty, List.filter_nil, if_true, Bool.false_eq_true,
      if_false]
    rfl

theorem Read.back_iff {parsed : ParsedVEvent} (h : Read input first last parsed)
    (hw : Written r input lines stamp first last mailed) :
    ReadsBack r input parsed ↔ ∀ text ∈ input.texts, ¬['\\', 'n'] <:+: text := by
  have hgiven : ∀ {given : Option Text} {read : Option Text},
      (∀ text, given = some text → text ≠ [] → read = some (misread text)) →
      ((∀ text, given = some text → text ≠ [] → read = some text)
        ↔ ∀ text ∈ given.toList, ¬['\\', 'n'] <:+: text) := by
    intro given read hread
    constructor
    · intro hback text htext
      rw [Option.mem_toList] at htext
      by_cases hne : text = []
      · rw [hne]
        exact fun hinfix => nomatch List.eq_nil_of_infix_nil hinfix
      · have hsame := (hread text htext hne).symm.trans (hback text htext hne)
        exact (misread_eq_iff text).mp (Option.some.inj hsame)
    · intro hclean text htext hne
      rw [hread text htext hne]
      exact congrArg some ((misread_eq_iff text).mpr (hclean text (Option.mem_toList.mpr htext)))
  have hiff := hgiven h.description
  have hiff' := hgiven h.location
  have huid := misread_eq_iff input.uid
  have hsummary := misread_eq_iff input.summary
  simp only [VEventInput.texts, List.mem_append, List.mem_cons, List.not_mem_nil, or_false]
  constructor
  · intro hback text htext
    rcases htext with ((rfl | rfl) | hdescription) | hlocation
    · exact huid.mp (Option.some.inj (h.uid.symm.trans hback.uid))
    · exact hsummary.mp (Option.some.inj (h.summary.symm.trans hback.summary))
    · exact hiff.mp hback.description text hdescription
    · exact hiff'.mp hback.location text hlocation
  · intro hclean
    refine ⟨?_, ?_, ⟨first, hw.dtstart, h.start⟩, ⟨last, hw.dtend, h.end_⟩, ?_, ?_⟩
    · rw [h.uid, huid.mpr (hclean _ (.inl (.inl (.inl rfl))))]
    · rw [h.summary, hsummary.mpr (hclean _ (.inl (.inl (.inr rfl))))]
    · exact hiff.mpr (fun text htext => hclean text (.inl (.inr htext)))
    · exact hiff'.mpr (fun text htext => hclean text (.inr htext))

end RoundTrip

/-- **An event is written with one line for each property, and read back just when no text
has a backslash in front of an n.** -/
theorem build_parse_iff (r : Runtime) :
    (∀ input out, build_vevent r input = .ok out →
      OneLineEach r input out ∧ ∃ parsed, parse_vevent r out = .ok parsed
        ∧ (ReadsBack r input parsed ↔ ∀ text ∈ input.texts, ¬['\\', 'n'] <:+: text))
      ∧ ∀ value folded, fold_ical_line value = .ok folded →
        (unfold_ical_line folded = value ↔ ¬['\\', 'n'] <:+: value) := by
  constructor
  · intro input out h
    obtain ⟨lines, hlines, h⟩ := bind_eq_ok h
    cases h
    obtain ⟨stamp, first, last, mailed, hw⟩ := vevent_lines_ok hlines
    obtain ⟨parsed, hparsed, hread⟩ := hw.parse
    exact ⟨hw.one_line_each, parsed, hparsed, hread.back_iff hw⟩
  · intro value folded h
    obtain ⟨-, rfl⟩ := fold_ok h
    rw [unfold_escape]
    exact misread_eq_iff value

/-! ### An event -/

namespace Sample

/-- The runtime, on the texts of the sample. -/
def runtime : Runtime where
  instant iso := if iso = "2026-03-01T10:00:00Z".toList then some ⟨2026, 3, 1, 10, 0, 0⟩
    else if iso = "2026-03-01T11:00:00Z".toList then some ⟨2026, 3, 1, 11, 0, 0⟩
    else none
  zoned _ _ := none
  time_zone _ := false
  now := "2026-03-01T10:00:00Z".toList
  to_upper c := [c.toUpper]
  to_upper_ascii _ _ := rfl

def event (summary : Text) : VEventInput where
  uid := ['u']
  summary
  start := "2026-03-01T10:00:00Z".toList
  end_ := "2026-03-01T11:00:00Z".toList
  description := none
  location := none
  timezone := none
  attendees := none

end Sample

/-- A backslash in front of an n is read as a line break. -/
theorem backslash_misread :
    ∃ out parsed, build_vevent Sample.runtime (Sample.event ['\\', 'n']) = .ok out
      ∧ parse_vevent Sample.runtime out = .ok parsed
      ∧ parsed.summary = some ['\\', '\n']
      ∧ ¬ReadsBack Sample.runtime (Sample.event ['\\', 'n']) parsed := by
  obtain ⟨lines, hlines⟩ : ∃ lines, vevent_lines Sample.runtime (Sample.event ['\\', 'n'])
      = .ok lines := ⟨_, rfl⟩
  obtain ⟨stamp, first, last, mailed, hw⟩ := vevent_lines_ok hlines
  obtain ⟨parsed, hparsed, hread⟩ := hw.parse
  refine ⟨_, parsed, ?_, hparsed, hread.summary, fun hback => ?_⟩
  · rw [build_vevent, hlines]
    rfl
  · exact (hread.back_iff hw).mp hback ['\\', 'n'] (by decide) (List.infix_refl _)

/-- Commas and line breaks are read back. -/
theorem separators_read_back :
    ∃ out parsed, build_vevent Sample.runtime (Sample.event ['a', ',', '\n', '\\']) = .ok out
      ∧ parse_vevent Sample.runtime out = .ok parsed
      ∧ ReadsBack Sample.runtime (Sample.event ['a', ',', '\n', '\\']) parsed := by
  obtain ⟨out, hout⟩ : ∃ out, build_vevent Sample.runtime (Sample.event ['a', ',', '\n', '\\'])
      = .ok out := ⟨_, rfl⟩
  obtain ⟨-, parsed, hparsed, hiff⟩ := (build_parse_iff Sample.runtime).1 _ _ hout
  exact ⟨out, parsed, hout, hparsed, hiff.mpr (by decide)⟩

end Appcall.Caldav
