/-
Updates of calendars: what `mergeVEvent` leaves as it is.

A property that is looked for outside the components is found by counting the lines that begin
like their bounds. Where all of these are bounds, an update changes the named properties of the
event and nothing else; a line that only looks like one may hide a property of the event, or show
one of a nested component.
-/
import Appcall.Caldav.Calendars

set_option autoImplicit false

namespace Appcall.Caldav

/-! ## Updates -/

/-- By the nesting of components: the first direct UID of the event is this one, and it has no
direct RECURRENCE-ID. -/
structure IsMaster (r : Runtime) (uid : Text) (block : List Text) : Prop where
  uid : (((of_name r "UID" (seen r block)).find? (·.direct)).bind (·.entry.value)).map
    unfold_ical_line = some uid
  master : ∀ x ∈ of_name r "RECURRENCE-ID" (seen r block), x.direct = false

/-- The event is the only master of this UID. -/
def SingleMaster (r : Runtime) (uid : Text) (lines : List Text) (event : ℕ × ℕ) : Prop :=
  ∃ events, find_vevent_ranges r lines = .ok events
    ∧ ∀ e ∈ events, IsMaster r uid (block_of lines e) ↔ e = event

/-- The update is made to the single master event and leaves everything else as it is. -/
structure Preserved (r : Runtime) (input : VEventInput) (dtstart dtend : Text) (lines : List Text)
    (event : ℕ × ℕ) (out : Text) : Prop where
  master : SingleMaster r input.uid lines event
  updated : ∃ block, split_calendar_lines r out
      = .ok (lines.take (event.1 + 1) ++ block ++ lines.drop event.2)
    ∧ Updated r (input.edits dtstart dtend) (seen r (block_of lines event)) (seen r block)
  nesting : ∃ lines', split_calendar_lines r out = .ok lines'
    ∧ validate_component_nesting r lines' = .ok ()
  again : merge_vevent r out input = .ok out

section Update

variable {r : Runtime}

theorem not_edited {name : String} (hname : name = "UID" ∨ name = "RECURRENCE-ID")
    (input : VEventInput) (dtstart dtend : Text) :
    name ∉ (input.edits dtstart dtend).map Edit.name := by
  rw [VEventInput.edits]
  rcases hname with rfl | rfl <;>
  · cases input.description <;> cases input.location <;> cases input.attendees <;>
      simp [Edit.name]

/-- An update that succeeds: where the event is, and what becomes of its lines. -/
structure Merge (r : Runtime) (data : Text) (input : VEventInput) (out dtstart dtend : Text)
    (before : List Text) (first : Text) (block : List Text) (last : Text)
    (behind block' : List Text) : Prop where
  begins : to_caldav_date_time r input.start input.timezone = .ok dtstart
  ends : to_caldav_date_time r input.end_ input.timezone = .ok dtend
  split : split_calendar_lines r data = .ok (around before first block last behind)
  found : find_master r (around before first block last behind) input.uid
    = .ok (before.length, before.length + 1 + block.length)
  steps : Steps r (input.edits dtstart dtend) (seen r block) (seen r block')
  written : split_calendar_lines r out = .ok (around before first block' last behind)
  nesting : validate_component_nesting r (around before first block' last behind) = .ok ()
  again : merge_vevent r out input = .ok out

variable {data out : Text} {input : VEventInput} {block lines : List Text} {xs : List Seen}

/-- What an update that succeeds has found and written. -/
theorem merge_spec (h : merge_vevent r data input = .ok out) :
    ∃ dtstart dtend before first block last behind block',
      Merge r data input out dtstart dtend before first block last behind block' := by
  rw [merge_vevent] at h
  obtain ⟨⟨⟩, hvalid, h⟩ := bind_eq_ok h
  obtain ⟨dtstart, hstart, h⟩ := bind_eq_ok h
  obtain ⟨dtend, hend, h⟩ := bind_eq_ok h
  obtain ⟨lines, hlines, h⟩ := bind_eq_ok h
  obtain ⟨event, hfound, h⟩ := bind_eq_ok h
  obtain ⟨edited, hedited, h⟩ := bind_eq_ok h
  cases h
  -- the event among the lines
  obtain ⟨hnesting, events, hevents, chosen, hall, hone⟩ := find_master_iff.mp hfound
  have hmem : event ∈ events :=
    (List.mem_filter.mp (hone ▸ List.mem_singleton_self event : event ∈ events.filter chosen)).1
  obtain ⟨ranges, later, rfl⟩ := List.append_of_mem hmem
  obtain ⟨found, hranges, hfull⟩ := bind_eq_ok hevents
  have hfound_eq : found = ranges ++ event :: later := by
    split at hfull
    · cases hfull
    · cases hfull
      rfl
  rw [hfound_eq] at hranges
  obtain ⟨before, block, behind, hloc⟩ : ∃ before block behind,
      Located r 0 none lines ranges event later before block behind := by
    rcases locate hranges with ⟨open_, _, _, hopen, -, -⟩ | hloc
    · cases hopen
    · exact hloc
  obtain ⟨first, last, hshape, hfirst, hlast⟩ := hloc.lines
  have hevent : event = (before.length, before.length + 1 + block.length) := by
    refine Prod.ext ?_ ?_
    · rw [hloc.first, Nat.zero_add]
    · rw [hloc.last, hloc.first, Nat.zero_add]
  subst hevent hshape
  change Located r 0 none (around before first block last behind) _ _ _ _ _ _ at hloc
  change split_calendar_lines r data = .ok (around before first block last behind) at hlines
  change find_master r (around before first block last behind) _ = _ at hfound
  -- its lines, and what becomes of them
  have hcalendar := split_calendar_ok hlines
  have hblock := block_of_around before first block last behind
  have hpassed := hall _ hmem
  change Passes r input.uid (block_of (around before first block last behind) _) _ at hpassed
  change edit_event r input dtstart dtend (block_of (around before first block last behind) _) = _
    at hedited
  rw [hblock] at hpassed hedited
  have hsound : Sound r (seen r block) := by
    refine hpassed.sound fun line hline => hcalendar.one_line line ?_
    exact List.mem_append_right _ (List.mem_cons_of_mem _ (List.mem_append_left _ hline))
  have hinput := validate_ok hvalid
  have hstart_line := date_one_line (to_caldav_date hstart)
  have hend_line := date_one_line (to_caldav_date hend)
  obtain ⟨ys, hcode, hsound', hsteps⟩ := edit_event_spec hinput hstart_line hend_line hsound
  rw [lines_of_seen, hedited] at hcode
  cases hcode
  have hbounds : bounds r (lines_of ys) = bounds r block := by
    have h := hsteps.bounds_eq (targets dtstart dtend input)
    rwa [lines_of_seen] at h
  have hpasses : ∀ chosen, Passes r input.uid block chosen →
      Passes r input.uid (lines_of ys) chosen := by
    intro chosen h
    rw [← lines_of_seen (r := r) block] at h
    exact h.of_same hsound hsound'
      (hsteps.elsewhere (targets dtstart dtend input) (not_edited (.inl rfl) _ _ _))
      (hsteps.elsewhere (targets dtstart dtend input) (not_edited (.inr rfl) _ _ _))
  have hagain_found := find_master_again hloc hfirst hlast hfound hbounds hpasses
  have hcalendar' : Calendar r (around before first (lines_of ys) last behind) := by
    refine hcalendar.around hfirst hlast fun line hline => ?_
    obtain ⟨x, hx, hmem⟩ := List.mem_flatMap.mp hline
    exact hsound'.one_line x hx line hmem
  change ∃ _ _ _ _ _ _ _ _, Merge r data input (List.intercalate ['\r', '\n']
    (splice (around before first block last behind) (before.length + 1)
      (before.length + 1 + block.length) (lines_of ys)) ++ ['\r', '\n']) _ _ _ _ _ _ _ _
  rw [splice_around]
  refine ⟨dtstart, dtend, before, first, block, last, behind, lines_of ys, hstart, hend, hlines,
    hfound, ?_, hcalendar'.split, (find_master_iff.mp hagain_found).1, ?_⟩
  · rw [hsound'.seen_lines]
    exact hsteps
  · rw [merge_vevent]
    refine (ok_bind hvalid _).trans ?_
    refine (ok_bind hstart _).trans ?_
    refine (ok_bind hend _).trans ?_
    refine (ok_bind hcalendar'.split _).trans ?_
    refine (ok_bind hagain_found _).trans ?_
    have hedit := edit_event_again hinput hstart_line hend_line hsteps hsound'
    rw [← block_of_around before first (lines_of ys) last behind] at hedit
    refine (ok_bind hedit _).trans ?_
    change Except.ok (List.intercalate ['\r', '\n']
      (splice (around before first (lines_of ys) last behind) (before.length + 1)
        (before.length + 1 + (lines_of ys).length) (block_of _ _)) ++ ['\r', '\n']) = _
    rw [block_of_around, splice_around]

/-- The edits find what they are to edit. -/
def Fit (r : Runtime) (input : VEventInput) (dtstart dtend : Text) (block : List Text) : Prop :=
  ∀ edit ∈ input.edits dtstart dtend, edit.Fits (of_name r edit.name (seen r block))

theorem Merge.preserved_iff {dtstart dtend first last : Text} {before behind block' : List Text}
    (hm : Merge r data input out dtstart dtend before first block last behind block') :
    Preserved r input dtstart dtend (around before first block last behind)
        (before.length, before.length + 1 + block.length) out
      ↔ SingleMaster r input.uid (around before first block last behind)
          (before.length, before.length + 1 + block.length)
        ∧ Fit r input dtstart dtend (block_of (around before first block last behind)
          (before.length, before.length + 1 + block.length)) := by
  have hiff := hm.steps.updated_iff (targets dtstart dtend input)
    (edit_names_nodup dtstart dtend input)
  have htake : ∀ new : List Text, around before first new last behind
      = (around before first block last behind).take (before.length + 1) ++ new
        ++ (around before first block last behind).drop (before.length + 1 + block.length) :=
    fun new => (splice_around before first block last behind new).symm
  refine ⟨fun hkept => ?_, ?_⟩
  · refine ⟨hkept.master, ?_⟩
    obtain ⟨new, hnew, hupdated⟩ := hkept.updated
    have hsame := hm.written.symm.trans hnew
    rw [htake block', Except.ok.injEq, List.append_cancel_right_eq,
      List.append_cancel_left_eq] at hsame
    rw [block_of_around] at hupdated ⊢
    rw [← hsame] at hupdated
    exact hiff.mp hupdated
  · rintro ⟨hmaster, hfits⟩
    rw [block_of_around] at hfits
    refine ⟨hmaster, ⟨block', ?_, ?_⟩, ⟨_, hm.written, hm.nesting⟩, hm.again⟩
    · exact hm.written.trans (congrArg Except.ok (htake block'))
    · rw [block_of_around]
      exact hiff.mpr hfits

/-- **An update that succeeds is made to the single master event and leaves everything else as it
is if and only if the event that is found is this one and every edit fits.** -/
theorem merge_iff {data out : Text} {input : VEventInput}
    (h : merge_vevent r data input = .ok out) :
    ∃ lines event dtstart dtend, split_calendar_lines r data = .ok lines
      ∧ find_master r lines input.uid = .ok event
      ∧ to_caldav_date_time r input.start input.timezone = .ok dtstart
      ∧ to_caldav_date_time r input.end_ input.timezone = .ok dtend
      ∧ (Preserved r input dtstart dtend lines event out
        ↔ SingleMaster r input.uid lines event
          ∧ Fit r input dtstart dtend (block_of lines event)) := by
  obtain ⟨dtstart, dtend, before, first, block, last, behind, block', hm⟩ := merge_spec h
  exact ⟨_, _, dtstart, dtend, hm.split, hm.found, hm.begins, hm.ends, hm.preserved_iff⟩

/-! ### Bounds on which the passes agree -/

/-- Every line that begins like the bound of a component is one. -/
def Agree (r : Runtime) (lines : List Text) : Prop :=
  ∀ line ∈ lines, prefixed r line = nesting line

instance (lines : List Text) : Decidable (Agree r lines) :=
  inferInstanceAs (Decidable (∀ line ∈ lines, _))

theorem see_agree {es : List Entry} (h : ∀ e ∈ es, prefixed r e.head = nesting e.head)
    (depth : ℕ) : ∀ x ∈ see r depth depth es, x.found = x.direct := by
  induction es generalizing depth with
  | nil => exact fun x hx => nomatch hx
  | cons e es ih =>
    rw [List.forall_mem_cons] at h
    rw [see, h.1, List.forall_mem_cons]
    exact ⟨rfl, ih h.2 _⟩

theorem seen_agree (h : Agree r lines) : ∀ x ∈ seen r lines, x.found = x.direct := by
  refine see_agree (fun e he => h e.head ?_) 0
  rw [← entries_lines lines]
  exact List.mem_flatMap.mpr ⟨e, he, List.mem_cons_self⟩

theorem Edit.Fits.of_agree (edit : Edit) (h : ∀ x ∈ xs, x.found = x.direct) : edit.Fits xs := by
  cases edit with
  | replace name value replacePrefix =>
    cases hfirst : xs.find? (·.found) with
    | none =>
      refine .inl fun x hx => Bool.eq_false_iff.mpr ?_
      exact List.find?_eq_none.mp hfirst x hx
    | some x =>
      have hfound : x.found = true := List.find?_some hfirst
      have hdirect : x.direct = true := h x (List.mem_of_find?_eq_some hfirst) ▸ hfound
      refine .inr (.inl ⟨x, ?_, hfound, hdirect⟩)
      rw [← hfirst, ← List.head?_filter, ← List.head?_filter]
      refine congrArg List.head? (List.filter_congr fun y hy => ?_)
      rw [← h y hy, Bool.or_self]
  | exchange name lines => exact h

theorem fit_of_agree {dtstart dtend : Text} (h : Agree r block) : Fit r input dtstart dtend block :=
  fun edit _ => .of_agree edit fun x hx => seen_agree h x (mem_of_name.mp hx).1

theorem matches_uid_eq (uid : Text) (h : Sound r xs) {x : Seen} {value : Text}
    (hx : xs.filter (hit r "UID".toList) = [x])
    (hdelimited : x.entry.delimited = .ok (some (x.entry.before, value))) :
    matches_uid r uid (lines_of xs) = .ok (decide (unfold_ical_line value = uid)) := by
  have hproperty := h.property "UID".toList
  rw [hx] at hproperty
  have hvalue : direct_property_value r (lines_of xs) "UID".toList
      = .ok (some (unfold_ical_line value)) := by
    rw [direct_property_value]
    exact (ok_bind hproperty _).trans (ok_bind hdelimited _)
  rw [matches_uid]
  refine (ok_bind hvalue _).trans (congrArg Except.ok ?_)
  rw [decide_eq_decide, Option.some.injEq]

theorem not_recurring_eq (h : Sound r xs) : ∃ b, not_recurring r (lines_of xs) = .ok b
      ∧ (b = true ↔ ∀ x ∈ of_name r "RECURRENCE-ID" xs, x.found = false) := by
  have hsearch : direct_property_in_block r "RECURRENCE-ID".toList (lines_of xs)
      = .ok (places r "RECURRENCE-ID".toList 0 xs).head? := ok_bind (h.search _) _
  refine ⟨(places r "RECURRENCE-ID".toList 0 xs).head?.isNone, ok_bind hsearch _, ?_⟩
  rw [Option.isNone_iff_eq_none, List.head?_eq_none_iff, ← List.length_eq_zero_iff, places_length,
    List.length_eq_zero_iff, filter_hit, List.filter_eq_nil_iff]
  exact forall₂_congr fun x _ => by rw [Bool.not_eq_true]

theorem Passes.is_master_iff {uid : Text} {chosen : Bool} (h : Passes r uid block chosen)
    (hone : ∀ line ∈ block, OneLine line) (hagree : Agree r block) :
    IsMaster r uid block ↔ chosen = true := by
  have hsound := h.sound hone
  have hsame := seen_agree hagree
  -- the one property of the name
  obtain ⟨x, hx⟩ : ∃ x, (seen r block).filter (hit r "UID".toList) = [x] := by
    obtain ⟨uids, huids, hcheck⟩ := bind_eq_ok h.checked
    rw [← lines_of_seen (r := r) block, hsound.search] at huids
    cases huids
    split at hcheck
    · cases hcheck
    next hlength =>
      rw [not_not, places_length] at hlength
      exact List.length_eq_one_iff.mp hlength
  have hmem : x ∈ (seen r block).filter (hit r "UID".toList) := hx ▸ List.mem_singleton_self x
  obtain ⟨value, hdelimited, -⟩ :=
    Entry.delimited_of_name (hit_name (List.mem_filter.mp hmem).2).2
  have hmatches := matches_uid_eq uid hsound hx hdelimited
  obtain ⟨b, hrecurring, hb⟩ := not_recurring_eq hsound
  rw [lines_of_seen] at hmatches hrecurring
  have hfirst : (of_name r "UID" (seen r block)).find? (·.direct) = some x := by
    have hdirect : (of_name r "UID" (seen r block)).filter (·.direct)
        = (of_name r "UID" (seen r block)).filter (·.found) :=
      List.filter_congr fun y hy => (hsame y (mem_of_name.mp hy).1).symm
    rw [← List.head?_filter, hdirect, ← filter_hit, hx]
    rfl
  have huid : (((of_name r "UID" (seen r block)).find? (·.direct)).bind (·.entry.value)).map
      unfold_ical_line = some (unfold_ical_line value) := by
    rw [hfirst, Option.bind_some, (Entry.read (r := r) hdelimited).2.2, Option.map_some]
  have hchosen : chosen = (decide (unfold_ical_line value = uid) && b) := by
    rw [h.chosen, hmatches, hrecurring]
    rfl
  rw [hchosen, Bool.and_eq_true, decide_eq_true_eq, hb]
  constructor
  · rintro ⟨hmatch, hmaster⟩
    rw [huid, Option.some.injEq] at hmatch
    exact ⟨hmatch, fun y hy => (hsame y (mem_of_name.mp hy).1).trans (hmaster y hy)⟩
  · rintro ⟨hmatch, hmaster⟩
    refine ⟨huid.trans (congrArg some hmatch), fun y hy => ?_⟩
    exact (hsame y (mem_of_name.mp hy).1).symm.trans (hmaster y hy)

theorem block_of_subset (lines : List Text) (range : ℕ × ℕ) : block_of lines range ⊆ lines :=
  fun _ h => List.mem_of_mem_take (List.mem_of_mem_drop h)

theorem single_of_agree {uid : Text} {event : ℕ × ℕ}
    (hsplit : split_calendar_lines r data = .ok lines)
    (hfound : find_master r lines uid = .ok event) (hagree : Agree r lines) :
    SingleMaster r uid lines event := by
  obtain ⟨-, events, hevents, chosen, hall, hone⟩ := find_master_iff.mp hfound
  refine ⟨events, hevents, fun e he => ?_⟩
  have hlines : ∀ line ∈ block_of lines e, OneLine line := fun line hline =>
    (split_calendar_ok hsplit).one_line line (block_of_subset lines e hline)
  have hblock : Agree r (block_of lines e) := fun line hline =>
    hagree line (block_of_subset lines e hline)
  rw [(hall e he).is_master_iff hlines hblock]
  constructor
  · intro h
    have hmem : e ∈ events.filter chosen := List.mem_filter.mpr ⟨he, h⟩
    rw [hone] at hmem
    exact List.mem_singleton.mp hmem
  · rintro rfl
    have hmem : e ∈ events.filter chosen := hone ▸ List.mem_singleton_self e
    exact (List.mem_filter.mp hmem).2

/-- **Where every line that begins like a bound is one, an update changes what it names and
nothing else.** -/
theorem merge_of_agree {out : Text} {input : VEventInput}
    (h : merge_vevent r data input = .ok out) (hsplit : split_calendar_lines r data = .ok lines)
    (hagree : Agree r lines) : ∃ event dtstart dtend,
      find_master r lines input.uid = .ok event
        ∧ Preserved r input dtstart dtend lines event out := by
  obtain ⟨dtstart, dtend, before, first, block, last, behind, block', hm⟩ := merge_spec h
  cases hsplit.symm.trans hm.split
  refine ⟨_, dtstart, dtend, hm.found, hm.preserved_iff.mpr ⟨?_, ?_⟩⟩
  · exact single_of_agree hsplit hm.found hagree
  · exact fit_of_agree fun line hline => hagree line (block_of_subset _ _ hline)

end Update

namespace Sample

def update : VEventInput := event "new".toList

/-- A calendar whose event has an alarm with a summary. -/
def alarm_lines : List Text :=
  ["BEGIN:VCALENDAR".toList, "BEGIN:VEVENT".toList, "UID:u".toList, "DURATION:PT1H".toList,
    "BEGIN:VALARM".toList, "SUMMARY:alarm".toList, "END:VALARM".toList, "END:VEVENT".toList,
    "END:VCALENDAR".toList]

def alarm : Text := List.intercalate ['\n'] alarm_lines

/-- An event with an alarm is updated, and its alarm stays. -/
theorem alarm_kept : ∃ out lines event dtstart dtend,
    merge_vevent runtime alarm update = .ok out
      ∧ split_calendar_lines runtime alarm = .ok lines
      ∧ Preserved runtime update dtstart dtend lines event out := by
  obtain ⟨out, hout⟩ : ∃ out, merge_vevent runtime alarm update = .ok out := ⟨_, rfl⟩
  obtain ⟨lines, event, dtstart, dtend, hsplit, hfound, -, -, hiff⟩ := merge_iff hout
  have hlines : split_calendar_lines runtime alarm = .ok alarm_lines := by decide
  cases hlines.symm.trans hsplit
  have hagree : Agree runtime alarm_lines := by decide
  refine ⟨out, _, event, dtstart, dtend, hout, hsplit, hiff.mpr ⟨?_, ?_⟩⟩
  · exact single_of_agree hsplit hfound hagree
  · exact fit_of_agree fun line hline => hagree line (block_of_subset _ _ hline)

/-- The lines of an alarm, one of which begins like the end of a component and is none. -/
def disguised_alarm : List Text :=
  ["BEGIN:VALARM".toList, "END:x:y".toList, "SUMMARY:alarm".toList, "END:VALARM".toList]

def disguised_lines : List Text :=
  ["BEGIN:VCALENDAR".toList, "BEGIN:VEVENT".toList, "UID:u".toList] ++ disguised_alarm
    ++ ["END:VEVENT".toList, "END:VCALENDAR".toList]

def disguised : Text := List.intercalate ['\n'] disguised_lines

/-- The lines of the event behind the update: the summary of the alarm is another one, and the
event has none. -/
def disguised_block : List Text :=
  ["UID:u".toList, "DTSTART:20260301T100000Z".toList, "DTEND:20260301T110000Z".toList,
    "BEGIN:VALARM".toList, "END:x:y".toList, "SUMMARY:new".toList, "END:VALARM".toList]

def disguised_out : Text :=
  (disguised_lines.take 2 ++ disguised_block ++ disguised_lines.drop 7).flatMap
    (· ++ ['\r', '\n'])

/-- For the search `END:x:y` ends the alarm, and the summary of the alarm is written over. -/
theorem disguised_changed :
    merge_vevent runtime disguised update = .ok disguised_out
      ∧ split_calendar_lines runtime disguised = .ok disguised_lines
      ∧ find_master runtime disguised_lines update.uid = .ok (1, 7)
      ∧ ∀ dtstart dtend,
        ¬Preserved runtime update dtstart dtend disguised_lines (1, 7) disguised_out := by
  refine ⟨by decide, by decide, by decide, fun dtstart dtend hkept => ?_⟩
  obtain ⟨block, hsplit, hupdated⟩ := hkept.updated
  have hout : split_calendar_lines runtime disguised_out
      = .ok (disguised_lines.take 2 ++ disguised_block ++ disguised_lines.drop 7) := by
    decide
  have hblock := hout.symm.trans hsplit
  rw [Except.ok.injEq, List.append_cancel_right_eq, List.append_cancel_left_eq] at hblock
  have hdone := hupdated.done (.replace "SUMMARY" (update.summary.flatMap escape) false)
    List.mem_cons_self
  rw [← hblock] at hdone
  have hnone : (of_name runtime "SUMMARY" (seen runtime disguised_block)).find? (·.direct)
      = none := by decide
  change ((of_name runtime "SUMMARY" (seen runtime disguised_block)).find? (·.direct)).bind _ = _
    at hdone
  rw [hnone] at hdone
  cases hdone

end Sample

end Appcall.Caldav
