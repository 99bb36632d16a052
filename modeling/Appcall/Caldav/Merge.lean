/-
Updates of events: `mergeVEvent` of the CalDAV connector.

The text of the calendar is edited by the places of its lines. Three passes look for the bounds
of components, each in its own way: `validateComponentNesting`, `findVEventRanges` and
`directPropertiesInBlock`.
-/
import Appcall.Caldav.Multistatus

set_option autoImplicit false

namespace Appcall.Caldav

open Replace (replace)

def unsafe_update (reason : String) : String :=
  "CalDAV event resource cannot be safely updated: " ++ reason

/-! ## Lines and components -/

def split_calendar_lines (r : Runtime) (data : Text) : Except String (List Text) :=
  if data = [] then .error (unsafe_update "calendar data is empty.")
  else
    let split := split_lines data
    let lines := if split.getLast? = some [] then split.dropLast else split
    if lines.length < 4 ∨ lines.head?.map (upper_case r) ≠ some "BEGIN:VCALENDAR".toList
        ∨ lines.getLast?.map (upper_case r) ≠ some "END:VCALENDAR".toList then
      .error (unsafe_update "unsupported calendar structure.")
    else .ok lines

/-- `findVEventRanges` from the line with this index on, in an event that starts there or not. -/
def find_ranges_from (r : Runtime) : ℕ → Option ℕ → List Text → Except String (List (ℕ × ℕ))
  | _, start, [] =>
    if start.isSome then .error (unsafe_update "VEVENT is missing or incomplete.") else .ok []
  | index, start, line :: lines =>
    if upper_case r line = "BEGIN:VEVENT".toList then
      if start.isSome then .error (unsafe_update "nested VEVENT.")
      else find_ranges_from r (index + 1) (some index) lines
    else if upper_case r line = "END:VEVENT".toList then
      match start with
      | none => .error (unsafe_update "unmatched END:VEVENT.")
      | some start => do
        let ranges ← find_ranges_from r (index + 1) none lines
        return (start, index) :: ranges
    else find_ranges_from r (index + 1) start lines

def find_vevent_ranges (r : Runtime) (lines : List Text) : Except String (List (ℕ × ℕ)) := do
  let ranges ← find_ranges_from r 0 none lines
  if ranges = [] then .error (unsafe_update "VEVENT is missing or incomplete.") else return ranges

/-- `/^word([^:;]+)$/i`, of a word in small letters: what is behind the word. -/
def component_line (word line : Text) : Option Text :=
  let name := line.drop word.length
  if starts word line = true ∧ name ≠ [] ∧ (∀ c ∈ name, c ≠ ':' ∧ c ≠ ';') then some name else none

/-- `validateComponentNesting`, within these components. -/
def validate_nesting_from (r : Runtime) : List Text → List Text → Except String Unit
  | stack, [] =>
    if stack.length ≠ 0 then .error (unsafe_update "malformed component nesting.") else .ok ()
  | stack, line :: lines =>
    match component_line "begin:".toList line with
    | some name => validate_nesting_from r (upper_case r name :: stack) lines
    | none =>
      match component_line "end:".toList line with
      | none => validate_nesting_from r stack lines
      | some name =>
        match stack with
        | [] => .error (unsafe_update "malformed component nesting.")
        | expected :: stack =>
          if expected = [] ∨ expected ≠ upper_case r name then
            .error (unsafe_update "malformed component nesting.")
          else validate_nesting_from r stack lines

def validate_component_nesting (r : Runtime) (lines : List Text) : Except String Unit :=
  validate_nesting_from r [] lines

/-! ## Direct properties and their places -/

structure ICalProperty where
  prefix_ : Text
  start : ℕ
  end_ : ℕ

/-- `directPropertiesInBlock` from the line with this index on; `skip` lines belong to a property
already. -/
def direct_properties_from (r : Runtime) (name : Text) :
    ℕ → ℕ → ℕ → List Text → Except String (List ICalProperty)
  | _, _, _, [] => .ok []
  | index, skip + 1, depth, _ :: lines =>
    direct_properties_from r name (index + 1) skip depth lines
  | index, 0, depth, line :: lines =>
    if "BEGIN:".toList <+: upper_case r line then
      direct_properties_from r name (index + 1) 0 (depth + 1) lines
    else if "END:".toList <+: upper_case r line then
      direct_properties_from r name (index + 1) 0 (depth - 1) lines
    else if depth ≠ 0 ∨ is_folded line = true then
      direct_properties_from r name (index + 1) 0 depth lines
    else do
      let folded := lines.takeWhile is_folded
      let found ← find_value_delimiter false (unfold_property_lines (line :: folded))
      match found with
      | none => direct_properties_from r name (index + 1) 0 depth lines
      | some (before, _) =>
        if upper_case r (before.takeWhile (· ≠ ';')) ≠ name then
          direct_properties_from r name (index + 1) 0 depth lines
        else do
          let rest ← direct_properties_from r name (index + 1) folded.length depth lines
          return { prefix_ := before, start := index, end_ := index + 1 + folded.length } :: rest

def direct_properties_in_block (r : Runtime) (name : Text) (lines : List Text) :
    Except String (List ICalProperty) :=
  direct_properties_from r name 0 0 0 lines

def direct_property_in_block (r : Runtime) (name : Text) (lines : List Text) :
    Except String (Option ICalProperty) := do
  let properties ← direct_properties_in_block r name lines
  return properties.head?

/-- `splice`: the lines from the start to the end are replaced. -/
def splice (lines : List Text) (start end_ : ℕ) (inserted : List Text) : List Text :=
  lines.take start ++ inserted ++ lines.drop end_

/-- `removeDirectProperties`, at most so many times. -/
def remove_direct_properties (r : Runtime) (name : Text) :
    ℕ → List Text → Except String (List Text)
  | 0, lines => .ok lines
  | fuel + 1, lines => do
    match ← direct_property_in_block r name lines with
    | none => return lines
    | some property =>
      remove_direct_properties r name fuel (splice lines property.start property.end_ [])

def insert_before_end (r : Runtime) (lines : List Text) (line : Text) : List Text :=
  let first_nested := (lines.findIdx? fun candidate =>
    "BEGIN:".toList <+: upper_case r candidate).getD lines.length
  splice lines first_nested first_nested [line]

def replace_direct_property (r : Runtime) (lines : List Text) (name value : Text)
    (replacePrefix : Bool) : Except String (List Text) := do
  match ← direct_property_in_block r name lines with
  | some property =>
    let before := if replacePrefix then name else property.prefix_
    return splice lines property.start property.end_ [before ++ ':' :: value]
  | none => return insert_before_end r lines (name ++ ':' :: value)

/-! ## Updates -/

/-- `lines.slice(range.start + 1, range.end)` -/
def block_of (lines : List Text) (range : ℕ × ℕ) : List Text :=
  (lines.take range.2).drop (range.1 + 1)

/-- `directProperties(lines, event, "UID").length !== 1` -/
def check_uid (r : Runtime) (block : List Text) : Except String Unit := do
  let uids ← direct_properties_in_block r "UID".toList block
  if uids.length ≠ 1 then .error (unsafe_update "VEVENT UID is missing or duplicated.")

/-- `directPropertyValue(lines, event, "UID") === input.uid` -/
def matches_uid (r : Runtime) (uid : Text) (block : List Text) : Except String Bool := do
  let value ← direct_property_value r block "UID".toList
  return decide (value = some uid)

/-- `directProperty(lines, event, "RECURRENCE-ID") === undefined` -/
def not_recurring (r : Runtime) (block : List Text) : Except String Bool := do
  let property ← direct_property_in_block r "RECURRENCE-ID".toList block
  return property.isNone

/-- The master VEVENT that `mergeVEvent` edits. -/
def find_master (r : Runtime) (lines : List Text) (uid : Text) : Except String (ℕ × ℕ) := do
  validate_component_nesting r lines
  let events ← find_vevent_ranges r lines
  events.forM fun event => check_uid r (block_of lines event)
  let matching ← events.filterM fun event => matches_uid r uid (block_of lines event)
  let masters ← matching.filterM fun event => not_recurring r (block_of lines event)
  match masters with
  | [event] => return event
  | _ => .error (unsafe_update "matching master VEVENT is missing or ambiguous.")

/-- `if (value !== undefined) replaceDirectProperty(…)`, of a text. -/
def replace_given (r : Runtime) (lines : List Text) (name : String) :
    Option Text → Except String (List Text)
  | none => .ok lines
  | some value => do
    let folded ← fold_ical_line value
    replace_direct_property r lines name.toList folded false

/-- `if (input.attendees !== undefined)`: the attendees that are there make room for these. -/
def replace_attendees (r : Runtime) (lines : List Text) :
    Option (List Text) → Except String (List Text)
  | none => .ok lines
  | some attendees => do
    let lines ← remove_direct_properties r "ATTENDEE".toList lines.length lines
    attendees.foldlM (fun lines attendee => do
      let address ← normalize_calendar_address attendee
      return insert_before_end r lines (content_line "ATTENDEE" ("mailto:".toList ++ address)))
      lines

def edit_event (r : Runtime) (input : VEventInput) (dtstart dtend : Text) (lines : List Text) :
    Except String (List Text) := do
  let summary ← fold_ical_line input.summary
  let lines ← replace_direct_property r lines "SUMMARY".toList summary false
  let lines ← replace_direct_property r lines "DTSTART".toList dtstart true
  let lines ← remove_direct_properties r "DURATION".toList lines.length lines
  let lines ← replace_direct_property r lines "DTEND".toList dtend true
  let lines ← replace_given r lines "DESCRIPTION" input.description
  let lines ← replace_given r lines "LOCATION" input.location
  replace_attendees r lines input.attendees

def merge_vevent (r : Runtime) (calendar_data : Text) (input : VEventInput) :
    Except String Text := do
  validate_vevent_input input
  let dtstart ← to_caldav_date_time r input.start input.timezone
  let dtend ← to_caldav_date_time r input.end_ input.timezone
  let lines ← split_calendar_lines r calendar_data
  let event ← find_master r lines input.uid
  let event_lines ← edit_event r input dtstart dtend (block_of lines event)
  return List.intercalate ['\r', '\n'] (splice lines (event.1 + 1) event.2 event_lines)
    ++ ['\r', '\n']

end Appcall.Caldav
