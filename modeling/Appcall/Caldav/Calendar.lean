/-
Events as iCalendar text: `buildVEvent` and `parseVEvent` of the CalDAV connector.

`Temporal` and the tables of upper-case letters are parameters. A text is the list of its
characters.
-/
import Appcall.Caldav.Text
import Appcall.Lib.Chars
import Appcall.Lib.Decimal

set_option autoImplicit false

namespace Appcall.Caldav

open Chars (is_space)
open Replace (replace)

/-! ## Dates -/

structure Utc where
  year : ℤ
  month : ℕ
  day : ℕ
  hour : ℕ
  minute : ℕ
  second : ℕ

/-- The groups of `STRICT_ISO_DATE_TIME`. -/
structure IsoDateTime where
  year : ℕ
  month : ℕ
  day : ℕ
  hour : ℕ
  minute : ℕ
  second : ℕ
  offset : Bool

/-- The runtime: `Temporal`, and the upper case of a character. -/
structure Runtime where
  /-- `Temporal.Instant.from(iso)`, unless it throws. -/
  instant : Text → Option Utc
  /-- `Temporal.ZonedDateTime.from(fields, …).toInstant()`, unless it throws. -/
  zoned : IsoDateTime → Text → Option Utc
  /-- `toZonedDateTimeISO(timezone)` does not throw. -/
  time_zone : Text → Bool
  /-- `Temporal.Now.instant().toString()` -/
  now : Text
  to_upper : Char → Text
  to_upper_ascii : ∀ c, c.toNat < 128 → to_upper c = [c.toUpper]

def is_digit (c : Char) : Bool := 48 ≤ c.toNat && c.toNat ≤ 57

/-- The number of `n` digits, and what is behind them. -/
def digits : ℕ → ℕ → Text → Option (ℕ × Text)
  | 0, value, text => some (value, text)
  | n + 1, value, c :: text =>
    if is_digit c then digits n (10 * value + (c.toNat - 48)) text else none
  | _ + 1, _, [] => none

def literal (c : Char) : Text → Option Text
  | d :: text => if d = c then some text else none
  | [] => none

/-- `(?<fraction>\.\d{1,9})?` -/
def skip_fraction : Text → Option Text
  | '.' :: text =>
    let fraction := text.takeWhile is_digit
    if 1 ≤ fraction.length ∧ fraction.length ≤ 9 then some (text.dropWhile is_digit) else none
  | text => some text

/-- `(?<offset>Z|[+-]\d{2}:\d{2})?$` -/
def read_offset : Text → Option Bool
  | [] => some false
  | ['Z'] => some true
  | sign :: text =>
    if sign = '+' ∨ sign = '-' then do
      let (_, text) ← digits 2 0 text
      let text ← literal ':' text
      let (_, text) ← digits 2 0 text
      if text = [] then some true else none
    else none

/-- `STRICT_ISO_DATE_TIME.exec` -/
def strict_iso_date_time (iso : Text) : Option IsoDateTime := do
  let (year, text) ← digits 4 0 iso
  let text ← literal '-' text
  let (month, text) ← digits 2 0 text
  let text ← literal '-' text
  let (day, text) ← digits 2 0 text
  let text ← literal 'T' text
  let (hour, text) ← digits 2 0 text
  let text ← literal ':' text
  let (minute, text) ← digits 2 0 text
  let text ← literal ':' text
  let (second, text) ← digits 2 0 text
  let text ← skip_fraction text
  let offset ← read_offset text
  some { year, month, day, hour, minute, second, offset }

/-- `NUMERIC_TIMEZONE_IDENTIFIER.test` -/
def numeric_timezone_identifier : Text → Bool
  | sign :: text =>
    decide (sign = '+' ∨ sign = '-') &&
      (match digits 2 0 text with
      | none => false
      | some (_, []) => true
      | some (_, text) =>
        match digits 2 0 ((literal ':' text).getD text) with
        | some (_, []) => true
        | _ => false)
  | [] => false

def invalid_date_time : String := "Invalid CalDAV date-time."

def invalid_timezone : String := "Invalid CalDAV timezone."

/-- `validateCalDavTimezone` -/
def validate_timezone (r : Runtime) (timezone : Text) : Except String Unit :=
  if timezone = [] then .error invalid_timezone
  else if numeric_timezone_identifier timezone then .error invalid_timezone
  else if r.time_zone timezone then .ok ()
  else .error invalid_timezone

def pad_start (width : ℕ) (text : Text) : Text :=
  List.replicate (width - text.length) '0' ++ text

/-- `formatCalDavInstant` -/
def format_instant (utc : Utc) : Except String Text :=
  if utc.year < 1 ∨ 9999 < utc.year then .error invalid_date_time
  else .ok (pad_start 4 (Decimal.write utc.year.toNat) ++ pad_start 2 (Decimal.write utc.month)
    ++ pad_start 2 (Decimal.write utc.day) ++ 'T' :: pad_start 2 (Decimal.write utc.hour)
    ++ pad_start 2 (Decimal.write utc.minute) ++ pad_start 2 (Decimal.write utc.second) ++ ['Z'])

def to_caldav_date_time (r : Runtime) (iso : Text) (timezone : Option Text) :
    Except String Text := do
  match strict_iso_date_time iso with
  | none => .error invalid_date_time
  | some parts =>
    if parts.year < 1 ∨ 9999 < parts.year then .error invalid_date_time
    else if 59 < parts.second then .error invalid_date_time
    else
      timezone.forM (validate_timezone r)
      match if parts.offset then r.instant iso
        else r.zoned parts (timezone.getD "UTC".toList) with
      | some utc => format_instant utc
      | none => .error invalid_date_time

/-! ## Events -/

structure VEventInput where
  uid : Text
  summary : Text
  start : Text
  end_ : Text
  description : Option Text
  location : Option Text
  timezone : Option Text
  attendees : Option (List Text)

structure ParsedVEvent where
  uid : Option Text
  summary : Option Text
  start : Option Text
  end_ : Option Text
  location : Option Text
  description : Option Text

/-- `[^@\s<>;,]` -/
def address_char (c : Char) : Bool :=
  !(c = '@' || is_space c || c = '<' || c = '>' || c = ';' || c = ',')

/-- `/^[^@\s<>;,]+@[^@\s<>;,]+$/` -/
def is_address (address : Text) : Bool :=
  match address.dropWhile address_char with
  | '@' :: domain => !(address.takeWhile address_char).isEmpty && !domain.isEmpty
    && domain.all address_char
  | _ => false

/-- `value.replace(/^mailto:/i, "")` -/
def strip_mailto (value : Text) : Text :=
  if (value.take 7).map Char.toLower = "mailto:".toList then value.drop 7 else value

def normalize_calendar_address (value : Text) : Except String Text := do
  assert_safe_text value
  let address := strip_mailto value
  if is_address address then return address
  else .error "attendee must be a valid calendar address."

def validate_vevent_input (input : VEventInput) : Except String Unit := do
  if input.uid = [] then .error "uid is required"
  assert_safe_text input.uid
  if input.uid.any (fun c => c = '\r' || c = '\n') then
    .error "iCalendar UID must not contain line breaks."
  assert_safe_text input.summary
  input.description.forM assert_safe_text
  input.location.forM assert_safe_text
  (input.attendees.getD []).forM (fun attendee => do
    let _ ← normalize_calendar_address attendee
    return ())

/-- `` `${name}:${value}` `` -/
def content_line (name : String) (value : Text) : Text := name.toList ++ ':' :: value

/-- `if (value) lines.push(…)` -/
def text_line (name : String) : Option Text → Except String (List Text)
  | none | some [] => .ok []
  | some value => do
    let folded ← fold_ical_line value
    return [content_line name folded]

/-- The lines that `buildVEvent` joins. -/
def vevent_lines (r : Runtime) (input : VEventInput) : Except String (List Text) := do
  validate_vevent_input input
  let now ← to_caldav_date_time r r.now none
  let dtstart ← to_caldav_date_time r input.start input.timezone
  let dtend ← to_caldav_date_time r input.end_ input.timezone
  let uid ← fold_ical_line input.uid
  let summary ← fold_ical_line input.summary
  let description ← text_line "DESCRIPTION" input.description
  let location ← text_line "LOCATION" input.location
  let attendees ← (input.attendees.getD []).mapM (fun attendee => do
    let address ← normalize_calendar_address attendee
    return content_line "ATTENDEE" ("mailto:".toList ++ address))
  return [content_line "BEGIN" "VCALENDAR".toList, content_line "VERSION" "2.0".toList,
      content_line "PRODID" "-//CalDAV Connector//EN".toList,
      content_line "CALSCALE" "GREGORIAN".toList, content_line "BEGIN" "VEVENT".toList,
      content_line "UID" uid, content_line "DTSTAMP" now, content_line "DTSTART" dtstart,
      content_line "DTEND" dtend, content_line "SUMMARY" summary]
    ++ description ++ location ++ attendees
    ++ [content_line "END" "VEVENT".toList, content_line "END" "VCALENDAR".toList]

def build_vevent (r : Runtime) (input : VEventInput) : Except String Text := do
  let lines ← vevent_lines r input
  return List.intercalate ['\r', '\n'] lines ++ ['\r', '\n']

/-! ## Reading an event -/

/-- `icsData.replace(/\r\n/g, "\n").replace(/\r/g, "\n").split("\n")` -/
def split_lines (data : Text) : List Text :=
  (replace ['\r'] ['\n'] (replace ['\r', '\n'] ['\n'] data)).splitOn '\n'

/-- `toUpperCase` -/
def upper_case (r : Runtime) (text : Text) : Text := text.flatMap r.to_upper

def is_folded (line : Text) : Bool :=
  match line with
  | c :: _ => c = ' ' || c = '\t'
  | [] => false

/-- `line.replace(/^[ \t]/, "")` -/
def unfolded (line : Text) : Text := if is_folded line then line.drop 1 else line

/-- `unfoldICalPropertyLines`, of the lines from the start to the end. -/
def unfold_property_lines : List Text → Text
  | [] => []
  | line :: rest => line ++ (rest.map unfolded).flatten

/-- `findICalValueDelimiter`: the texts before and behind the delimiter. -/
def find_value_delimiter (quoted : Bool) : Text → Except String (Option (Text × Text))
  | [] =>
    if quoted then
      .error "CalDAV event resource cannot be safely updated: malformed quoted parameter."
    else .ok none
  | c :: text =>
    if c = '"' then do
      let found ← find_value_delimiter (!quoted) text
      return found.map (fun f => (c :: f.1, f.2))
    else if c = ':' ∧ quoted = false then .ok (some ([], text))
    else do
      let found ← find_value_delimiter quoted text
      return found.map (fun f => (c :: f.1, f.2))

/-- The first property of a name among the lines of a component, with its lines:
`directPropertiesInBlock(lines, name)[0]`. The lines of nested components are passed over, and
so are `skip` lines of a property. -/
def direct_property (r : Runtime) (name : Text) :
    ℕ → ℕ → List Text → Except String (List (List Text))
  | _, _, [] => .ok []
  | skip + 1, depth, _ :: lines => direct_property r name skip depth lines
  | 0, depth, line :: lines =>
    if "BEGIN:".toList <+: upper_case r line then direct_property r name 0 (depth + 1) lines
    else if "END:".toList <+: upper_case r line then direct_property r name 0 (depth - 1) lines
    else if depth ≠ 0 ∨ is_folded line = true then direct_property r name 0 depth lines
    else do
      let folded := lines.takeWhile is_folded
      let found ← find_value_delimiter false (unfold_property_lines (line :: folded))
      match found with
      | none => direct_property r name 0 depth lines
      | some (before, _) =>
        if upper_case r (before.takeWhile (· ≠ ';')) ≠ name then
          direct_property r name 0 depth lines
        else do
          let rest ← direct_property r name folded.length depth lines
          return (line :: folded) :: rest

def direct_property_value (r : Runtime) (lines : List Text) (name : Text) :
    Except String (Option Text) := do
  let properties ← direct_property r name 0 0 lines
  match properties.head? with
  | none => return none
  | some property =>
    let found ← find_value_delimiter false (unfold_property_lines property)
    return found.map (fun f => unfold_ical_line f.2)

/-- The lines between `BEGIN:VEVENT` and the first `END:VEVENT` behind it. -/
def vevent_block (r : Runtime) (lines : List Text) : Option (List Text) := do
  let start ← lines.findIdx? (fun line => upper_case r line = "BEGIN:VEVENT".toList)
  let rest := lines.drop (start + 1)
  let length ← rest.findIdx? (fun line => upper_case r line = "END:VEVENT".toList)
  some (rest.take length)

def parse_vevent (r : Runtime) (data : Text) : Except String ParsedVEvent := do
  let block := vevent_block r (split_lines data)
  let get_field (field : String) : Except String (Option Text) :=
    match block with
    | some lines => direct_property_value r lines field.toList
    | none => .ok none
  let uid ← get_field "UID"
  let summary ← get_field "SUMMARY"
  let start ← get_field "DTSTART"
  let end_ ← get_field "DTEND"
  let location ← get_field "LOCATION"
  let description ← get_field "DESCRIPTION"
  return { uid, summary, start, end_, location, description }

end Appcall.Caldav
