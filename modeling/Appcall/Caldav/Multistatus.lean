/-
Multistatus documents: `parseMultiStatus` of the CalDAV connector.

Elements are found by regular expressions. A name is looked for behind any prefix, so that the
place of a match is that of the first tag that has it; the text of an element goes up to the
first end tag of that name. A text is the list of its characters, without surrogates that stand
alone.
-/
import Appcall.Caldav.Calendar

set_option autoImplicit false

namespace Appcall.Caldav

open Chars (is_space)

/-! ## Patterns -/

/-- A literal at the front of a text; the case of ASCII letters does not count. -/
def starts (name text : Text) : Bool := name.isPrefixOf (text.map Char.toLower)

theorem prefix_head {a b : Text} (h : a <+: b) (ha : a ≠ []) : a.head? = b.head? := by
  cases a with
  | nil => exact absurd rfl ha
  | cons c a =>
    obtain ⟨rest, rfl⟩ := h
    rfl

def lower (text : Text) : Text := text.map Char.toLower

theorem lower_append (a b : Text) : lower (a ++ b) = lower a ++ lower b := List.map_append

theorem starts_iff {name text : Text} : starts name text = true ↔ name <+: lower text := by
  rw [starts, List.isPrefixOf_iff_prefix, lower]

/-- `[^:>]*:?name` at the front of a text. -/
def has_name (name : Text) : Text → Bool
  | [] => starts name []
  | c :: text =>
    starts name (c :: text) || (c == ':' && starts name text)
      || (c != ':' && c != '>' && has_name name text)

/-- The text behind `[^>]*>`. -/
def behind (text : Text) : Option Text := (text.dropWhile (· ≠ '>')).tail?

/-- The text behind `<[^:>]*:?name[^>]*>`. -/
def opens (name : Text) : Text → Option Text
  | '<' :: text => if has_name name text then behind text else none
  | _ => none

/-- The text behind `<\/[^:>]*:?name>`. -/
def closes (name : Text) : Text → Option Text
  | '<' :: '/' :: text => if has_name (name ++ ['>']) text then behind text else none
  | _ => none

/-- `([\s\S]*?)` in front of an end tag, and what is behind that. -/
def find_close (name : Text) : Text → Option (Text × Text)
  | [] => none
  | c :: text =>
    match closes name (c :: text) with
    | some rest => some ([], rest)
    | none => (find_close name text).map fun found => (c :: found.1, found.2)

def trim (text : Text) : Text :=
  ((text.dropWhile is_space).reverse.dropWhile is_space).reverse

def extract_tag (name : Text) : Text → Option Text
  | [] => none
  | c :: text =>
    match (opens name (c :: text)).bind (find_close name) with
    | some (content, _) => some (trim content)
    | none => extract_tag name text

/-- The matches of `splitResponses`; `skip` characters belong to one already. -/
def split_from : ℕ → Text → List Text
  | _, [] => []
  | skip + 1, _ :: text => split_from skip text
  | 0, c :: text =>
    match (opens "response".toList (c :: text)).bind (find_close "response".toList) with
    | some (_, rest) =>
      (c :: text).take (text.length + 1 - rest.length)
        :: split_from (text.length - rest.length) text
    | none => split_from 0 text

def split_responses (xml : Text) : List Text := split_from 0 xml

/-! ## Entities -/

def is_hex_digit (c : Char) : Bool := is_digit c || (97 ≤ c.toLower.toNat && c.toLower.toNat ≤ 102)

def hex_number (text : Text) : ℕ :=
  text.foldl (fun n c =>
    16 * n + (if is_digit c then c.toNat - 48 else c.toLower.toNat - 87)) 0

def decimal_number (text : Text) : ℕ := text.foldl (fun n c => 10 * n + (c.toNat - 48)) 0

/-- `String.fromCodePoint`. A surrogate is no character by itself. -/
def code_point (n : ℕ) : Char := if n.isValidChar then Char.ofNat n else Char.ofNat 65533

/-- A numeric reference: its text behind the ampersand, and what stands for it. -/
def numeric (lead : Text) (digit : Char → Bool) (number : Text → ℕ) (text : Text) :
    Option (Text × ℕ) :=
  let digits := (text.drop lead.length).takeWhile digit
  if starts lead text ∧ digits ≠ []
      ∧ (text.drop (lead.length + digits.length)).head? = some ';' then
    some (if 1114111 < number digits then '&' :: text.take (lead.length + digits.length + 1)
      else [code_point (number digits)], lead.length + digits.length + 1)
  else none

def named (name : String) (c : Char) (text : Text) : Option (Text × ℕ) :=
  if starts (name.toList ++ [';']) text then some ([c], name.length + 1) else none

/-- What stands for the entity whose text behind the ampersand this is, and the length of it. -/
def entity (text : Text) : Option (Text × ℕ) :=
  numeric "#x".toList is_hex_digit hex_number text
    |>.or (numeric "#".toList is_digit decimal_number text)
    |>.or (named "quot" '"' text)
    |>.or (named "apos" '\'' text)
    |>.or (named "amp" '&' text)
    |>.or (named "lt" '<' text)
    |>.or (named "gt" '>' text)

def decode_from : ℕ → Text → Text
  | _, [] => []
  | skip + 1, _ :: text => decode_from skip text
  | 0, c :: text =>
    match if c = '&' then entity text else none with
    | some (value, length) => value ++ decode_from length text
    | none => c :: decode_from 0 text

def decode_xml_text (value : Text) : Text := decode_from 0 value

/-! ## Responses -/

structure ParsedDavResponse where
  href : Text
  display_name : Option Text
  etag : Option Text
  calendar_data : Option Text
  calendar_color : Option Text
  components : Option (List Text)
  ctag : Option Text
  is_calendar : Bool
  principal_href : Option Text
  calendar_home_href : Option Text

/-- The places behind `<[^:>]*:?comp`, the last one first. -/
def behind_comp : Text → List Text
  | [] => []
  | c :: text =>
    (if c != ':' && c != '>' then behind_comp text else [])
      ++ (if c == ':' && starts "comp".toList text then [text.drop 4] else [])
      ++ (if starts "comp".toList (c :: text) then [(c :: text).drop 4] else [])

/-- `[^>]+name="([^"]+)"`: what is in quotes, and what is behind it. -/
def comp_name (text : Text) : Option (Text × Text) :=
  let run := (text.takeWhile (· ≠ '>')).length
  (List.range run).findSome? fun i =>
    let value := text.drop (run - i)
    if starts "name=\"".toList value then
      let name := (value.drop 6).takeWhile (· ≠ '"')
      match (value.drop 6).dropWhile (· ≠ '"') with
      | _ :: rest => if name = [] then none else some (name, rest)
      | [] => none
    else none

/-- The matches of `parseComponents`; `skip` characters belong to one already. -/
def components_from : ℕ → Text → List Text
  | _, [] => []
  | skip + 1, _ :: text => components_from skip text
  | 0, c :: text =>
    match if c = '<' then (behind_comp text).findSome? comp_name else none with
    | some (name, rest) => name :: components_from (text.length - rest.length) text
    | none => components_from 0 text

def parse_components (block : Text) : List Text := components_from 0 block

def is_calendar_resource_type (block : Text) : Bool :=
  block.tails.any (starts "calendar".toList)
    && block.tails.any fun text =>
      text.head? == some '<' && has_name "resourcetype".toList text.tail

/-- `block ? extractHref(block) : undefined` -/
def inner_href (block : Option Text) : Option Text :=
  (block.filter (fun block => !block.isEmpty)).bind (extract_tag "href".toList)

/-- One response of `parseMultiStatus`. -/
def parse_response (block : Text) : ParsedDavResponse :=
  let tag (name : String) : Option Text := extract_tag name.toList block
  { href := (tag "href").getD []
    display_name := tag "displayname"
    etag := ((tag "getetag").filter (fun etag => !etag.isEmpty)).map decode_xml_text
    calendar_data := tag "calendar-data"
    calendar_color := tag "calendar-color"
    components := some (parse_components block) |>.filter (fun names => !names.isEmpty)
    ctag := tag "getctag"
    is_calendar := is_calendar_resource_type block
    principal_href := inner_href (tag "current-user-principal")
    calendar_home_href := inner_href (tag "calendar-home-set") }

/-- `parseMultiStatus`; its `hrefs` are those of the responses. -/
def parse_multi_status (xml : Text) : List ParsedDavResponse :=
  (split_responses xml).map parse_response

end Appcall.Caldav
