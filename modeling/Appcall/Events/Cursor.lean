/-
The cursors of the events: `crates/appcall-events/src/cursor.rs`.

A cursor is the base64 of a position of the stream or of a place in the history, and
decoding tells which. What is made of an event is decoded as what it was made of.
-/
import Appcall.Events.Input
import Appcall.Lib.Base64
import Appcall.Lib.Chars
import Appcall.Lib.Decimal
import Appcall.Lib.Json

set_option autoImplicit false

namespace Appcall.Events

open Chars (split_once)

/-! ## Cursors -/

/-- The first microsecond of the year 10000, which RFC 3339 cannot write. -/
def year_10000 : ℤ := 253402300800000000

/-- What the code relies on of `chrono`: a time that was written is read back as that time,
if it is read; the times that RFC 3339 has are read; and a time is written with digits,
signs and the letters of RFC 3339. -/
structure Chrono where
  to_rfc3339_opts : ℤ → String
  parse_from_rfc3339 : String → Option ℤ
  parse_sound : ∀ t t', parse_from_rfc3339 (to_rfc3339_opts t) = some t' → t' = t
  parse_complete : ∀ t, 0 ≤ t → t < year_10000 → parse_from_rfc3339 (to_rfc3339_opts t) = some t
  short : ∀ t, 0 ≤ t → t < year_10000 → (to_rfc3339_opts t).utf8ByteSize ≤ 64
  written : ∀ t, '|' ∉ (to_rfc3339_opts t).toList ∧ (to_rfc3339_opts t).toList.head? ≠ some 'v'

inductive Cursor where
  | Position (n : ℤ)
  | Time (time : ℤ) (key : String)

def encode (text : List Char) : String := String.ofList (Base64.encode (Json.bytes text))

/-- `v2|{position}|{id}`; positions are not negative. -/
def stream_cursor_at (position : ℤ) (id : String) : String :=
  encode ('v' :: '2' :: '|' :: Decimal.write position.toNat ++ '|' :: id.toList)

def stream_cursor (e : Event) : String := stream_cursor_at e.stream_position e.id

def history_cursor (k : Chrono) (e : Event) : String :=
  encode ((k.to_rfc3339_opts e.created_at).toList ++ '|' :: e.id.toList)

/-- `parse::<i64>` -/
def parse_i64 (text : List Char) : Option ℤ :=
  let n : Option ℤ := match text with
    | '-' :: rest => (Decimal.read rest).map (fun n => -Int.ofNat n)
    | '+' :: rest => (Decimal.read rest).map Int.ofNat
    | _ => (Decimal.read text).map Int.ofNat
  n.filter (fun n => decide (-2 ^ 63 ≤ n ∧ n < 2 ^ 63))

/-- What follows `v2|`. -/
def read_position (rest : List Char) : Except Error Cursor :=
  match split_once (· == '|') rest with
  | none => .error .Invalid
  | some (n, id) =>
    match parse_i64 n with
    | none => .error .Invalid
    | some n => if n ≤ 0 ∨ id = [] then .error .Invalid else .ok (.Position n)

/-- A text that does not begin with `v2|`. -/
def read_time (k : Chrono) (raw : List Char) : Except Error Cursor :=
  match split_once (· == '|') raw with
  | none => .error .Invalid
  | some (time, id) =>
    if id = [] then .error .Invalid
    else match k.parse_from_rfc3339 (String.ofList time) with
    | none => .error .Invalid
    | some time => .ok (.Time time (String.ofList id))

/-- `raw.strip_prefix("v2|")` -/
def read_cursor (k : Chrono) (raw : List Char) : Except Error Cursor :=
  match raw with
  | 'v' :: '2' :: '|' :: rest => read_position rest
  | _ => read_time k raw

def decode (k : Chrono) (cursor : String) : Except Error Cursor :=
  if 4096 < cursor.utf8ByteSize then .error .Invalid
  else match (Base64.decode cursor.toList).bind Json.text_of with
  | none => .error .Invalid
  | some raw => read_cursor k raw

/-! ## Round trips -/

variable {k : Chrono}

theorem split_at_bar {front : List Char} (h : '|' ∉ front) (back : List Char) :
    split_once (· == '|') (front ++ '|' :: back) = some (front, back) := by
  refine Chars.split_once_append (fun c hc => beq_eq_false_iff_ne.mpr ?_) rfl
  rintro rfl
  exact h hc

theorem size_encode (text : List Char) :
    (encode text).utf8ByteSize = (4 * (Json.bytes text).length + 2) / 3 := by
  rw [← Json.length_bytes_toList, encode, String.toList_ofList,
    Json.length_plain fun c hc => (Base64.alphabet_plain (Base64.mem_encode hc)).1,
    Base64.length_encode]

theorem text_encode (text : List Char) :
    (Base64.decode (encode text).toList).bind Json.text_of = some text := by
  rw [encode, String.toList_ofList, Base64.decode_encode, Option.bind_some, Json.text_of_bytes]

theorem encode_ne_empty {text : List Char} (h : text ≠ []) : encode text ≠ "" := by
  intro hempty
  have hsize := size_encode text
  rw [hempty] at hsize
  have hlength : 0 < (Json.bytes text).length := by
    cases text with
    | nil => exact absurd rfl h
    | cons c text =>
      rw [Json.length_bytes, List.map_cons, List.sum_cons]
      have := Char.utf8Size_pos c
      omega
  have hzero : "".utf8ByteSize = 0 := rfl
  omega

theorem stream_cursor_ne_empty (position : ℤ) (id : String) :
    stream_cursor_at position id ≠ "" :=
  encode_ne_empty (List.cons_ne_nil _ _)

theorem history_cursor_ne_empty (k : Chrono) (e : Event) : history_cursor k e ≠ "" :=
  encode_ne_empty (List.append_ne_nil_of_right_ne_nil _ (List.cons_ne_nil _ _))

theorem id_ne_nil {id : String} (h : valid_id id = true) :
    id.toList ≠ [] ∧ id.utf8ByteSize ≤ 1024 := by
  rw [valid_id, Bool.and_eq_true, Bool.and_eq_true, decide_eq_true_eq] at h
  refine ⟨fun hnil => ?_, h.1.2⟩
  have hempty : id = "" := String.toList_inj.mp hnil
  rw [hempty] at h
  exact absurd h.1.1 (by decide)

theorem no_bar (n : ℕ) : '|' ∉ Decimal.write n := by
  intro h
  have hdigit := (Decimal.mem_write h).1
  revert hdigit
  decide

theorem parse_i64_write {n : ℤ} (h : 0 < n) (hmax : n < 2 ^ 63) :
    parse_i64 (Decimal.write n.toNat) = some n := by
  have hvalue : ((Decimal.read (Decimal.write n.toNat)).map Int.ofNat).filter
      (fun n => decide (-2 ^ 63 ≤ n ∧ n < 2 ^ 63)) = some n := by
    rw [Decimal.read_write, Option.map_some, Int.ofNat_eq_natCast, Int.toNat_of_nonneg h.le,
      Option.filter_some, if_pos]
    rw [decide_eq_true_eq]
    omega
  unfold parse_i64
  split
  next rest heq =>
    have hdigit := (Decimal.mem_write (heq ▸ List.mem_cons_self)).1
    exact absurd hdigit (by decide)
  next rest heq =>
    have hdigit := (Decimal.mem_write (heq ▸ List.mem_cons_self)).1
    exact absurd hdigit (by decide)
  next => exact hvalue

/-- **A cursor of the stream** is decoded as its position. -/
theorem decode_stream_cursor {position : ℤ} {id : String} (h : 0 < position)
    (hmax : position < 2 ^ 63) (hid : valid_id id = true) :
    decode k (stream_cursor_at position id) = .ok (.Position position) := by
  obtain ⟨hne, hshort⟩ := id_ne_nil hid
  have hsize : ¬4096 < (stream_cursor_at position id).utf8ByteSize := by
    have hdigits : (Decimal.write position.toNat).length ≤ 19 :=
      Decimal.length_write (by omega) (by decide)
    have hbytes : Json.bytes ('v' :: '2' :: '|' :: Decimal.write position.toNat ++ '|' :: id.toList)
        = Json.bytes ['v', '2', '|'] ++ Json.bytes (Decimal.write position.toNat)
          ++ (Json.bytes ['|'] ++ Json.bytes id.toList) := by
      rw [← Json.bytes_append, ← Json.bytes_append, ← Json.bytes_append]
      rfl
    rw [stream_cursor_at, size_encode, hbytes, List.length_append, List.length_append,
      List.length_append, Json.length_plain fun c hc => (Decimal.mem_write hc).2,
      Json.length_bytes_toList]
    have h3 : (Json.bytes ['v', '2', '|']).length = 3 := by decide
    have h1 : (Json.bytes ['|']).length = 1 := by decide
    omega
  rw [decode, if_neg hsize, stream_cursor_at, text_encode]
  change read_position (Decimal.write position.toNat ++ '|' :: id.toList) = _
  rw [read_position, split_at_bar (no_bar _)]
  dsimp only
  rw [parse_i64_write h hmax]
  exact if_neg (by rw [not_or, not_le]; exact ⟨h, hne⟩)

theorem read_history (k : Chrono) (e : Event) :
    read_cursor k ((k.to_rfc3339_opts e.created_at).toList ++ '|' :: e.id.toList)
      = if e.id.toList = [] then .error .Invalid
        else match k.parse_from_rfc3339 (k.to_rfc3339_opts e.created_at) with
          | none => .error .Invalid
          | some time => .ok (.Time time e.id) := by
  obtain ⟨hbar, hhead⟩ := k.written e.created_at
  unfold read_cursor
  split
  next rest heq =>
    refine (hhead ?_).elim
    cases htime : (k.to_rfc3339_opts e.created_at).toList with
    | nil =>
      rw [htime] at heq
      cases heq
    | cons c time =>
      rw [htime, List.cons_append] at heq
      rw [(List.cons.inj heq).1]
      rfl
  next =>
    rw [read_time, split_at_bar hbar]
    dsimp only
    rw [String.ofList_toList, String.ofList_toList]

theorem decode_history_cursor {e : Event} {c : Cursor}
    (h : decode k (history_cursor k e) = .ok c) : c = .Time e.created_at e.id := by
  rw [decode] at h
  split at h
  · cases h
  · rw [history_cursor, text_encode] at h
    dsimp only at h
    rw [read_history] at h
    split at h
    · cases h
    · split at h
      · cases h
      next time hparse =>
        cases h
        rw [k.parse_sound _ _ hparse]

end Appcall.Events
