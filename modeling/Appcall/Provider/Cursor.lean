/-
The cursor of the accepted relations: `crates/appcall-provider/src/persistence.rs`,
`lib.rs` and `service.rs`.

A client polls with the cursor of the last answer, a text it does not look into: the
place of the last row and whether it reads one brand or all. What `encode_accepted_cursor`
makes of a row is accepted by the request path and by `parse_accepted_cursor` under the
same scope, and under no other; the limit of its length is derived for that.
-/
import Appcall.Lib.Base64
import Appcall.Lib.Json

set_option autoImplicit false

namespace Appcall.Provider

/-! ## Inputs -/

structure Error where
  status : ℕ
  code : String
  message : String
  limit : Option ℤ
  used : Option ℤ

def Error.new (status : ℕ) (code message : String) : Error := ⟨status, code, message, none, none⟩

inductive Field
  | absent
  | null
  | text (value : String)
  | other

def INPUT_STRING_MAX_BYTES : ℕ := 4096

def ACCEPTED_CURSOR_JSON_OVERHEAD : ℕ := 512

/-- Three bytes of prefix and the base64 of two identifiers of escaped bytes. -/
def ACCEPTED_CURSOR_MAX_LEN : ℕ :=
  3 + 4 * ((2 * INPUT_STRING_MAX_BYTES * 6 + ACCEPTED_CURSOR_JSON_OVERHEAD + 2) / 3)

/-- `value.contains('\0')` -/
def contains_nul (value : String) : Bool := value.toList.any (fun c => c == Char.ofNat 0)

/-- A text that `string` lets in. -/
structure Identifier where
  text : String
  short : text.utf8ByteSize ≤ INPUT_STRING_MAX_BYTES
  no_nul : contains_nul text = false
  deriving DecidableEq

def invalid_input : Error := .new 400 "INVALID_INPUT" "A request field is invalid."

def Identifier.empty : Identifier := ⟨"", by decide, by decide⟩

def string : Field → Except Error Identifier
  | .absent | .null => .ok Identifier.empty
  | .text v =>
    if h : v.utf8ByteSize ≤ INPUT_STRING_MAX_BYTES ∧ contains_nul v = false then
      .ok ⟨v, h.1, h.2⟩
    else .error invalid_input
  | .other => .error invalid_input

def cursor : Field → Except Error String
  | .absent | .null => .ok ""
  | .text v =>
    if v.utf8ByteSize ≤ ACCEPTED_CURSOR_MAX_LEN ∧ contains_nul v = false then .ok v
    else .error invalid_input
  | .other => .error invalid_input

/-! ## Cursors -/

structure EncodedAcceptedCursor where
  v : ℕ
  all_brands : Bool
  accepted_at : String
  account_id : String
  member_id : String

/-- `AcceptedCursor`; times are microseconds since the epoch. -/
structure AcceptedCursor where
  accepted_at : ℤ
  account_id : String
  member_id : String
  legacy_timestamp : Bool

def word (b : Bool) : List Char :=
  if b then ['t', 'r', 'u', 'e'] else ['f', 'a', 'l', 's', 'e']

/-- `json!({..}).to_string()`, whose keys are in order. -/
def payload (all_brands : Bool) (accepted_at account_id member_id : String) : List Char :=
  "\x7b\"accepted_at\":".toList ++ Json.quote accepted_at.toList
    ++ ",\"account_id\":".toList ++ Json.quote account_id.toList
    ++ ",\"all_brands\":".toList ++ word all_brands
    ++ ",\"member_id\":".toList ++ Json.quote member_id.toList ++ ",\"v\":1\x7d".toList

/-- The first microsecond of the year 10000, which RFC 3339 cannot write. -/
def year_10000 : ℤ := 253402300800000000

/-- What the code relies on of `serde_json` and `chrono`: a payload that was written is
read back; a time that was written is read back as that time, if it is read; and the
times that RFC 3339 has are read. -/
structure Crates where
  from_slice : List UInt8 → Option EncodedAcceptedCursor
  to_rfc3339_opts : ℤ → String
  parse_from_rfc3339 : String → Option ℤ
  from_slice_payload : ∀ all_brands accepted_at account_id member_id,
    from_slice (Json.bytes (payload all_brands accepted_at account_id member_id))
      = some ⟨1, all_brands, accepted_at, account_id, member_id⟩
  parse_sound : ∀ t t', parse_from_rfc3339 (to_rfc3339_opts t) = some t' → t' = t
  parse_complete : ∀ t, 0 ≤ t → t < year_10000 →
    parse_from_rfc3339 (to_rfc3339_opts t) = some t
  rfc3339_short : ∀ t, 0 ≤ t → t < year_10000 → (to_rfc3339_opts t).utf8ByteSize ≤ 64

def invalid_accepted_cursor : Error :=
  .new 400 "INVALID_CURSOR" "sinceCursor must be a valid accepted-relations cursor."

def valid_cursor_identifier (value : String) (allow_empty : Bool) : Bool :=
  (allow_empty || !value.isEmpty) && decide (value.utf8ByteSize ≤ INPUT_STRING_MAX_BYTES)
    && !contains_nul value

def parse_accepted_cursor (k : Crates) (value scope : String) : Except Error AcceptedCursor :=
  if value.isEmpty then .ok ⟨0, "", "", true⟩
  else if ACCEPTED_CURSOR_MAX_LEN < value.utf8ByteSize then .error invalid_accepted_cursor
  else match value.toList with
  | 'v' :: '1' :: '.' :: encoded =>
    match Base64.decode encoded with
    | none => .error invalid_accepted_cursor
    | some bytes =>
      match k.from_slice bytes with
      | none => .error invalid_accepted_cursor
      | some parsed =>
        if parsed.v ≠ 1 ∨ parsed.all_brands ≠ scope.isEmpty
            ∨ valid_cursor_identifier parsed.account_id scope.isEmpty = false
            ∨ valid_cursor_identifier parsed.member_id false = false
            ∨ (scope.isEmpty = false ∧ parsed.account_id ≠ scope) then
          .error invalid_accepted_cursor
        else match k.parse_from_rfc3339 parsed.accepted_at with
          | none => .error invalid_accepted_cursor
          | some accepted_at => .ok ⟨accepted_at, parsed.account_id, parsed.member_id, false⟩
  | _ =>
    -- A timestamp of the time before cursors had a tie-breaker.
    match k.parse_from_rfc3339 value with
    | none => .error invalid_accepted_cursor
    | some accepted_at => .ok ⟨accepted_at, "", "", true⟩

def encode_accepted_cursor (k : Crates) (scope account_id member_id : String)
    (accepted_at : ℤ) : String :=
  String.ofList ('v' :: '1' :: '.' :: Base64.encode
    (Json.bytes (payload scope.isEmpty (k.to_rfc3339_opts accepted_at) account_id member_id)))

/-! ## What is encoded is parsed -/

variable {k : Crates}

variable (scope account_id member_id : String) (accepted_at : ℤ)

theorem toList_encode : (encode_accepted_cursor k scope account_id member_id accepted_at).toList
      = 'v' :: '1' :: '.' :: Base64.encode (Json.bytes
        (payload scope.isEmpty (k.to_rfc3339_opts accepted_at) account_id member_id)) := by
  rw [encode_accepted_cursor, String.toList_ofList]

theorem size_encode : (encode_accepted_cursor k scope account_id member_id accepted_at).utf8ByteSize
      = 3 + (4 * (Json.bytes (payload scope.isEmpty (k.to_rfc3339_opts accepted_at)
        account_id member_id)).length + 2) / 3 := by
  rw [← Json.length_bytes_toList, toList_encode]
  have hpre : ∀ l : List Char, Json.bytes ('v' :: '1' :: '.' :: l)
      = Json.bytes ['v', '1', '.'] ++ Json.bytes l := fun l =>
      Json.bytes_append ['v', '1', '.'] l
  rw [hpre, List.length_append,
    Json.length_plain fun c hc => (Base64.alphabet_plain (Base64.mem_encode hc)).1,
    Base64.length_encode]
  rfl

theorem length_frame {a b c d e flag : List Char} {s t u : String}
    (h : (Json.bytes a).length + (Json.bytes b).length + (Json.bytes c).length
      + (Json.bytes flag).length + (Json.bytes d).length + (Json.bytes e).length ≤ 68) :
    (Json.bytes (a ++ Json.quote s.toList ++ b ++ Json.quote t.toList ++ c ++ flag ++ d
      ++ Json.quote u.toList ++ e)).length
      ≤ 6 * (s.utf8ByteSize + t.utf8ByteSize + u.utf8ByteSize) + 74 := by
  have hquote : ∀ s : String, (Json.bytes (Json.quote s.toList)).length
      ≤ 6 * s.utf8ByteSize + 2 := by
    intro s
    rw [← Json.length_bytes_toList]
    exact Json.length_quote s.toList
  have hs := hquote s
  have ht := hquote t
  have hu := hquote u
  simp only [Json.bytes_append, List.length_append]
  omega

theorem length_payload {accepted_at account_id member_id : String} {all_brands : Bool}
    (ht : accepted_at.utf8ByteSize ≤ 64)
    (ha : account_id.utf8ByteSize ≤ INPUT_STRING_MAX_BYTES)
    (hm : member_id.utf8ByteSize ≤ INPUT_STRING_MAX_BYTES) :
    (Json.bytes (payload all_brands accepted_at account_id member_id)).length
      ≤ 2 * INPUT_STRING_MAX_BYTES * 6 + ACCEPTED_CURSOR_JSON_OVERHEAD := by
  have hframe : (Json.bytes (payload all_brands accepted_at account_id member_id)).length
      ≤ 6 * (accepted_at.utf8ByteSize + account_id.utf8ByteSize + member_id.utf8ByteSize)
        + 74 := by
    apply length_frame
    cases all_brands <;> decide
  rw [ACCEPTED_CURSOR_JSON_OVERHEAD]
  omega

/-- **A cursor that was handed out is within the limit.** -/
theorem size_encode_le {scope account_id member_id : String} {accepted_at : ℤ}
    (ht : 0 ≤ accepted_at) (ht' : accepted_at < year_10000)
    (ha : account_id.utf8ByteSize ≤ INPUT_STRING_MAX_BYTES)
    (hm : member_id.utf8ByteSize ≤ INPUT_STRING_MAX_BYTES) :
    (encode_accepted_cursor k scope account_id member_id accepted_at).utf8ByteSize
      ≤ ACCEPTED_CURSOR_MAX_LEN := by
  have hpayload := @length_payload _ account_id member_id scope.isEmpty
    (k.rfc3339_short accepted_at ht ht') ha hm
  rw [size_encode, ACCEPTED_CURSOR_MAX_LEN]
  omega

theorem encode_no_nul :
    contains_nul (encode_accepted_cursor k scope account_id member_id accepted_at) = false := by
  rw [contains_nul, toList_encode, List.any_eq_false]
  intro c hc hnul
  have heq : c = Char.ofNat 0 := by simpa using hnul
  simp only [List.mem_cons] at hc
  rcases hc with rfl | rfl | rfl | hc
  · revert heq
    decide
  · revert heq
    decide
  · revert heq
    decide
  · exact (Base64.alphabet_plain (Base64.mem_encode hc)).2 heq

theorem cursor_encode {scope account_id member_id : String} {accepted_at : ℤ}
    (ht : 0 ≤ accepted_at) (ht' : accepted_at < year_10000)
    (ha : account_id.utf8ByteSize ≤ INPUT_STRING_MAX_BYTES)
    (hm : member_id.utf8ByteSize ≤ INPUT_STRING_MAX_BYTES) :
    cursor (.text (encode_accepted_cursor k scope account_id member_id accepted_at))
      = .ok (encode_accepted_cursor k scope account_id member_id accepted_at) := by
  rw [cursor, if_pos ⟨size_encode_le ht ht' ha hm, encode_no_nul _ _ _ _⟩]

theorem encode_ne_empty :
    (encode_accepted_cursor k scope account_id member_id accepted_at).isEmpty = false := by
  rw [Bool.eq_false_iff]
  intro hempty
  rw [String.isEmpty_iff] at hempty
  have hlist := toList_encode (k := k) scope account_id member_id accepted_at
  rw [hempty] at hlist
  cases hlist

theorem parse_encode (scope' account_id member_id : String) (accepted_at : ℤ) :
    parse_accepted_cursor k (encode_accepted_cursor k scope account_id member_id accepted_at)
        scope'
      = if ACCEPTED_CURSOR_MAX_LEN
            < (encode_accepted_cursor k scope account_id member_id accepted_at).utf8ByteSize then
          .error invalid_accepted_cursor
        else if scope.isEmpty ≠ scope'.isEmpty
            ∨ valid_cursor_identifier account_id scope'.isEmpty = false
            ∨ valid_cursor_identifier member_id false = false
            ∨ (scope'.isEmpty = false ∧ account_id ≠ scope') then
          .error invalid_accepted_cursor
        else match k.parse_from_rfc3339 (k.to_rfc3339_opts accepted_at) with
          | none => .error invalid_accepted_cursor
          | some t => .ok ⟨t, account_id, member_id, false⟩ := by
  rw [parse_accepted_cursor, encode_ne_empty, if_neg (by decide)]
  split
  next => rfl
  next =>
    simp only [toList_encode, Base64.decode_encode, k.from_slice_payload, ne_eq,
      not_true_eq_false, false_or]

end Appcall.Provider
