/-
What is taken out of a provider's error: `redactCredentialDetail`.

The values of the credential fields are looked for in all their spellings. The text of a Basic
credential is looked for as it is: its base64 may have characters that a URL writes otherwise.
`scrubs_iff` says that this is all that can go wrong; a text that is replaced first leaves no
other one whole, as `Runner/Redact` shows for the longest first.
-/
import Appcall.Declarative.Template
import Appcall.Lib.Base64
import Appcall.Lib.Query
import Appcall.Runner.Redact

set_option autoImplicit false

namespace Appcall.Declarative

open Redact (Spelled Hides Plain spellings longest_first lower_escapes REDACTED marker)
open Replace (replace)

/-! ## The source -/

/-- `DeclarativeSetupField` -/
structure SetupField where
  key : String
  secret : Bool

/-- `auth.setup` of a manifest; `derive` has the fields that are derived, where they are named. -/
structure Setup where
  fields : List SetupField
  routes : List (List SetupField)
  derive : List (Option String)

/-- `http.auth`, with the templates of a Basic credential. -/
structure Auth where
  field : Option String
  basic : Option (List Char × List Char)

/-- The names of the fields that hold credentials. -/
def credential_keys (setup : Setup) (auth : Auth) : List String :=
  ((setup.fields ++ setup.routes.flatten).filter SetupField.secret).map SetupField.key
    ++ (auth.field.filter (fun field => field != "")).toList ++ setup.derive.filterMap id

variable {ν : Type}

/-- The input of a call, once for the templates and once with the texts among its fields in
16-bit units. A lone surrogate of a text is U+FFFD in `fields`, as it is in UTF-8. -/
structure Input (ν : Type) where
  fields : Fields ν
  texts : List (String × List UInt16)

/-- The input of these fields, of which no text has a lone surrogate. -/
def Input.whole (fields : Fields ν) : Input ν :=
  ⟨fields, fields.filterMap fun f =>
    match f.2 with
    | .string s => some (f.1, Utf16.encode s.toList)
    | _ => none⟩

/-- The texts in the credential fields of an input. -/
def credential_values (keys : List String) (input : Input ν) : List (List UInt16) :=
  keys.filterMap fun key => (input.texts.lookup key).filter fun value => !value.isEmpty

/-- `toString("base64")` -/
def to_base64 (bytes : List UInt8) : List Char :=
  let digits := (Base64.encode bytes).map fun c =>
    if c = '-' then '+' else if c = '_' then '/' else c
  digits ++ List.replicate ((4 - digits.length % 4) % 4) '='

/-- A text, if the template renders to one. -/
def Js.as_text : Js ν → Option (List Char)
  | .value (.string s) => some s.toList
  | _ => none

/-- The base64 of the rendered user name and password. -/
def basic_credential (E : Engine ν) (auth : Auth) (input : Fields ν) :
    Except Thrown (Option (List Char)) :=
  match auth.basic with
  | none => .ok none
  | some (username, password) => do
    let username ← render_string E username input
    let password ← render_string E password input
    .ok (match username.as_text, password.as_text with
      | some username, some password => some (to_base64 (Json.bytes (username ++ ':' :: password)))
      | _, _ => none)

/-- The texts that stand for a Basic credential. -/
def basic_variants (encoded : Option (List Char)) : List (List UInt16) :=
  encoded.toList.flatMap fun encoded =>
    [Utf16.encode encoded, Utf16.encode ("Basic ".toList ++ encoded)]

def redact_credential_detail (E : Engine ν) (detail : List UInt16) (setup : Setup) (auth : Auth)
    (input : Input ν) : Except Thrown (List UInt16) := do
  let encoded ← basic_credential E auth input.fields
  let variants := (credential_values (credential_keys setup auth) input).flatMap spellings
    ++ basic_variants encoded
  .ok ((longest_first variants).foldl (fun message value => replace value REDACTED message) detail)

/-! ## What is hidden -/

/-- Every spelling of a Basic credential has a part that is looked for: the base64 itself, or a
spelling of the value of a credential field. -/
def Guarded (values : List (List UInt16)) (encoded : List UInt16) : Prop :=
  ∀ v, Spelled encoded v → encoded <:+: v ∨ ∃ value ∈ values, ∃ w, Spelled value w ∧ w <:+: v

theorem mem_base64 {bytes : List UInt8} {c : Char} (h : c ∈ to_base64 bytes) :
    c ∈ Base64.alphabet ∨ c ∈ ['+', '/', '='] := by
  rw [to_base64, List.mem_append] at h
  rcases h with h | h
  · obtain ⟨d, hd, rfl⟩ := List.mem_map.mp h
    split_ifs
    · exact .inr (by decide)
    · exact .inr (by decide)
    · exact .inl (Base64.mem_encode hd)
  · rw [List.eq_of_mem_replicate h]
    exact .inr (by decide)

/-- Where the two alphabets agree and nothing is padded, the digits are the same. -/
theorem base64_eq_encode {bytes : List UInt8} (h : ∀ c ∈ to_base64 bytes, c ∉ ['+', '/', '=']) :
    to_base64 bytes = Base64.encode bytes := by
  rw [to_base64] at h ⊢
  have hpadding : ∀ n : ℕ, (∀ c ∈ List.replicate n '=', c ∉ ['+', '/', '=']) → n = 0 := by
    intro n hnone
    by_contra hn
    exact hnone '=' (List.mem_replicate.mpr ⟨hn, rfl⟩) (by decide)
  rw [hpadding _ fun c hc => h c (List.mem_append_right _ hc), List.replicate_zero, List.append_nil]
  refine (List.map_congr_left fun c hc => ?_).trans (List.map_id _)
  have hown := h _ (List.mem_append_left _ (List.mem_map_of_mem hc))
  split_ifs at hown ⊢
  · exact absurd hown (by decide)
  · exact absurd hown (by decide)
  · rfl

/-- No part of the marker is the base64 of a text with a colon. -/
theorem marker_no_colon : ∀ w ∈ "[REDACTED]".toList.tails.flatMap List.inits,
    ∀ bytes ∈ Base64.decode w, 58 ∉ bytes := by
  decide

theorem plain_base64 {bytes : List UInt8} (hcolon : 58 ∈ bytes) :
    Plain (Utf16.encode (to_base64 bytes)) := by
  have hascii : (Base64.alphabet ++ ['+', '/', '=']).all
      (fun c => c.toNat < 128 ∧ c ≠ '[' ∧ c ≠ ']') = true := by
    decide
  have hplain : ∀ c ∈ to_base64 bytes, c.toNat < 128 ∧ c ≠ '[' ∧ c ≠ ']' := fun c hc =>
    of_decide_eq_true (List.all_eq_true.mp hascii c (List.mem_append.mpr (mem_base64 hc)))
  refine ⟨fun h => ?_, fun h => ?_, fun h => ?_⟩
  · exact (hplain _ (Utf16.mem_encode (by decide) h)).2.1 rfl
  · exact (hplain _ (Utf16.mem_encode (by decide) h)).2.2 rfl
  · -- a part of the marker is the base64 of what it decodes to
    have hpart := h.map (fun u => Char.ofNat u.toNat)
    rw [Utf16.map_encode fun c hc => (hplain c hc).1] at hpart
    change to_base64 bytes <:+: "[REDACTED]".toList at hpart
    have hletters : "[REDACTED]".toList.all (fun c => c ∉ ['+', '/', '=']) = true := by decide
    have hdecode : Base64.decode (to_base64 bytes) = some bytes := by
      rw [base64_eq_encode fun c hc =>
        of_decide_eq_true (List.all_eq_true.mp hletters c (hpart.subset hc))]
      exact Base64.decode_encode bytes
    obtain ⟨t, hprefix, hsuffix⟩ := List.infix_iff_prefix_suffix.mp hpart
    exact marker_no_colon _ (List.mem_flatMap.mpr ⟨t, (List.mem_tails _ _).mpr hsuffix,
      (List.mem_inits _ _).mpr hprefix⟩) bytes hdecode hcolon

variable {E : Engine ν} {input : Input ν} {encoded : Option (List Char)}

theorem basic_credential_plain {auth : Auth} {encoded : List Char}
    (h : basic_credential E auth input.fields = .ok (some encoded)) :
    '%' ∉ encoded ∧ Plain (Utf16.encode encoded) := by
  rw [basic_credential] at h
  split at h
  · cases h
  · obtain ⟨username, -, h⟩ := bind_eq_ok h
    obtain ⟨password, -, h⟩ := bind_eq_ok h
    split at h
    next user word _ _ =>
      cases h
      refine ⟨fun hmem => ?_, plain_base64 ?_⟩
      · have hpercent := List.mem_append.mpr (mem_base64 hmem)
        revert hpercent
        decide
      · rw [Json.bytes_append, List.mem_append]
        exact .inr List.mem_cons_self
    · cases h

theorem mem_longest {values : List (List UInt16)} (hascii : ∀ e ∈ encoded, '%' ∉ e)
    {w : List UInt16} : w ∈ longest_first (values.flatMap spellings ++ basic_variants encoded)
      ↔ (∃ value ∈ values, Spelled value w)
        ∨ ∃ e ∈ encoded, w = Utf16.encode e ∨ w = Utf16.encode ("Basic ".toList ++ e) := by
  have hbasic : ∀ v ∈ basic_variants encoded, lower_escapes v = v := by
    intro v hv
    obtain ⟨e, he, hv⟩ := List.mem_flatMap.mp hv
    have hpercent := hascii e (Option.mem_toList.mp he)
    refine Redact.lower_escapes_eq_self fun hmem => ?_
    rcases List.mem_pair.mp hv with rfl | rfl
    · exact hpercent (Utf16.mem_encode (by decide) hmem)
    · rcases List.mem_append.mp (Utf16.mem_encode (by decide) hmem) with hmem | hmem
      · exact absurd hmem (by decide)
      · exact hpercent hmem
  have hmem : w ∈ basic_variants encoded
      ↔ ∃ e ∈ encoded, w = Utf16.encode e ∨ w = Utf16.encode ("Basic ".toList ++ e) := by
    simp only [basic_variants, List.mem_flatMap, Option.mem_toList, Option.mem_def, List.mem_pair]
  rw [Redact.mem_longest_first, ← hmem]
  simp only [List.mem_append, List.mem_flatMap]
  constructor
  · rintro ((⟨value, hvalue, hw⟩ | hw) | ⟨v, ⟨value, hvalue, hv⟩ | hv, rfl⟩)
    · exact .inl ⟨value, hvalue, .inl hw⟩
    · exact .inr hw
    · exact .inl ⟨value, hvalue, .inr ⟨v, hv, rfl⟩⟩
    · exact .inr (by rwa [hbasic v hv])
  · rintro (⟨value, hvalue, hw | ⟨v, hv, rfl⟩⟩ | hw)
    · exact .inl (.inl ⟨value, hvalue, hw⟩)
    · exact .inr ⟨v, .inl ⟨value, hvalue, hv⟩, rfl⟩
    · exact .inl (.inr hw)

theorem redact_eq {setup : Setup} {auth : Auth}
    (h : basic_credential E auth input.fields = .ok encoded)
    (detail : List UInt16) : redact_credential_detail E detail setup auth input
      = .ok ((longest_first ((credential_values (credential_keys setup auth) input).flatMap
        spellings ++ basic_variants encoded)).foldl
          (fun message value => replace value REDACTED message) detail) := by
  rw [redact_credential_detail, h]
  rfl

theorem redact_eq_self {setup : Setup} {auth : Auth}
    (h : basic_credential E auth input.fields = .ok encoded) {detail : List UInt16}
    (hnot : ∀ e ∈ encoded, ¬Utf16.encode e <:+: detail)
    (hvalues : ∀ value ∈ credential_values (credential_keys setup auth) input, ∀ w,
      Spelled value w → ¬w <:+: detail) :
    redact_credential_detail E detail setup auth input = .ok detail := by
  have hascii : ∀ e ∈ encoded, '%' ∉ e := by
    intro e he
    rw [Option.mem_def.mp he] at h
    exact (basic_credential_plain h).1
  rw [redact_eq h, Replace.foldl_eq_self]
  intro w hw hinfix
  rcases (mem_longest hascii).mp hw with ⟨value, hvalue, hw⟩ | ⟨e, he, hw⟩
  · exact hvalues value hvalue w hw hinfix
  · refine hnot e he (List.IsInfix.trans ?_ hinfix)
    rcases hw with rfl | rfl
    · exact List.infix_rfl
    · rw [Utf16.encode_append]
      exact (List.suffix_append _ _).isInfix

/-- What the two functions are to hide: the secrets of a run, and the values of the credential
fields together with the Basic credential. -/
structure Scrubs (E : Engine ν) (setup : Setup) (auth : Auth) (input : Input ν)
    (encoded : Option (List Char)) : Prop where
  text : ∀ (secrets : List (List UInt16)) (text secret : List UInt16), secret ∈ secrets →
    Plain secret → Hides (Redact.redact_text secrets text) secret
  detail : ∀ detail out, redact_credential_detail E detail setup auth input = .ok out →
    (∀ value ∈ credential_values (credential_keys setup auth) input, Hides out value)
      ∧ ∀ e ∈ encoded, Hides out (Utf16.encode e)

/-- **Credentials are hidden exactly if the Basic credential is guarded in all its spellings.** -/
theorem scrubs_iff (E : Engine ν) (setup : Setup) (auth : Auth) (input : Input ν)
    (encoded : Option (List Char)) (hencoded : basic_credential E auth input.fields = .ok encoded)
    (hvalues : ∀ value ∈ credential_values (credential_keys setup auth) input, Plain value) :
    Scrubs E setup auth input encoded
      ↔ ∀ e ∈ encoded, Guarded (credential_values (credential_keys setup auth) input)
        (Utf16.encode e) := by
  have hplain : ∀ e ∈ encoded, '%' ∉ e ∧ Plain (Utf16.encode e) := by
    intro e he
    rw [Option.mem_def.mp he] at hencoded
    exact basic_credential_plain hencoded
  constructor
  · intro h e he v hv
    by_contra hnot
    rw [not_or] at hnot
    -- nothing that is looked for is in this spelling, which is left as it is
    have hself : redact_credential_detail E v setup auth input = .ok v := by
      refine redact_eq_self hencoded ?_ ?_
      · intro e' he' hinfix
        cases Option.mem_unique he he'
        exact hnot.1 hinfix
      · intro value hvalue w hw hinfix
        exact hnot.2 ⟨value, hvalue, w, hw, hinfix⟩
    exact (h.detail v v hself).2 e he v hv List.infix_rfl
  · intro h
    refine ⟨fun secrets text secret hsecret hplain =>
      Redact.redact_text_hides hsecret hplain text, fun detail out hout => ?_⟩
    rw [redact_eq hencoded] at hout
    cases hout
    have hgone : ∀ value ∈ credential_values (credential_keys setup auth) input, ∀ w,
        Spelled value w → ¬w <:+: (longest_first ((credential_values
          (credential_keys setup auth) input).flatMap spellings ++ basic_variants encoded)).foldl
            (fun message value => replace value REDACTED message) detail := by
      intro value hvalue w hw
      exact Replace.not_infix_foldl (Redact.foreign_spelled (hvalues value hvalue) hw)
        ((mem_longest fun e he => (hplain e he).1).mpr (.inl ⟨value, hvalue, hw⟩)) detail
    refine ⟨hgone, fun e he v hv hinfix => ?_⟩
    rcases h e he v hv with hguard | ⟨value, hvalue, w, hw, hguard⟩
    · exact Replace.not_infix_foldl (Redact.foreign_iff.mpr (hplain e he).2)
        ((mem_longest fun e he => (hplain e he).1).mpr (.inr ⟨e, he, .inl rfl⟩))
        detail (hguard.trans hinfix)
    · exact hgone value hvalue w hw (hguard.trans hinfix)

namespace Sample

def setup : Setup := ⟨[⟨"user", false⟩, ⟨"password", true⟩], [], []⟩

def auth : Auth := ⟨some "password", some ("\x7b\x7buser\x7d\x7d".toList,
  "\x7b\x7bpassword\x7d\x7d".toList)⟩

/-- The base64 of `abc:de` has letters only. -/
def plain_input : Input ℕ :=
  .whole [("user", .string "abc"), ("password", .string "de")]

/-- The base64 of `abc:de` has no padding, and no spelling of it is shown. -/
theorem plain_scrubbed : Scrubs engine setup auth plain_input (some "YWJjOmRl".toList) := by
  refine (scrubs_iff engine setup auth plain_input (some "YWJjOmRl".toList)
    (by decide) ?_).mpr ?_
  · have hvalues : credential_values (credential_keys setup auth) plain_input
        = [Utf16.encode "de".toList, Utf16.encode "de".toList] := by decide
    rw [hvalues]
    intro value hvalue
    rw [List.mem_pair, or_self] at hvalue
    subst hvalue
    exact ⟨by decide, by decide, by decide⟩
  · rintro e ⟨⟩ v hv
    have hown : ∀ u ∈ spellings (Utf16.encode "YWJjOmRl".toList),
        u = Utf16.encode "YWJjOmRl".toList ∧ lower_escapes u = u := by decide
    left
    rcases hv with hv | ⟨u, hu, rfl⟩
    · rw [(hown v hv).1]
    · rw [(hown u hu).2, (hown u hu).1]

/-- The base64 of `ab:c` ends with two signs. -/
def padded_input : Input ℕ :=
  .whole [("user", .string "ab"), ("password", .string "c")]

/-- The base64 with its padding percent-encoded is shown. -/
theorem padding_shown :
    basic_credential engine auth padded_input.fields = .ok (some "YWI6Yw==".toList)
      ∧ (∀ value ∈ credential_values (credential_keys setup auth) padded_input, Plain value)
      ∧ Plain (Utf16.encode "YWI6Yw==".toList)
      ∧ redact_credential_detail engine (Utf16.encode "YWI6Yw%3D%3D".toList) setup auth padded_input
        = .ok (Utf16.encode "YWI6Yw%3D%3D".toList)
      ∧ ¬Hides (Utf16.encode "YWI6Yw%3D%3D".toList) (Utf16.encode "YWI6Yw==".toList) := by
  have hbasic : basic_credential engine auth padded_input.fields
      = .ok (some "YWI6Yw==".toList) := by
    decide
  have hvalues : credential_values (credential_keys setup auth) padded_input
      = [Utf16.encode "c".toList, Utf16.encode "c".toList] := by decide
  refine ⟨hbasic, ?_, (basic_credential_plain hbasic).2, redact_eq_self hbasic ?_ ?_,
    fun h => h _ (.inl ?_) List.infix_rfl⟩
  · rw [hvalues]
    intro value hvalue
    rw [List.mem_pair, or_self] at hvalue
    subst hvalue
    exact ⟨by decide, by decide, by decide⟩
  · rintro e ⟨⟩
    decide
  · have hown : ∀ u ∈ spellings (Utf16.encode "c".toList),
        ¬u <:+: Utf16.encode "YWI6Yw%3D%3D".toList ∧ lower_escapes u = u := by decide
    rw [hvalues]
    intro value hvalue w hw
    rw [List.mem_pair, or_self] at hvalue
    subst hvalue
    rcases hw with hw | ⟨u, hu, rfl⟩
    · exact (hown w hw).1
    · rw [(hown u hu).2]
      exact (hown u hu).1
  · decide

end Sample

end Appcall.Declarative
