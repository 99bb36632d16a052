/-
What is kept of an input for a replay: `crates/appcall-actions/src/history.rs`.

The names of credential fields are compared without case, by the tables of Unicode, and
secrets are also looked for as forms would write them; both are parameters. The order of an
object's fields is no part of it: of fields that come to have one name, the last is kept.
-/
import Appcall.Lib.Alike
import Appcall.Lib.Chars
import Appcall.Lib.Json
import Appcall.Lib.Replace

set_option autoImplicit false

namespace Appcall.Actions.Replay

open Chars (hex_upper byte_cases)
open Replace (replace)

/-! ## Secrets -/

def marker : Replace.Marker Char := ⟨'[', ['R', 'E', 'D', 'A', 'C', 'T', 'E', 'D'], ']'⟩

def REDACTED : List Char := "[REDACTED]".toList

/-- `to_ascii_lowercase` of the two bytes after each `%`, of which `pending` are to come.
A character beyond ASCII is more than one byte, and stays as it is. -/
def lowercase : ℕ → List Char → List Char
  | _, [] => []
  | pending, c :: text =>
    (if 0 < pending then c.toLower else c) :: lowercase
      (if c = '%' ∧ 2 ≤ (Json.bytes text).length then 2 else pending - c.utf8Size) text

def dedup : List (List Char) → List (List Char)
  | a :: b :: l => if a = b then dedup (b :: l) else a :: dedup (b :: l)
  | l => l

section Variants

variable (byte_serialize : List UInt8 → List Char)

def variants_of (value : List Char) : List (List Char) :=
  let encoded := byte_serialize (Json.bytes value)
  [value, value.flatMap Json.escape_char, replace ['+'] ['%', '2', '0'] encoded, encoded]

def secret_variants (secrets : List String) : List (List Char) :=
  let variants := ((secrets.filter (fun v => !v.isEmpty)).map String.toList).flatMap
    (variants_of byte_serialize)
  let variants := variants ++ variants.map (lowercase 0)
  dedup (variants.mergeSort (fun a b => decide ((Json.bytes b).length ≤ (Json.bytes a).length)))

end Variants

/-! ## Where secrets come from -/

section Credentials

variable {ν : Type}

mutual

/-- `collect` of `credential_values`: `none` if there is too much. -/
def gather (depth : ℕ) (out : List String) : Value ν → Option (List String)
  | .string s =>
    if 32 < depth ∨ 128 < out.length then none
    else if s = "" then some out
    else if out.length + 1 ≤ 128 then some (out ++ [s])
    else none
  | .object fields =>
    if 32 < depth ∨ 128 < out.length then none else gather_fields depth out fields
  | .array values =>
    if 32 < depth ∨ 128 < out.length then none else gather_items depth out values
  | .null => if 32 < depth ∨ 128 < out.length then none else some out
  | .bool _ => if 32 < depth ∨ 128 < out.length then none else some out
  | .number _ => if 32 < depth ∨ 128 < out.length then none else some out
termination_by structural v => v

def gather_items (depth : ℕ) (out : List String) : List (Value ν) → Option (List String)
  | [] => some out
  | v :: values => (gather (depth + 1) out v).bind (fun out => gather_items depth out values)
termination_by structural values => values

def gather_fields (depth : ℕ) (out : List String) :
    List (String × Value ν) → Option (List String)
  | [] => some out
  | (_, v) :: fields => (gather (depth + 1) out v).bind (fun out => gather_fields depth out fields)
termination_by structural fields => fields

end

/-- The fields of the credentials are walked one by one, each from depth zero. -/
def credential_values (fields : List (String × Value ν)) (caller : String) :
    Option (List String) :=
  fields.foldlM (fun out f => gather 0 out f.2) (if caller = "" then [] else [caller])

end Credentials

/-! ## Names -/

section Names

variable (to_lowercase : Char → List Char)

def normalized (key : String) : List Char :=
  (key.toList.filter (fun c => !(c == '_' || c == '-' || c == '.'))).flatMap to_lowercase

def words : List String :=
  ["apikey", "token", "authorization", "cookie", "password", "secret", "credential"]

def credential_field (key : String) (fields : List String) : Bool :=
  fields.any (fun f => normalized to_lowercase f == normalized to_lowercase key)
    || words.any (fun part => decide (part.toList <:+: normalized to_lowercase key))

end Names

/-! ## Cleaning -/

/-- What cleaning depends on, besides the input. -/
structure Rules where
  to_lowercase : Char → List Char
  byte_serialize : List UInt8 → List Char
  connector : String
  fields : List String

section Clean

variable {ν : Type}

/-- Of fields of one name, the last stays. -/
def collect : List (String × Value ν) → List (String × Value ν)
  | [] => []
  | f :: fields => if f.1 ∈ fields.map Prod.fst then collect fields else f :: collect fields

def text (variants : List (List Char)) (value : String) : String :=
  String.ofList (variants.foldl (fun out secret => replace secret REDACTED out) value.toList)

variable (rules : Rules)

/-- The account of Unipile is left out. -/
def dropped (key : String) : Bool := rules.connector == "unipile" && key == "account_id"

def credential (key : String) : Bool := credential_field rules.to_lowercase key rules.fields

variable (variants : List (List Char))

mutual

def clean (depth : ℕ) : Value ν → Value ν
  | .object map =>
    if 32 < depth then .null else .object (collect (clean_fields depth map))
  | .array values => if 32 < depth then .null else .array (clean_items depth values)
  | .string value => if 32 < depth then .null else .string (text variants value)
  | .null => .null
  | .bool b => if 32 < depth then .null else .bool b
  | .number n => if 32 < depth then .null else .number n
termination_by structural v => v

def clean_items (depth : ℕ) : List (Value ν) → List (Value ν)
  | [] => []
  | v :: values => clean (depth + 1) v :: clean_items depth values
termination_by structural values => values

def clean_fields (depth : ℕ) : List (String × Value ν) → List (String × Value ν)
  | [] => []
  | (key, value) :: map =>
    if dropped rules key then clean_fields depth map
    else
      (text variants key,
        if credential rules key then .string (String.ofList REDACTED)
        else clean (depth + 1) value) :: clean_fields depth map
termination_by structural map => map

end

def sanitize_replay_input (input : Value ν) (secrets : Option (List String)) : Value ν :=
  match secrets with
  | none => .null
  | some secrets =>
    if 128 < secrets.length then .null
    else clean rules (secret_variants rules.byte_serialize secrets) 0 input

end Clean

/-! ## The forms of a secret -/

/-- The bytes that forms leave alone: letters, digits and `*`, `-`, `.`, `_`. -/
def unreserved (b : UInt8) : Bool :=
  (48 ≤ b && b ≤ 57) || (65 ≤ b && b ≤ 90) || (97 ≤ b && b ≤ 122)
    || b == 42 || b == 45 || b == 46 || b == 95

/-- How a form writes a byte, with its digits and its space. -/
def form_byte (hex : ℕ → Char) (space : List Char) (b : UInt8) : List Char :=
  if unreserved b then [Char.ofNat b.toNat]
  else if b = 32 then space
  else ['%', hex (b.toNat / 16), hex (b.toNat % 16)]

def form (hex : ℕ → Char) (space secret : List Char) : List Char :=
  (Json.bytes secret).flatMap (form_byte hex space)

/-- What the crate says of `byte_serialize`: a space is a `+`, and escapes are in upper case. -/
def FormUrlencoded (byte_serialize : List UInt8 → List Char) : Prop :=
  ∀ bytes, byte_serialize bytes = bytes.flatMap (form_byte hex_upper ['+'])

/-- A secret as it is, in JSON, and in a form: with `+` or `%20`, in upper or lower case. -/
def forms (secret : List Char) : List (List Char) :=
  [secret, secret.flatMap Json.escape_char, form hex_upper ['+'] secret,
    form hex_upper ['%', '2', '0'] secret, form Json.hex ['+'] secret,
    form Json.hex ['%', '2', '0'] secret]

/-! ## Every form is a variant -/

theorem mem_dedup {l : List (List Char)} {a : List Char} : a ∈ dedup l ↔ a ∈ l := by
  fun_induction dedup l with
  | case1 b l ih => rw [ih, List.mem_cons (b := b) (l := b :: l)]; simp
  | case2 b c l hne ih => rw [List.mem_cons, ih, List.mem_cons (b := b)]
  | case3 l hl => exact Iff.rfl

/-- A byte is written without brackets, and as itself or with a character of its own. -/
def Apart (hex : ℕ → Char) (space : List Char) (b : UInt8) : Prop :=
  ('[' ∉ form_byte hex space b ∧ ']' ∉ form_byte hex space b)
    ∧ (Json.bytes (form_byte hex space b) = [b] ∨ '%' ∈ form_byte hex space b
      ∨ '+' ∈ form_byte hex space b)

instance (hex : ℕ → Char) (space : List Char) (b : UInt8) : Decidable (Apart hex space b) :=
  inferInstanceAs (Decidable (_ ∧ _))

theorem byte_spec : ∀ b : UInt8, ((form_byte hex_upper ['+'] b).flatMap
      (fun d => if d = '+' then ['%', '2', '0'] else [d]) = form_byte hex_upper ['%', '2', '0'] b)
    ∧ (unreserved b = true → Char.ofNat b.toNat ≠ '%')
    ∧ Apart hex_upper ['+'] b ∧ Apart hex_upper ['%', '2', '0'] b
    ∧ Apart Json.hex ['+'] b ∧ Apart Json.hex ['%', '2', '0'] b := byte_cases (by decide +kernel)

theorem replace_form (secret : List Char) :
    replace ['+'] ['%', '2', '0'] (form hex_upper ['+'] secret)
      = form hex_upper ['%', '2', '0'] secret := by
  rw [Replace.replace_singleton, form, List.flatMap_assoc, form]
  exact List.flatMap_congr fun b _ => (byte_spec b).1

theorem lowercase_plain {c : Char} (hc : c ≠ '%') (rest : List Char) :
    lowercase 0 (c :: rest) = c :: lowercase 0 rest := by
  rw [lowercase, if_neg (lt_irrefl 0), if_neg fun h => hc h.1, Nat.zero_sub]

theorem lowercase_escape {c d : Char} (hc : c ≠ '%' ∧ c.utf8Size = 1)
    (hd : d ≠ '%' ∧ d.utf8Size = 1) (rest : List Char) :
    lowercase 0 ('%' :: c :: d :: rest) = '%' :: c.toLower :: d.toLower :: lowercase 0 rest := by
  have hlong : 2 ≤ (Json.bytes (c :: d :: rest)).length := by
    rw [Json.length_bytes, List.map_cons, List.map_cons, List.sum_cons, List.sum_cons, hc.2, hd.2]
    omega
  rw [lowercase, if_neg (lt_irrefl 0), if_pos ⟨rfl, hlong⟩, lowercase, if_pos (by decide),
    if_neg fun h => hc.1 h.1, hc.2, lowercase, if_pos (by decide), if_neg fun h => hd.1 h.1, hd.2]

variable {space : List Char} {secret : String} {w : List Char}

theorem lowercase_byte (hspace : space = ['+'] ∨ space = ['%', '2', '0']) (b : UInt8)
    (rest : List Char) : lowercase 0 (form_byte hex_upper space b ++ rest)
      = form_byte Json.hex space b ++ lowercase 0 rest := by
  rw [form_byte, form_byte]
  split_ifs with hplain hspace'
  · exact lowercase_plain ((byte_spec b).2.1 hplain) rest
  · rcases hspace with rfl | rfl
    · exact lowercase_plain (by decide) rest
    · exact lowercase_escape ⟨by decide, by decide⟩ ⟨by decide, by decide⟩ rest
  · have hdigit : ∀ n : Fin 16, (hex_upper n ≠ '%' ∧ (hex_upper n).utf8Size = 1)
        ∧ (hex_upper n).toLower = Json.hex n := by decide
    have hlt := b.toNat_lt
    obtain ⟨hhigh, hhigh'⟩ := hdigit ⟨b.toNat / 16, by omega⟩
    obtain ⟨hlow, hlow'⟩ := hdigit ⟨b.toNat % 16, by omega⟩
    dsimp only at hhigh hhigh' hlow hlow'
    rw [← hhigh', ← hlow']
    exact lowercase_escape hhigh hlow rest

theorem lowercase_form (hspace : space = ['+'] ∨ space = ['%', '2', '0']) (secret : List Char) :
    lowercase 0 (form hex_upper space secret) = form Json.hex space secret := by
  rw [form, form]
  induction Json.bytes secret with
  | nil => rfl
  | cons b bytes ih => rw [List.flatMap_cons, List.flatMap_cons, lowercase_byte hspace, ih]

/-- **Every form of a secret is looked for.** -/
theorem mem_variants {byte_serialize : List UInt8 → List Char}
    (hform : FormUrlencoded byte_serialize) {secrets : List String} (hmem : secret ∈ secrets)
    (hne : secret ≠ "") (hw : w ∈ forms secret.toList) :
    w ∈ secret_variants byte_serialize secrets := by
  have hencoded : byte_serialize (Json.bytes secret.toList) = form hex_upper ['+'] secret.toList :=
    hform _
  have hof : ∀ v ∈ variants_of byte_serialize secret.toList,
      v ∈ ((secrets.filter (fun v => !v.isEmpty)).map String.toList).flatMap
        (variants_of byte_serialize) := by
    intro v hv
    refine List.mem_flatMap.mpr ⟨secret.toList, List.mem_map.mpr ⟨secret, ?_, rfl⟩, hv⟩
    refine List.mem_filter.mpr ⟨hmem, ?_⟩
    rw [Bool.not_eq_true', ← Bool.not_eq_true, String.isEmpty_iff]
    exact hne
  rw [secret_variants, mem_dedup, List.mem_mergeSort, List.mem_append]
  simp only [variants_of, hencoded, replace_form, List.forall_mem_cons] at hof
  obtain ⟨hplain, hjson, hspace, hplus, -⟩ := hof
  simp only [forms, List.mem_cons, List.not_mem_nil, or_false] at hw
  rcases hw with rfl | rfl | rfl | rfl | rfl | rfl
  · exact .inl hplain
  · exact .inl hjson
  · exact .inl hplus
  · exact .inl hspace
  · rw [← lowercase_form (.inl rfl)]
    exact .inr (List.mem_map_of_mem hplus)
  · rw [← lowercase_form (.inr rfl)]
    exact .inr (List.mem_map_of_mem hspace)

/-! ## Every form is foreign to the marker -/

theorem flatMap_plain {f : Char → List Char} {own : Char} {s : List Char}
    (h : ∀ c ∈ s, f c = [c] ∨ own ∈ f c) : s.flatMap f = s ∨ own ∈ s.flatMap f := by
  induction s with
  | nil => exact .inl rfl
  | cons c s ih =>
    rw [List.flatMap_cons, List.mem_append]
    obtain ⟨hc, hs⟩ := List.forall_mem_cons.mp h
    rcases hc with hc | hc
    · rcases ih hs with hs | hs
      · rw [hc, hs]
        exact .inl rfl
      · exact .inr (.inr hs)
    · exact .inr (.inl hc)

/-- A secret without brackets that the marker does not show. -/
def Plain (secret : String) : Prop :=
  '[' ∉ secret.toList ∧ ']' ∉ secret.toList ∧ ¬secret.toList <:+: REDACTED

theorem foreign_iff : Replace.Foreign marker w
    ↔ '[' ∉ w ∧ ']' ∉ w ∧ ¬w <:+: REDACTED := Replace.foreign_iff

theorem not_redacted {c : Char} (hc : c ∉ REDACTED) (hw : c ∈ w) :
    ¬w <:+: REDACTED := fun h => hc (h.subset hw)

theorem foreign_json (h : Plain secret) :
    Replace.Foreign marker (secret.toList.flatMap Json.escape_char) := by
  obtain ⟨hopening, hclosing, hword⟩ := h
  -- no escape has a bracket
  have hbracket : ∀ b, b ∉ Json.escape_alphabet → b ∉ secret.toList →
      b ∉ secret.toList.flatMap Json.escape_char := by
    intro b hb hsecret hmem
    obtain ⟨c, hc, hmem⟩ := List.mem_flatMap.mp hmem
    rcases Json.mem_escape_char hmem with rfl | hmem
    · exact hsecret hc
    · exact hb hmem
  refine foreign_iff.mpr ⟨hbracket _ (by decide) hopening, hbracket _ (by decide) hclosing, ?_⟩
  rcases flatMap_plain fun c _ => Json.escape_char_own c with heq | hmem
  · rw [heq]
    exact hword
  · exact not_redacted (by decide) hmem

theorem foreign_form {hex : ℕ → Char} (h : Plain secret)
    (hapart : ∀ b, Apart hex space b) : Replace.Foreign marker (form hex space secret.toList) := by
  refine foreign_iff.mpr ⟨?_, ?_, ?_⟩
  · intro hmem
    obtain ⟨b, -, hmem⟩ := List.mem_flatMap.mp hmem
    exact (hapart b).1.1 hmem
  · intro hmem
    obtain ⟨b, -, hmem⟩ := List.mem_flatMap.mp hmem
    exact (hapart b).1.2 hmem
  · by_cases hplain : ∀ b ∈ Json.bytes secret.toList, Json.bytes (form_byte hex space b) = [b]
    · -- the form is the secret itself
      have hbytes : Json.bytes (form hex space secret.toList) = Json.bytes secret.toList := by
        rw [form, Json.bytes, List.flatMap_assoc]
        exact (List.flatMap_congr hplain).trans (List.flatMap_singleton' _)
      rw [Json.bytes_inj hbytes]
      exact h.2.2
    · push Not at hplain
      obtain ⟨b, hb, hne⟩ := hplain
      rcases (hapart b).2.resolve_left hne with hmem | hmem
      · exact not_redacted (c := '%') (by decide) (List.mem_flatMap.mpr ⟨b, hb, hmem⟩)
      · exact not_redacted (c := '+') (by decide) (List.mem_flatMap.mpr ⟨b, hb, hmem⟩)

/-- **Every form of a secret is foreign to the marker.** -/
theorem foreign_forms (h : Plain secret) (hw : w ∈ forms secret.toList) :
    Replace.Foreign marker w := by
  simp only [forms, List.mem_cons, List.not_mem_nil, or_false] at hw
  rcases hw with rfl | rfl | rfl | rfl | rfl | rfl
  · exact foreign_iff.mpr h
  · exact foreign_json h
  · exact foreign_form h fun b => (byte_spec b).2.2.1
  · exact foreign_form h fun b => (byte_spec b).2.2.2.1
  · exact foreign_form h fun b => (byte_spec b).2.2.2.2.1
  · exact foreign_form h fun b => (byte_spec b).2.2.2.2.2

/-! ## What is left of an input -/

section Left

variable {ν : Type}

def Texts (P : List Char → Prop) (v : Value ν) : Prop :=
  (∀ s, Value.Part v (.string s) → P s.toList)
    ∧ ∀ fields, Value.Part v (.object fields) → ∀ f ∈ fields, P f.1.toList

variable {P : List Char → Prop}

theorem texts_leaf {v : Value ν} (harray : ∀ items, v ≠ .array items)
    (hobject : ∀ fields, v ≠ .object fields) (h : ∀ s, v = .string s → P s.toList) :
    Texts P v := by
  refine ⟨fun s hs => h s (Value.part_leaf harray hobject hs).symm, fun fields hf => ?_⟩
  exact absurd (Value.part_leaf harray hobject hf).symm (hobject fields)

theorem texts_array {items : List (Value ν)} (h : ∀ v ∈ items, Texts P v) :
    Texts P (.array items) := by
  refine ⟨fun s hs => ?_, fun fields hf => ?_⟩
  · rcases Value.part_array hs with heq | ⟨v, hv, hs⟩
    · cases heq
    · exact (h v hv).1 s hs
  · rcases Value.part_array hf with heq | ⟨v, hv, hf⟩
    · cases heq
    · exact (h v hv).2 fields hf

variable {fields : List (String × Value ν)} (depth : ℕ) {map : List (String × Value ν)}

theorem texts_object (h : ∀ f ∈ fields, P f.1.toList ∧ Texts P f.2) : Texts P (.object fields) := by
  refine ⟨fun s hs => ?_, fun fields' hf => ?_⟩
  · rcases Value.part_object hs with heq | ⟨f, hf, hs⟩
    · cases heq
    · exact (h f hf).2.1 s hs
  · rcases Value.part_object hf with heq | ⟨f, hmem, hf⟩
    · cases heq
      exact fun f hmem => (h f hmem).1
    · exact (h f hmem).2.2 fields' hf

theorem mem_collect {f : String × Value ν} (h : f ∈ collect fields) : f ∈ fields := by
  induction fields with
  | nil => cases h
  | cons g fields ih =>
    rw [collect] at h
    split at h
    · exact List.mem_cons_of_mem _ (ih h)
    · rcases List.mem_cons.mp h with rfl | h
      · exact List.mem_cons_self
      · exact List.mem_cons_of_mem _ (ih h)

variable {rules : Rules} {variants : List (List Char)}

theorem clean_items_eq (values : List (Value ν)) :
    clean_items rules variants depth values = values.map (clean rules variants (depth + 1)) := by
  induction values with
  | nil => rfl
  | cons v values ih => rw [clean_items, ih, List.map_cons]

theorem mem_clean_fields {depth : ℕ} {g : String × Value ν}
    (h : g ∈ clean_fields rules variants depth map) : ∃ f ∈ map, g = (text variants f.1,
      if credential rules f.1 then .string (String.ofList REDACTED)
      else clean rules variants (depth + 1) f.2) := by
  induction map with
  | nil => cases h
  | cons f map ih =>
    obtain ⟨key, value⟩ := f
    rw [clean_fields] at h
    split at h
    · obtain ⟨f, hf, heq⟩ := ih h
      exact ⟨f, List.mem_cons_of_mem _ hf, heq⟩
    · rcases List.mem_cons.mp h with rfl | h
      · exact ⟨(key, value), List.mem_cons_self, rfl⟩
      · obtain ⟨f, hf, heq⟩ := ih h
        exact ⟨f, List.mem_cons_of_mem _ hf, heq⟩

/-- **All texts and names that are left have been through the replacements.** -/
theorem clean_texts (htext : ∀ s, P (text variants s).toList) (hmarker : P REDACTED)
    (depth : ℕ) (v : Value ν) : Texts P (clean rules variants depth v) := by
  have hnull : Texts P (.null : Value ν) := texts_leaf (by simp) (by simp) (by simp)
  induction v using Value.induct generalizing depth with
  | null => exact hnull
  | bool b =>
    rw [clean]
    split
    · exact hnull
    · exact texts_leaf (by simp) (by simp) (by simp)
  | number n =>
    rw [clean]
    split
    · exact hnull
    · exact texts_leaf (by simp) (by simp) (by simp)
  | string s =>
    rw [clean]
    split
    · exact hnull
    · refine texts_leaf (by simp) (by simp) fun t ht => ?_
      cases ht
      exact htext s
  | array values ih =>
    rw [clean]
    split
    · exact hnull
    · rw [clean_items_eq]
      refine texts_array fun v hv => ?_
      obtain ⟨w, hw, rfl⟩ := List.mem_map.mp hv
      exact ih w hw _
  | object map ih =>
    rw [clean]
    split
    · exact hnull
    · refine texts_object fun g hg => ?_
      obtain ⟨f, hf, rfl⟩ := mem_clean_fields (mem_collect hg)
      refine ⟨htext f.1, ?_⟩
      dsimp only
      split
      · refine texts_leaf (by simp) (by simp) fun t ht => ?_
        cases ht
        rw [String.toList_ofList]
        exact hmarker
      · exact ih f hf _

/-- **Every object that is left comes from one of the input, with the marker under the names
of credentials.** -/
theorem clean_objects {v : Value ν} {out : List (String × Value ν)}
    (h : Value.Part (clean rules variants depth v) (.object out)) :
    ∃ map, Value.Part v (.object map) ∧ ∀ g ∈ out, ∃ f ∈ map, g.1 = text variants f.1
      ∧ (credential rules f.1 = true → g.2 = .string (String.ofList REDACTED)) := by
  have hleaf : ∀ {w : Value ν}, (∀ items, w ≠ .array items) → (∀ fields, w ≠ .object fields) →
      ¬Value.Part w (.object out) := fun harray hobject hpart =>
    hobject out (Value.part_leaf harray hobject hpart).symm
  induction v using Value.induct generalizing depth with
  | null => exact absurd h (hleaf (by simp [clean]) (by simp [clean]))
  | bool b =>
    rw [clean] at h
    split at h
    · exact absurd h (hleaf (by simp) (by simp))
    · exact absurd h (hleaf (by simp) (by simp))
  | number n =>
    rw [clean] at h
    split at h
    · exact absurd h (hleaf (by simp) (by simp))
    · exact absurd h (hleaf (by simp) (by simp))
  | string s =>
    rw [clean] at h
    split at h
    · exact absurd h (hleaf (by simp) (by simp))
    · exact absurd h (hleaf (by simp) (by simp))
  | array values ih =>
    rw [clean] at h
    split at h
    · exact absurd h (hleaf (by simp) (by simp))
    · rcases Value.part_array h with heq | ⟨w, hw, hpart⟩
      · cases heq
      · rw [clean_items_eq] at hw
        obtain ⟨v, hv, rfl⟩ := List.mem_map.mp hw
        obtain ⟨map, hmap, hfields⟩ := ih v hv _ hpart
        exact ⟨map, (Value.Part.refl.item hv).trans hmap, hfields⟩
  | object map ih =>
    rw [clean] at h
    split at h
    · exact absurd h (hleaf (by simp) (by simp))
    · rcases Value.part_object h with heq | ⟨g, hg, hpart⟩
      · cases heq
        refine ⟨map, .refl, fun g hg => ?_⟩
        obtain ⟨f, hf, rfl⟩ := mem_clean_fields (mem_collect hg)
        exact ⟨f, hf, rfl, fun hcredential => if_pos hcredential⟩
      · obtain ⟨f, hf, rfl⟩ := mem_clean_fields (mem_collect hg)
        dsimp only at hpart
        split at hpart
        · exact absurd hpart (hleaf (by simp) (by simp))
        · obtain ⟨map', hmap, hfields⟩ := ih f hf _ hpart
          exact ⟨map', (Value.Part.refl.field hf).trans hmap, hfields⟩

variable (rules)

mutual

/-- An input without what is to leave no trace: the values under the names of credentials,
the account that is dropped, and what is nested beyond 32 levels. -/
def masked (depth : ℕ) : Value ν → Value ν
  | .object map => if 32 < depth then .null else .object (masked_fields depth map)
  | .array values => if 32 < depth then .null else .array (masked_items depth values)
  | .string value => if 32 < depth then .null else .string value
  | .null => .null
  | .bool b => if 32 < depth then .null else .bool b
  | .number n => if 32 < depth then .null else .number n
termination_by structural v => v

def masked_items (depth : ℕ) : List (Value ν) → List (Value ν)
  | [] => []
  | v :: values => masked (depth + 1) v :: masked_items depth values
termination_by structural values => values

def masked_fields (depth : ℕ) : List (String × Value ν) → List (String × Value ν)
  | [] => []
  | (key, value) :: map =>
    if dropped rules key then masked_fields depth map
    else (key, if credential rules key then .null else masked (depth + 1) value)
      :: masked_fields depth map
termination_by structural map => map

end

variable {rules}

theorem clean_masked_items {depth : ℕ} {values : List (Value ν)}
    (h : ∀ v ∈ values, clean rules variants (depth + 1) (masked rules (depth + 1) v)
      = clean rules variants (depth + 1) v) :
    clean_items rules variants depth (masked_items rules depth values)
      = clean_items rules variants depth values := by
  induction values with
  | nil => rfl
  | cons v values ih =>
    rw [masked_items, clean_items, clean_items, h v List.mem_cons_self,
      ih fun w hw => h w (List.mem_cons_of_mem _ hw)]

theorem clean_masked_fields {depth : ℕ}
    (h : ∀ f ∈ map, clean rules variants (depth + 1) (masked rules (depth + 1) f.2)
      = clean rules variants (depth + 1) f.2) :
    clean_fields rules variants depth (masked_fields rules depth map)
      = clean_fields rules variants depth map := by
  induction map with
  | nil => rfl
  | cons f map ih =>
    obtain ⟨key, value⟩ := f
    have hmap := ih fun g hg => h g (List.mem_cons_of_mem _ hg)
    have hvalue : clean rules variants (depth + 1) (masked rules (depth + 1) value)
        = clean rules variants (depth + 1) value := h (key, value) List.mem_cons_self
    rw [masked_fields, clean_fields]
    by_cases hdropped : dropped rules key = true
    · rw [if_pos hdropped, if_pos hdropped, hmap]
    · rw [if_neg hdropped, if_neg hdropped, clean_fields, if_neg hdropped, hmap]
      by_cases hcredential : credential rules key = true
      · rw [if_pos hcredential, if_pos hcredential]
      · rw [if_neg hcredential, if_neg hcredential, if_neg hcredential, hvalue]

/-- **What is masked leaves no trace.** -/
theorem clean_masked (v : Value ν) :
    clean rules variants depth (masked rules depth v) = clean rules variants depth v := by
  induction v using Value.induct generalizing depth with
  | null => rfl
  | bool b =>
    by_cases hdeep : 32 < depth
    · rw [masked, if_pos hdeep, clean, clean, if_pos hdeep]
    · rw [masked, if_neg hdeep]
  | number n =>
    by_cases hdeep : 32 < depth
    · rw [masked, if_pos hdeep, clean, clean, if_pos hdeep]
    · rw [masked, if_neg hdeep]
  | string s =>
    by_cases hdeep : 32 < depth
    · rw [masked, if_pos hdeep, clean, clean, if_pos hdeep]
    · rw [masked, if_neg hdeep]
  | array values ih =>
    by_cases hdeep : 32 < depth
    · rw [masked, if_pos hdeep, clean, clean, if_pos hdeep]
    · rw [masked, if_neg hdeep, clean, clean, clean_masked_items fun v hv => ih v hv _]
  | object map ih =>
    by_cases hdeep : 32 < depth
    · rw [masked, if_pos hdeep, clean, clean, if_pos hdeep]
    · rw [masked, if_neg hdeep, clean, clean, clean_masked_fields fun f hf => ih f hf _]

theorem sanitized_texts (hform : FormUrlencoded rules.byte_serialize) (input : Value ν)
    {secrets : List String} {s : String} (hplain : Plain s) (hs : s ∈ secrets) {w : List Char}
    (hw : w ∈ forms s.toList) :
    Texts (fun t => ¬w <:+: t) (sanitize_replay_input rules input (some secrets)) := by
  have hforeign := foreign_forms hplain hw
  have hne : s ≠ "" := by
    rintro rfl
    exact hplain.2.2 List.nil_infix
  rw [sanitize_replay_input]
  split
  · exact texts_leaf (by simp) (by simp) (by simp)
  · refine clean_texts (fun t => ?_) (foreign_iff.mp hforeign).2.2 0 input
    rw [text, String.toList_ofList]
    exact Replace.not_infix_foldl hforeign (mem_variants hform hs hne hw) t.toList

end Left

/-- **A replay shows no credential.** No text and no name of it has a form of a secret in it;
the values under the names of credentials give way to the marker; and neither they nor what is
nested beyond 32 levels make a difference to it. Without secrets, or with too many of them,
nothing is kept. -/
theorem replay_shows_no_secret {ν : Type} (rules : Rules)
    (hform : FormUrlencoded rules.byte_serialize) (input : Value ν) :
    (∀ secrets, (∀ s ∈ secrets, Plain s) → ∀ s ∈ secrets, ∀ w ∈ forms s.toList,
      Texts (fun t => ¬w <:+: t) (sanitize_replay_input rules input (some secrets)))
    ∧ (∀ secrets out, Value.Part (sanitize_replay_input rules input (some secrets)) (.object out) →
      ∃ map, Value.Part input (.object map) ∧ ∀ g ∈ out, ∃ f ∈ map,
        g.1 = text (secret_variants rules.byte_serialize secrets) f.1
          ∧ (credential rules f.1 = true → g.2 = .string (String.ofList REDACTED)))
    ∧ (∀ secrets other, masked rules 0 input = masked rules 0 other →
      sanitize_replay_input rules input secrets = sanitize_replay_input rules other secrets)
    ∧ (∀ secrets, 128 < secrets.length → sanitize_replay_input rules input (some secrets) = .null)
    ∧ sanitize_replay_input rules input none = .null := by
  refine ⟨fun secrets hplain s hs w hw => sanitized_texts hform input (hplain s hs) hs hw,
    fun secrets out hpart => ?_, fun secrets other hmasked => ?_,
    fun secrets hmany => if_pos hmany, rfl⟩
  · rw [sanitize_replay_input] at hpart
    split at hpart
    · cases Value.part_leaf (by simp) (by simp) hpart
    · exact clean_objects 0 hpart
  · cases secrets with
    | none => rfl
    | some secrets =>
      rw [sanitize_replay_input, sanitize_replay_input]
      split
      · rfl
      · rw [← clean_masked 0 input, hmasked, clean_masked]

namespace Sample

/-- The rules of a connector with one credential field; case is that of ASCII. -/
def rules : Rules where
  to_lowercase c := [c.toLower]
  byte_serialize bytes := bytes.flatMap (form_byte hex_upper ['+'])
  connector := "unipile"
  fields := ["customKey"]

def input : Value Unit :=
  .object [("customKey", .string "forged"), ("account_id", .string "other-brand"),
    ("nested", .object [("message", .string "real/key and real%2fkey")])]

end Sample

/-- The secret is shown neither as it is nor percent-encoded. -/
theorem slash_not_shown :
    Texts (fun t => ¬"real/key".toList <:+: t)
        (sanitize_replay_input Sample.rules Sample.input (some ["real/key"]))
      ∧ Texts (fun t => ¬"real%2fkey".toList <:+: t)
        (sanitize_replay_input Sample.rules Sample.input (some ["real/key"])) := by
  obtain ⟨hsecrets, -⟩ := replay_shows_no_secret Sample.rules (fun _ => rfl) Sample.input
  have hplain : ∀ s ∈ ["real/key"], Plain s := by
    intro s hs
    rw [List.mem_singleton.mp hs]
    exact ⟨by decide, by decide, by decide⟩
  have hshown := hsecrets ["real/key"] hplain "real/key" List.mem_cons_self
  exact ⟨hshown _ (by decide), hshown _ (by decide)⟩

/-! ## From credentials to secrets -/

section Gather

variable {ν : Type}

/-- What has been gathered stays, a value's texts with it, within the limit. -/
structure Gathered (out l : List String) (v : Value ν) : Prop where
  kept : ∀ s ∈ out, s ∈ l
  texts : ∀ s, Value.Part v (.string s) → s ≠ "" → s ∈ l
  bounded : out.length ≤ 128 → l.length ≤ 128

theorem gathered_same {out : List String} {v : Value ν} (harray : ∀ items, v ≠ .array items)
    (hobject : ∀ fields, v ≠ .object fields) (h : ∀ s, v = .string s → s = "") :
    Gathered out out v where
  kept _ hs := hs
  texts s hs hne := absurd (h s (Value.part_leaf harray hobject hs).symm) hne
  bounded h := h

theorem gathered_all {β : Type} {value : β → Value ν}
    {step : List String → β → Option (List String)} {xs : List β} {out l : List String}
    (hstep : ∀ x ∈ xs, ∀ out l, step out x = some l → Gathered out l (value x))
    (h : xs.foldlM step out = some l) :
    (∀ s ∈ out, s ∈ l) ∧ (∀ x ∈ xs, ∀ s, Value.Part (value x) (.string s) → s ≠ "" → s ∈ l)
      ∧ (out.length ≤ 128 → l.length ≤ 128) := by
  induction xs generalizing out with
  | nil =>
    cases h
    exact ⟨fun _ hs => hs, fun _ hx => (nomatch hx), id⟩
  | cons x xs ih =>
    rw [List.foldlM_cons] at h
    obtain ⟨mid, hx, hrest⟩ := Option.bind_eq_some_iff.mp h
    obtain ⟨hkept, htexts, hbounded⟩ := hstep x List.mem_cons_self _ _ hx
    obtain ⟨hkept', htexts', hbounded'⟩ :=
      ih (fun y hy => hstep y (List.mem_cons_of_mem _ hy)) hrest
    refine ⟨fun s hs => hkept' s (hkept s hs), List.forall_mem_cons.mpr ⟨?_, htexts'⟩,
      fun hout => hbounded' (hbounded hout)⟩
    exact fun s hs hne => hkept' s (htexts s hs hne)

variable (depth : ℕ) (out : List String)

theorem gather_items_eq (values : List (Value ν)) :
    gather_items depth out values = values.foldlM (gather (depth + 1)) out := by
  induction values generalizing out with
  | nil => rfl
  | cons v values ih =>
    rw [gather_items, List.foldlM_cons]
    exact congrArg _ (funext ih)

theorem gather_fields_eq (fields : List (String × Value ν)) : gather_fields depth out fields
      = fields.foldlM (fun out f => gather (depth + 1) out f.2) out := by
  induction fields generalizing out with
  | nil => rfl
  | cons f fields ih =>
    rw [gather_fields, List.foldlM_cons]
    exact congrArg _ (funext ih)

theorem gather_spec (v : Value ν) (depth : ℕ) (out l : List String)
    (h : gather depth out v = some l) : Gathered out l v := by
  induction v using Value.induct generalizing depth out l with
  | null =>
    rw [gather, Option.ite_none_left_eq_some] at h
    cases h.2
    exact gathered_same (by simp) (by simp) (by simp)
  | bool b =>
    rw [gather, Option.ite_none_left_eq_some] at h
    cases h.2
    exact gathered_same (by simp) (by simp) (by simp)
  | number n =>
    rw [gather, Option.ite_none_left_eq_some] at h
    cases h.2
    exact gathered_same (by simp) (by simp) (by simp)
  | string s =>
    rw [gather, Option.ite_none_left_eq_some] at h
    obtain ⟨-, h⟩ := h
    split at h
    next hempty =>
      cases h
      exact gathered_same (by simp) (by simp) (by simp [hempty])
    next hne =>
      split at h
      next hlength =>
        cases h
        refine ⟨fun t ht => List.mem_append_left _ ht, fun t ht _ => ?_, fun _ => ?_⟩
        · cases Value.part_leaf (by simp) (by simp) ht
          exact List.mem_append_right _ List.mem_cons_self
        · rw [List.length_append, List.length_singleton]
          exact hlength
      next => cases h
  | array values ih =>
    rw [gather, Option.ite_none_left_eq_some, gather_items_eq] at h
    obtain ⟨hkept, htexts, hbounded⟩ := gathered_all (fun v hv => ih v hv _) h.2
    refine ⟨hkept, fun s hs => ?_, hbounded⟩
    rcases Value.part_array hs with heq | ⟨v, hv, hs⟩
    · cases heq
    · exact htexts v hv s hs
  | object fields ih =>
    rw [gather, Option.ite_none_left_eq_some, gather_fields_eq] at h
    obtain ⟨hkept, htexts, hbounded⟩ := gathered_all (fun f hf => ih f hf _) h.2
    refine ⟨hkept, fun s hs => ?_, hbounded⟩
    rcases Value.part_object hs with heq | ⟨f, hf, hs⟩
    · cases heq
    · exact htexts f hf s hs

/-- **The secrets are all texts of the credentials**, and no more than can be looked for. -/
theorem credential_values_complete {fields : List (String × Value ν)} {caller : String}
    {secrets : List String} (h : credential_values fields caller = some secrets) :
    secrets.length ≤ 128 ∧ (caller ≠ "" → caller ∈ secrets)
      ∧ ∀ f ∈ fields, ∀ s, Value.Part f.2 (.string s) → s ≠ "" → s ∈ secrets := by
  obtain ⟨hkept, htexts, hbounded⟩ :=
    gathered_all (fun f _ out l hf => gather_spec f.2 0 out l hf) h
  refine ⟨hbounded ?_, fun hne => hkept caller ?_, htexts⟩
  · split
    · exact Nat.zero_le _
    · exact Nat.one_le_iff_ne_zero.mpr (by decide)
  · rw [if_neg hne]
    exact List.mem_cons_self

/-- **No replay shows a text of the credentials of its call.** -/
theorem credentials_not_shown {rules : Rules} (hform : FormUrlencoded rules.byte_serialize)
    (fields : List (String × Value ν)) (caller : String) (input : Value ν)
    {f : String × Value ν} (hf : f ∈ fields) {s : String} (hs : Value.Part f.2 (.string s))
    (hplain : Plain s) {w : List Char} (hw : w ∈ forms s.toList) :
    Texts (fun t => ¬w <:+: t)
      (sanitize_replay_input rules input (credential_values fields caller)) := by
  have hne : s ≠ "" := by
    rintro rfl
    exact hplain.2.2 List.nil_infix
  cases hsecrets : credential_values fields caller with
  | none =>
    change Texts _ (Value.null : Value ν)
    exact texts_leaf (by simp) (by simp) (by simp)
  | some secrets =>
    obtain ⟨-, -, htexts⟩ := credential_values_complete hsecrets
    exact sanitized_texts hform input hplain (htexts f hf s hs hne) hw

end Gather

/-- The credentials of a call, one of them below a field. -/
def Sample.credentials : List (String × Value Unit) :=
  [("customKey", .object [("token", .string "real/key")])]

/-- A secret inside a credential field is gathered and not shown. -/
theorem nested_credential_not_shown : Texts (fun t => ¬"real%2fkey".toList <:+: t)
    (sanitize_replay_input Sample.rules Sample.input
      (credential_values Sample.credentials "caller")) := by
  have hpart : Value.Part (.object [("token", .string "real/key")] : Value Unit)
      (.string "real/key") := Value.Part.refl.field List.mem_cons_self
  exact credentials_not_shown (fun _ => rfl) Sample.credentials "caller" Sample.input
    List.mem_cons_self hpart ⟨by decide, by decide, by decide⟩ (by decide)

end Appcall.Actions.Replay
