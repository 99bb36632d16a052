/-
The parameters of a request, and the texts of their values: `runner/bun/src/declarative/types.ts`
and what `compile.ts` does with a parameter wherever it stands.
-/
import Appcall.Declarative.Template
import Appcall.Lib.Query

set_option autoImplicit false

namespace Appcall.Declarative

open Chars (is_space)

inductive Place
  | path
  | query
  | header
  deriving DecidableEq

/-- `DeclarativeParameterStyle` -/
inductive Style
  | simple
  | label
  | matrix
  | form
  | spaceDelimited
  | pipeDelimited
  | deepObject
  deriving DecidableEq

/-- `DeclarativeParameter` -/
structure Parameter where
  wire_name : String
  input_name : String
  place : Place
  style : Style
  explode : Bool
  allow_reserved : Bool
  content_media_type : Option String

/-- What `encodeURIComponent` keeps. -/
def unreserved (b : UInt8) : Bool :=
  let n := b.toNat
  (decide (48 ≤ n) && decide (n ≤ 57)) || (decide (65 ≤ n) && decide (n ≤ 90))
    || (decide (97 ≤ n) && decide (n ≤ 122))
    || [33, 39, 40, 41, 42, 45, 46, 95, 126].contains n

def encodeURIComponent (text : List Char) : List Char := Percent.encode unreserved text

section Engine

variable {ν : Type} (E : Engine ν)

def parameter_input (parameter : Parameter) (input : Fields ν) : Js ν :=
  match Value.lookup input parameter.input_name with
  | some v => .value v
  | none => resolve_path E parameter.input_name.toList input

/-- `parameterPart`, of an item or the value of a field. -/
def part (v : Value ν) : Except Thrown (List Char) :=
  match v with
  | .object fields => .ok (stringify E (.object fields))
  | v => to_string E v

def parameter_part : Js ν → Except Thrown (List Char)
  | .value v => part E v
  | .prototype => .ok "\x7b\x7d".toList
  | value => value.text E

/-- `mediaType`, of a parameter with a content: up to the first `;`, without white space. -/
def media_type (content_media_type : List Char) : List Char :=
  E.lower ((((content_media_type.takeWhile (· ≠ ';')).dropWhile is_space).reverse.dropWhile
    is_space).reverse)

def is_json (content_media_type : List Char) : Bool :=
  media_type E content_media_type == "application/json".toList
    || "+json".toList.isSuffixOf (media_type E content_media_type)

def serialize_content_parameter (content_media_type : List Char) (value : Js ν) :
    Except Thrown (List Char) :=
  if is_json E content_media_type = true then
    match value with
    | .value v => .ok (stringify E v)
    | .prototype => .ok "\x7b\x7d".toList
    | value => value.text E
  else parameter_part E value

/-- `parameter.contentMediaType`, where it counts as true. -/
def Parameter.content (parameter : Parameter) : Option (List Char) :=
  parameter.content_media_type.bind fun type => if type = "" then none else some type.toList

/-- `items.map(encode)` -/
def encode_items (encode : List Char → List Char) :
    List (Value ν) → Except Thrown (List (List Char))
  | [] => .ok []
  | item :: items => do
    let text ← part E item
    let texts ← encode_items encode items
    .ok (encode text :: texts)

/-- The encoded names and values of an object. -/
def encode_pairs (encode_key encode : List Char → List Char) :
    Fields ν → Except Thrown (List (List Char × List Char))
  | [] => .ok []
  | field :: fields => do
    let text ← part E field.2
    let pairs ← encode_pairs encode_key encode fields
    .ok ((encode_key field.1.toList, encode text) :: pairs)

/-- The fields of a record, in their order. -/
def Js.record : Js ν → Option (Fields ν)
  | .value (.object fields) => some (own_order fields)
  | .prototype => some []
  | _ => none

end Engine

/-! ## Empty texts -/

variable {ν : Type} {E : Engine ν}

mutual

/-- `String` makes an empty text of it. -/
def blank : Value ν → Bool
  | .string s => s.isEmpty
  | .array items => hollow items
  | _ => false
termination_by structural v => v

/-- `join` makes an empty text of the items. -/
def hollow : List (Value ν) → Bool
  | [] => true
  | .null :: items => items.isEmpty
  | item :: items => blank item && items.isEmpty
termination_by structural items => items

end

variable {texts : List (List Char)}

theorem intercalate_eq_nil {c : Char} :
    List.intercalate [c] texts = [] ↔ texts = [] ∨ texts = [[]] := by
  cases texts with
  | nil => simp
  | cons text texts =>
    cases texts with
    | nil => simp
    | cons text' texts => simp

theorem item_texts_null (items : List (Value ν)) :
    item_texts E (.null :: items) = (do
      let texts ← item_texts E items
      .ok ([] :: texts)) := by
  rw [item_texts.eq_def]

theorem item_texts_cons {item : Value ν} (h : item.is_null = false) (items : List (Value ν)) :
    item_texts E (item :: items) = (do
      let text ← to_string E item
      let texts ← item_texts E items
      .ok (text :: texts)) := by
  cases item with
  | null => cases h
  | _ => rw [item_texts.eq_def]

theorem hollow_cons {item : Value ν} (h : item.is_null = false) (items : List (Value ν)) :
    hollow (item :: items) = (blank item && items.isEmpty) := by
  cases item with
  | null => cases h
  | _ => rw [hollow.eq_def]

theorem item_texts_nil {items : List (Value ν)} (h : item_texts E items = .ok texts) :
    texts = [] ↔ items = [] := by
  cases items with
  | nil =>
    rw [item_texts] at h
    cases h
    simp
  | cons item items =>
    by_cases hnull : item.is_null = true
    · cases item with
      | null =>
        rw [item_texts_null] at h
        obtain ⟨texts', -, hok⟩ := bind_eq_ok h
        cases hok
        simp
      | _ => cases hnull
    · rw [item_texts_cons (Bool.eq_false_iff.mpr hnull)] at h
      obtain ⟨text, -, h⟩ := bind_eq_ok h
      obtain ⟨texts', -, hok⟩ := bind_eq_ok h
      cases hok
      simp

/-- **What has an empty text.** -/
theorem to_string_eq_nil {v : Value ν} {text : List Char} (h : to_string E v = .ok text) :
    text = [] ↔ blank v = true := by
  induction v using Value.induct generalizing text with
  | null =>
    cases h
    exact iff_of_false (by decide) Bool.false_ne_true
  | bool b =>
    cases h
    refine iff_of_false ?_ Bool.false_ne_true
    cases b <;> decide
  | number n =>
    cases h
    exact iff_of_false (E.number_ne n) Bool.false_ne_true
  | string s =>
    cases h
    rw [blank, String.isEmpty_iff, String.toList_eq_nil_iff]
  | array items ih =>
    rw [to_string] at h
    obtain ⟨texts, htexts, hok⟩ := bind_eq_ok h
    cases hok
    rw [intercalate_eq_nil, blank]
    cases items with
    | nil =>
      rw [item_texts] at htexts
      cases htexts
      exact iff_of_true (.inl rfl) rfl
    | cons item items =>
      by_cases hnull : item.is_null = true
      · cases item with
        | null =>
          rw [item_texts_null] at htexts
          obtain ⟨texts', hrest, hok⟩ := bind_eq_ok htexts
          cases hok
          have hlength := item_texts_nil hrest
          rw [hollow.eq_def]
          simp [hlength]
        | _ => cases hnull
      · rw [item_texts_cons (Bool.eq_false_iff.mpr hnull)] at htexts
        obtain ⟨text, htext, htexts⟩ := bind_eq_ok htexts
        obtain ⟨texts', hrest, hok⟩ := bind_eq_ok htexts
        cases hok
        have hlength := item_texts_nil hrest
        have hitem := ih item List.mem_cons_self htext
        rw [hollow_cons (Bool.eq_false_iff.mpr hnull)]
        simp [hlength, hitem]
  | object fields ih =>
    rw [to_string] at h
    split at h
    · cases h
    · cases h
      exact iff_of_false (by decide) Bool.false_ne_true

end Appcall.Declarative
