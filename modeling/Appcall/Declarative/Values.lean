/-
The values that a declarative connector renders into a request.

What comes with a call is JSON; a template also reaches what every object inherits. `String`
and `JSON.stringify` are those of the language. How a number is written, which segment is an
index and the text of a built-in function are up to the engine, of which little is used.
-/
import Appcall.Lib.Alike
import Appcall.Lib.Percent
import Appcall.Runner.Strict

set_option autoImplicit false

namespace Appcall.Declarative

/-- What the engine decides: how `String` and `JSON.stringify` write a number, which segments
`Number` reads as the index of an item, the text of a built-in function, and `toLowerCase`. -/
structure Engine (ν : Type) where
  number : ν → List Char
  number_json : ν → List Char
  index : List Char → Option ℕ
  native : String → List Char
  lower : List Char → List Char
  number_ne (n : ν) : number n ≠ []
  number_json_ne (n : ν) : number_json n ≠ []
  native_ne (name : String) : native name ≠ []

/-- What is thrown: an error with a message, or the error of an object without a text. -/
inductive Thrown
  | error (message : List Char)
  | type_error
  deriving DecidableEq

/-- A value of the language: of JSON, or `Object.prototype` and what is in it. -/
inductive Js (ν : Type)
  | undefined
  | value (v : Value ν)
  | prototype
  | builtin (name : String)

abbrev Fields (ν : Type) := List (String × Value ν)

variable {ν : Type}

/-! ## Fields -/

/-- The methods of `Object.prototype`. -/
def methods : List String :=
  ["constructor", "hasOwnProperty", "isPrototypeOf", "propertyIsEnumerable", "toLocaleString",
    "toString", "valueOf", "__defineGetter__", "__defineSetter__", "__lookupGetter__",
    "__lookupSetter__"]

/-- `Object.prototype[name]` -/
def inherited (name : String) : Js ν :=
  if name = "__proto__" then .value .null
  else if name ∈ methods then .builtin name
  else .undefined

/-- `current[name]`, of an object. -/
def member (fields : Fields ν) (name : String) : Js ν :=
  match Value.lookup fields name with
  | some v => .value v
  | none => if name = "__proto__" then .prototype else inherited name

/-- Fields in the order in which an object lists them: array indices come first. -/
def own_order {α : Type} (fields : List (String × α)) : List (String × α) :=
  (fields.filter (fun f => Strict.is_array_index f.1)).insertionSort
      (fun f g => Strict.array_index f.1 ≤ Strict.array_index g.1)
    ++ fields.filter (fun f => !Strict.is_array_index f.1)

/-! ## Paths -/

section Engine

variable (E : Engine ν)

/-- The loop of `resolvePath`. -/
def walk : Js ν → List (List Char) → Js ν
  | current, [] => current
  | .value (.array items), segment :: segments =>
    match (E.index segment).bind (fun index => items[index]?) with
    | some v => walk (.value v) segments
    | none => .undefined
  | .value (.object fields), segment :: segments =>
    walk (member fields (String.ofList segment)) segments
  | .prototype, segment :: segments => walk (inherited (String.ofList segment)) segments
  | _, _ :: _ => .undefined

def resolve_path (expression : List Char) (context : Fields ν) : Js ν :=
  walk E (.value (.object context)) (expression.splitOn '.')

def last_segment (expression : List Char) : List Char :=
  (expression.splitOn '.').getLastD expression

/-! ## Texts -/

mutual

/-- `String(value)`. An object with a field of that name has no `toString` that can be called. -/
def to_string : Value ν → Except Thrown (List Char)
  | .null => .ok "null".toList
  | .bool b => .ok (if b then "true" else "false").toList
  | .number n => .ok (E.number n)
  | .string s => .ok s.toList
  | .array items => do
    let texts ← item_texts items
    .ok (List.intercalate [','] texts)
  | .object fields =>
    if fields.any (fun f => f.1 == "toString") then .error .type_error
    else .ok "[object Object]".toList
termination_by structural v => v

/-- The items of an array as `join` takes them. -/
def item_texts : List (Value ν) → Except Thrown (List (List Char))
  | [] => .ok []
  | .null :: items => do
    let texts ← item_texts items
    .ok ([] :: texts)
  | item :: items => do
    let text ← to_string item
    let texts ← item_texts items
    .ok (text :: texts)
termination_by structural items => items

end

/-- `String` -/
def Js.text : Js ν → Except Thrown (List Char)
  | .undefined => .ok "undefined".toList
  | .value v => to_string E v
  | .prototype => .ok "[object Object]".toList
  | .builtin name => .ok (E.native name)

mutual

def stringify : Value ν → List Char
  | .null => "null".toList
  | .bool b => (if b then "true" else "false").toList
  | .number n => E.number_json n
  | .string s => Json.quote s.toList
  | .array items => '[' :: List.intercalate [','] (stringify_items items) ++ [']']
  | .object fields =>
    '\x7b' :: List.intercalate [','] ((own_order (stringify_fields fields)).map fun f =>
      Json.quote f.1.toList ++ ':' :: f.2) ++ ['\x7d']
termination_by structural v => v

def stringify_items : List (Value ν) → List (List Char)
  | [] => []
  | item :: items => stringify item :: stringify_items items
termination_by structural items => items

def stringify_fields : List (String × Value ν) → List (String × List Char)
  | [] => []
  | field :: fields => stringify_field field :: stringify_fields fields
termination_by structural fields => fields

def stringify_field : String × Value ν → String × List Char
  | (name, v) => (name, stringify v)
termination_by structural field => field

end

end Engine

namespace Sample

/-- Numbers without a fraction, digits as indices. -/
def engine : Engine ℕ where
  number := Decimal.write
  number_json := Decimal.write
  index := Decimal.read
  native := fun name => ("function " ++ name ++ "() { [native code] }").toList
  lower := List.map Char.toLower
  number_ne := Decimal.write_ne_nil
  number_json_ne := Decimal.write_ne_nil
  native_ne := fun name h => by
    have happ : ("function " ++ name ++ "() \x7b [native code] \x7d").toList
        = "function ".toList ++ (name ++ "() \x7b [native code] \x7d").toList := by
      rw [String.append_assoc, String.toList_append]
    rw [happ] at h
    exact absurd (List.append_eq_nil_iff.mp h).1 (by decide)

end Sample

end Appcall.Declarative
