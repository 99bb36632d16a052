/-
The validator of the runner: `assertStrictSchema` and `compileStrictValidator` of
`runner/bun/src/declarative/strict-schema.ts`, in registry mode.

Schemas and inputs are what `JSON.parse` gives, so that numbers are finite doubles. Both
walks take the number of levels that are left under the limit: the `depth` of the source
is 65 less the levels. A check that throws because of the limit is told apart from one
that throws because the value is not allowed; only the second is caught in a branch.
-/
import Appcall.Lib.Alike
import Appcall.Lib.Decimal
import Appcall.Lib.Double
import Mathlib.Data.List.Sort

set_option autoImplicit false

namespace Appcall.Strict

open Value (lookup)

/-- A value of `JSON.parse`. -/
abbrev Js : Type := Value F64

def MAX_NODES : ℕ := 4096

/-- The levels that `MAX_DEPTH` leaves at depth 0. -/
def levels_at_root : ℕ := 65

def forbidden : List String := ["__proto__", "constructor", "prototype"]

def supported : List String :=
  ["type", "enum", "const", "properties", "required", "additionalProperties", "items",
    "minItems", "maxItems", "minLength", "maxLength", "minProperties", "maxProperties",
    "minimum", "maximum", "exclusiveMinimum", "exclusiveMaximum", "uniqueItems", "title",
    "description", "anyOf", "allOf", "oneOf"]

def COMBINATORS : List String := ["anyOf", "allOf", "oneOf"]

def MAX_COMBINATOR_BRANCHES : ℕ := 64

def annotations : List String :=
  ["default", "examples", "format", "$schema", "$id", "$comment", "readOnly", "writeOnly",
    "deprecated"]

def MAX_SAFE_INTEGER : ℚ := 9007199254740991

/-! ## Objects -/

def is_array_index (name : String) : Bool :=
  match Decimal.read name.toList with
  | some n => (name.toList.head? != some '0' || name == "0") && decide (n < 4294967295)
  | none => false

def array_index (name : String) : ℕ := (Decimal.read name.toList).getD 0

/-- The fields in the order in which an object lists them: array indices come first. -/
def entries {α : Type} (fields : List (String × α)) : List (String × α) :=
  (fields.filter (fun f => is_array_index f.1)).insertionSort
      (fun f g => array_index f.1 ≤ array_index g.1)
    ++ fields.filter (fun f => !is_array_index f.1)

theorem mem_entries {α : Type} {fields : List (String × α)} {f : String × α} :
    f ∈ entries fields ↔ f ∈ fields := by
  rw [entries, List.mem_append, List.mem_insertionSort, List.mem_filter, List.mem_filter,
    Bool.not_eq_true']
  cases is_array_index f.1 <;> simp

/-- The order goes by the names alone. -/
theorem entries_map {α β : Type} (image : α → β) (fields : List (String × α)) :
    entries (fields.map fun f => (f.1, image f.2))
      = (entries fields).map fun f => (f.1, image f.2) := by
  rw [entries, entries, List.map_append, List.filter_map, List.filter_map,
    List.map_insertionSort _ (fun f g : String × β => array_index f.1 ≤ array_index g.1) _ _
      fun _ _ _ _ => Iff.rfl]
  rfl

/-- `Object.is` on numbers, and by parts on arrays and objects: `deepEqual`. -/
def deep_equal : Js → Js → Bool := Value.alike F64.same

def as_array : Js → Option (List Js)
  | .array items => some items
  | _ => none

/-- `isRecord` -/
def as_record : Js → Option (List (String × Js))
  | .object fields => some fields
  | _ => none

/-! ## The schema -/

/-- The condition, or an error with the message. -/
def assure (condition : Bool) (message : String) : Except String Unit :=
  if condition then .ok () else .error message

/-- The types of a schema: `types` of `compileNode`. -/
def types (map : List (String × Js)) : List String :=
  match lookup map "type" with
  | some (.string type) => [type]
  | some (.array types) => types.filterMap Value.as_str
  | _ => []

def assert_types (map : List (String × Js)) : Except String Unit := do
  assure (match lookup map "type" with
    | none => true
    | some (.string _) => true
    | some (.array types) => !types.isEmpty && types.all (fun t => t.as_str.isSome)
    | some _ => false) "Invalid schema type"
  (types map).forM (fun type =>
    assure (decide (type ∈ ["string", "number", "integer", "boolean", "array", "object", "null"]))
      ("Invalid schema type: " ++ type))

/-- `Number.isInteger(value) && value >= 0` -/
def is_length : Js → Bool
  | .number f => f.is_whole && decide (0 ≤ f.value)
  | _ => false

/-- `typeof value === "number" && Math.abs(value) <= Number.MAX_SAFE_INTEGER` -/
def is_safe_number : Js → Bool
  | .number f => decide (f.magnitude ≤ MAX_SAFE_INTEGER)
  | _ => false

def assert_values (map : List (String × Js)) : Except String Unit := do
  ["minItems", "maxItems", "minLength", "maxLength", "minProperties", "maxProperties"].forM
    (fun key => assure ((lookup map key).all is_length)
      (key ++ " must be a non-negative integer"))
  ["minimum", "maximum", "exclusiveMinimum", "exclusiveMaximum"].forM
    (fun key => assure ((lookup map key).all is_safe_number)
      (key ++ " must be a finite safe number"))
  assure ((lookup map "uniqueItems").all (fun v =>
    match v with
    | .bool _ => true
    | _ => false)) "uniqueItems must be a boolean"
  assure ((lookup map "enum").all (fun v => (as_array v).any (fun values => !values.isEmpty)))
    "enum must be a non-empty array"
  assure ((lookup map "required").all (fun v =>
    (as_array v).any (fun names => names.all (fun name =>
      name.as_str.any (fun name => decide (name ∉ forbidden))))))
    "required must be an array of safe property names"
  assure ((lookup map "additionalProperties").all (fun v =>
    match v with
    | .bool _ | .object _ => true
    | _ => false)) "additionalProperties must be boolean or schema"

/-- The schemas under `properties`. -/
def assert_properties (assert : Js → ℕ → Except String ℕ) (map : List (String × Js))
    (nodes : ℕ) : Except String ℕ :=
  match lookup map "properties" with
  | none => .ok nodes
  | some (.object properties) =>
    (entries properties).foldlM (fun nodes f =>
      if f.1 ∈ forbidden then .error "Forbidden property name" else assert f.2 nodes) nodes
  | some _ => .error "properties must be an object"

/-- The schema under `items`. -/
def assert_items (assert : Js → ℕ → Except String ℕ) (map : List (String × Js))
    (nodes : ℕ) : Except String ℕ :=
  match lookup map "items" with
  | none => .ok nodes
  | some (.object items) => assert (.object items) nodes
  | some _ => .error "items must be a schema"

/-- The schema under `additionalProperties`, unless it is a boolean. -/
def assert_additional (assert : Js → ℕ → Except String ℕ) (map : List (String × Js))
    (nodes : ℕ) : Except String ℕ :=
  match lookup map "additionalProperties" with
  | some (.object additional) => assert (.object additional) nodes
  | _ => .ok nodes

/-- The branches under the combinators. -/
def assert_branches (assert : Js → ℕ → Except String ℕ) (map : List (String × Js))
    (nodes : ℕ) : Except String ℕ :=
  COMBINATORS.foldlM (fun nodes key =>
    match lookup map key with
    | none => .ok nodes
    | some (.array branches) =>
      if branches = [] ∨ MAX_COMBINATOR_BRANCHES < branches.length then
        .error (key ++ " must be an array of 1-64 schemas")
      else
        branches.foldlM (fun nodes branch =>
          if (as_record branch).isSome then assert branch nodes
          else .error (key ++ " branches must be schemas")) nodes
    | some _ => .error (key ++ " must be an array of 1-64 schemas")) nodes

/-- The body of `assertStrictSchema` for a record. -/
def assert_record (assert : Js → ℕ → Except String ℕ) (allow_annotations : Bool)
    (map : List (String × Js)) (nodes : ℕ) : Except String ℕ := do
  (entries map).forM (fun f => assure (decide (f.1 ∈ supported) || (allow_annotations &&
    (decide (f.1 ∈ annotations) || "x-".toList.isPrefixOf f.1.toList)))
      ("Unsupported strict-generated schema constraint: " ++ f.1))
  assert_types map
  assert_values map
  let nodes ← assert_properties assert map nodes
  let nodes ← assert_items assert map nodes
  let nodes ← assert_additional assert map nodes
  assert_branches assert map nodes

def assert_strict_schema (allow_annotations : Bool) : ℕ → Js → ℕ → Except String ℕ
  | levels, schema, nodes =>
    match as_record schema with
    | none => .error "Invalid strict-generated schema"
    | some map =>
      match levels with
      | 0 => .error "Schema nesting exceeds limit"
      | levels + 1 =>
        if MAX_NODES < nodes + 1 then .error "Schema nesting exceeds limit"
        else assert_record (assert_strict_schema allow_annotations levels) allow_annotations map
          (nodes + 1)

/-! ## The value -/

/-- What a check throws: an `InputLimitError`, or any other error. -/
inductive Thrown
  | limit (message : String)
  | error (message : String)
  deriving DecidableEq

/-- The condition, or an error with the message. -/
def require (condition : Bool) (message : String) : Except Thrown Unit :=
  if condition then .ok () else .error (.error message)

def child_path (path key : String) : String := if path = "" then key else path ++ "." ++ key

/-- The path of an item: `pathOf` with a number. -/
def item_path (path : String) (i : ℕ) : String := path ++ "[" ++ toString i ++ "]"

/-- `path || "input"` -/
def path_or_input (path : String) : String := if path = "" then "input" else path

/-- `typeMatchers` -/
def type_matches (type : String) (value : Js) : Bool :=
  match value with
  | .null => type == "null"
  | .object _ => type == "object"
  | .array _ => type == "array"
  | .number f => type == "number" || (type == "integer" && f.is_safe_integer)
  | .string _ => type == "string"
  | .bool _ => type == "boolean"

def number_at (map : List (String × Js)) (key : String) : Option F64 :=
  match lookup map key with
  | some (.number f) => some f
  | _ => none

/-- The bound under a keyword, which throws if it is broken. -/
def check_bound (map : List (String × Js)) (key : String) (breaks : ℚ → Bool)
    (message : String) : Except Thrown Unit :=
  match number_at map key with
  | none => .ok ()
  | some bound => require (!breaks bound.value) message

def has_duplicates : List Js → Bool
  | [] => false
  | item :: items => items.any (deep_equal item) || has_duplicates items

section Check

variable (credential_keys : List String) (map : List (String × Js)) (path : String)
  (check : Js → String → Js → Except Thrown Unit)

def check_type (value : Js) : Except Thrown Unit :=
  require ((types map).isEmpty || (types map).any (fun type => type_matches type value))
    (path_or_input path ++ " has an invalid type (expected "
      ++ " or ".intercalate (types map) ++ ")")

def check_enum (value : Js) : Except Thrown Unit :=
  match lookup map "enum" with
  | some (.array values) =>
    require (values.any (fun allowed => deep_equal allowed value))
      (path_or_input path ++ " is not an allowed value")
  | _ => .ok ()

def check_const (value : Js) : Except Thrown Unit :=
  match lookup map "const" with
  | none => .ok ()
  | some constant =>
    require (deep_equal constant value) (path_or_input path ++ " is not an allowed value")

def check_string (s : String) : Except Thrown Unit := do
  check_bound map "minLength" (fun bound => (s.length : ℚ) < bound) (path ++ " is too short")
  check_bound map "maxLength" (fun bound => bound < (s.length : ℚ)) (path ++ " is too long")

def check_number (f : F64) : Except Thrown Unit := do
  check_bound map "minimum" (fun bound => f.value < bound) (path ++ " is below minimum")
  check_bound map "exclusiveMinimum" (fun bound => f.value ≤ bound) (path ++ " is below minimum")
  check_bound map "maximum" (fun bound => bound < f.value) (path ++ " is above maximum")
  check_bound map "exclusiveMaximum" (fun bound => bound ≤ f.value) (path ++ " is above maximum")

/-- The schema of the items: `items ?? empty`. -/
def item_schema : Js :=
  match lookup map "items" with
  | some (.object items) => .object items
  | _ => .object []

def check_unique (items : List Js) : Except Thrown Unit :=
  match lookup map "uniqueItems" with
  | some (.bool true) => require (!has_duplicates items) (path ++ " has duplicate items")
  | _ => .ok ()

def check_array (items : List Js) : Except Thrown Unit := do
  check_bound map "minItems" (fun bound => (items.length : ℚ) < bound)
    (path ++ " has too few items")
  check_bound map "maxItems" (fun bound => bound < (items.length : ℚ))
    (path ++ " has too many items")
  check_unique map path items
  items.zipIdx.forM (fun item => check (item_schema map) (item_path path item.2) item.1)

def required (map : List (String × Js)) : List String :=
  match lookup map "required" with
  | some (.array names) => names.filterMap Value.as_str
  | _ => []

/-- The schema that is declared for a property. -/
def declared (map : List (String × Js)) (name : String) : Option Js :=
  match lookup map "properties" with
  | some (.object properties) => lookup properties name
  | _ => none

/-- The field is exempt: a credential key where the path is empty. -/
def exempt (name : String) : Bool := path == "" && decide (name ∈ credential_keys)

def check_field (f : String × Js) : Except Thrown Unit :=
  if f.1 ∈ forbidden then .error (.error "Forbidden input field")
  else
    match declared map f.1 with
    | some child => check child (child_path path f.1) f.2
    | none =>
      if exempt credential_keys path f.1 then .ok ()
      else
        match lookup map "additionalProperties" with
        | some (.object additional) => check (.object additional) (child_path path f.1) f.2
        | some (.bool false) =>
          .error (.error ("Unsupported input field: " ++ child_path path f.1))
        | _ => check (.object []) (child_path path f.1) f.2

def check_record (fields : List (String × Js)) : Except Thrown Unit := do
  check_bound map "minProperties" (fun bound => (fields.length : ℚ) < bound)
    (path_or_input path ++ " has too few properties")
  check_bound map "maxProperties" (fun bound => bound < (fields.length : ℚ))
    (path_or_input path ++ " has too many properties")
  (required map).forM (fun name =>
    require (lookup fields name).isSome (child_path path name ++ " is required"))
  (entries fields).forM (check_field credential_keys map path check)

/-- The checks on a string, a number, an array or an object. -/
def check_kind (value : Js) : Except Thrown Unit :=
  match value with
  | .string s => check_string map path s
  | .number f => check_number map path f
  | .array items => check_array map path check items
  | .object fields => check_record credential_keys map path check fields
  | _ => .ok ()

/-- `check` of `compileNode` -/
def check_value (value : Js) : Except Thrown Unit := do
  check_type map path value
  check_enum map path value
  check_const map path value
  check_kind credential_keys map path check value

/-- `matches`: a limit is not a mismatch. -/
def attempt (result : Except Thrown Unit) : Except Thrown Bool :=
  match result with
  | .ok _ => .ok true
  | .error (.limit message) => .error (.limit message)
  | .error (.error _) => .ok false

/-- One of the branches matches; those after it are not tried. -/
def any_matches (try_branch : Js → Except Thrown Unit) : List Js → Except Thrown Bool
  | [] => .ok false
  | branch :: branches =>
    (attempt (try_branch branch)).bind (fun matched =>
      if matched then .ok true else any_matches try_branch branches)

/-- The number of branches that match, up to two. -/
def count_matches (try_branch : Js → Except Thrown Unit) : List Js → ℕ → Except Thrown ℕ
  | [], n => .ok n
  | branch :: branches, n =>
    if n < 2 then
      (attempt (try_branch branch)).bind (fun matched =>
        count_matches try_branch branches (if matched then n + 1 else n))
    else .ok n

def branches (key : String) : Option (List Js) := (lookup map key).bind as_array

def any_of_required : Option String :=
  (branches map "anyOf").bind (fun bs =>
    let names := bs.map (fun b =>
      match b with
      | .object [("required", .array names)] =>
        if names.isEmpty then none else some ("+".intercalate (names.filterMap Value.as_str))
      | _ => none)
    if names.all Option.isSome then some (" | ".intercalate (names.filterMap id)) else none)

def check_all_of (value : Js) : Except Thrown Unit :=
  match branches map "allOf" with
  | none => .ok ()
  | some bs => bs.forM (fun branch => check branch path value)

def check_any_of (value : Js) : Except Thrown Unit :=
  match branches map "anyOf" with
  | none => .ok ()
  | some bs =>
    (any_matches (fun branch => check branch path value) bs).bind (fun matched =>
      require matched (path_or_input path ++
        match any_of_required map with
        | some names => " requires one of: " ++ names
        | none => " does not match any allowed alternative"))

def check_one_of (value : Js) : Except Thrown Unit :=
  match branches map "oneOf" with
  | none => .ok ()
  | some bs =>
    (count_matches (fun branch => check branch path value) bs 0).bind (fun matched =>
      require (matched == 1) (path_or_input path ++ " must match exactly one allowed alternative"))

end Check

/-- `compileNode`, applied to a value. -/
def check_node (credential_keys : List String) : ℕ → Js → String → Js → Except Thrown Unit
  | 0, _, _, _ => .error (.limit "Input nesting exceeds limit")
  | levels + 1, schema, path, value => do
    let map := (as_record schema).getD []
    check_value credential_keys map path (check_node credential_keys levels) value
    check_all_of map path (check_node credential_keys levels) value
    check_any_of map path (check_node credential_keys levels) value
    check_one_of map path (check_node credential_keys levels) value

/-- `compileStrictValidator(schema, { credentialKeys, registry: true })` -/
def compile_strict_validator (schema : Js) (credential_keys : List String) :
    Except String (Js → Except Thrown Js) :=
  (assert_strict_schema true levels_at_root schema 0).map (fun _ input =>
    (check_node credential_keys levels_at_root schema "" input).map (fun _ => input))

end Appcall.Strict
