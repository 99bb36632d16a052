/-
The schema validator of the control plane: `check_schema` and `validate` of
`crates/appcall-connectors/src/schema.rs`.

A schema is a JSON value. Both functions take the number of levels that are left under
the limit: the `depth` of the source is 65 less the levels, and none is left past a depth
of 64. A `usize` has 64 bits, so that the bound of a length is what `as_u64` reads.
-/
import Appcall.Connectors.Number

set_option autoImplicit false

namespace Appcall.Connectors

open Value (lookup)

def MAX_SCHEMA_NODES : ℕ := 4096

def MAX_COMBINATOR_BRANCHES : ℕ := 64

/-- The levels that `MAX_SCHEMA_DEPTH` leaves at depth 0. -/
def levels_at_root : ℕ := 65

def COMBINATORS : List String := ["anyOf", "allOf", "oneOf"]

/-- The keywords of a schema, but for the combinators and those that start with `x-`. -/
def keywords : List String :=
  ["type", "properties", "required", "items", "additionalProperties", "enum", "const",
    "minLength", "maxLength", "minItems", "maxItems", "minProperties", "maxProperties",
    "minimum", "maximum", "exclusiveMinimum", "exclusiveMaximum", "uniqueItems",
    "description", "title", "default", "examples", "format", "$schema", "$id", "$comment",
    "readOnly", "writeOnly", "deprecated"]

def unsupported {α : Type} : Except Stop α := .error (.error .UnsupportedSchema)

/-- The condition, or the error of the code. -/
def require (condition : Bool) (code : ErrorCode) : Except Stop Unit :=
  if condition then .ok () else .error (.error code)

/-! ## Values -/

variable {ν : Type}

def as_array : Value ν → Option (List (Value ν))
  | .array items => some items
  | _ => none

def as_object : Value ν → Option (List (String × Value ν))
  | .object fields => some fields
  | _ => none

def is_boolean : Value ν → Bool
  | .bool _ => true
  | _ => false

def is_string : Value ν → Bool
  | .string _ => true
  | _ => false

def is_number : Value ν → Bool
  | .number _ => true
  | _ => false

def as_u64 : Value Number → Option ℕ
  | .number (.pos_int n) => some n.toNat
  | _ => none

/-- `is_i64() || is_u64() || as_f64().fract() == 0.0` -/
def Number.is_integer : Number → Bool
  | .pos_int _ | .neg_int _ => true
  | .float f => f.is_whole

def matches_type (kind : String) (value : Value Number) : Except Stop Bool :=
  if kind = "object" then .ok value.is_object
  else if kind = "array" then .ok (as_array value).isSome
  else if kind = "string" then .ok (is_string value)
  else if kind = "number" then .ok (is_number value)
  else if kind = "integer" then
    .ok (match value with
      | .number n => n.is_integer
      | _ => false)
  else if kind = "boolean" then .ok (is_boolean value)
  else if kind = "null" then .ok value.is_null
  else unsupported

/-- The types of a schema, each looked at. -/
def matches_types (kinds : List (Value Number)) (value : Value Number) : Except Stop Bool :=
  kinds.foldlM (fun any kind =>
    match kind with
    | .string k => (matches_type k value).map (any || ·)
    | _ => unsupported) false

/-! ## The schema -/

/-- The nodes so far, and whether a combinator was seen. -/
abbrev Seen : Type := ℕ × Bool

/-- The type names of a schema are known. -/
def check_type (map : List (String × Value Number)) : Except Stop Unit :=
  match lookup map "type" with
  | none => .ok ()
  | some (.string kind) => (matches_type kind .null).map (fun _ => ())
  | some (.array kinds) =>
    if kinds = [] then unsupported else (matches_types kinds .null).map (fun _ => ())
  | some _ => unsupported

/-- The schemas under `properties`. -/
def check_properties (check : Value Number → Seen → Except Stop Seen)
    (map : List (String × Value Number)) (seen : Seen) : Except Stop Seen :=
  match lookup map "properties" with
  | none => .ok seen
  | some (.object properties) => properties.foldlM (fun seen f => check f.2 seen) seen
  | some _ => unsupported

/-- The schemas under `items` and `additionalProperties`. -/
def check_children (check : Value Number → Seen → Except Stop Seen)
    (map : List (String × Value Number)) (seen : Seen) : Except Stop Seen :=
  ["items", "additionalProperties"].foldlM (fun seen key =>
    match lookup map key with
    | none => .ok seen
    | some child => check child seen) seen

def local_combinators (map : List (String × Value Number)) : Bool :=
  map.any (fun f => decide (f.1 ∈ COMBINATORS))

/-- The branches under the combinators. -/
def check_branches (check : Value Number → Seen → Except Stop Seen)
    (map : List (String × Value Number)) (seen : Seen) : Except Stop Seen :=
  COMBINATORS.foldlM (fun seen key =>
    match lookup map key with
    | none => .ok seen
    | some (.array branches) =>
      if branches = [] ∨ MAX_COMBINATOR_BRANCHES < branches.length then unsupported
      else
        branches.foldlM (fun seen branch =>
          if branch.is_object then check branch seen else unsupported) seen
    | some _ => unsupported) seen

/-- The combinators, which set the flag and are walked where the schema has one. -/
def check_combinators (check : Value Number → Seen → Except Stop Seen)
    (map : List (String × Value Number)) (seen : Seen) : Except Stop Seen :=
  if local_combinators map then check_branches check map (seen.1, true) else .ok seen

/-- The other keywords have values of their type. -/
def check_values (map : List (String × Value Number)) : Except Stop Unit := do
  require ((lookup map "required").all (fun required =>
    (as_array required).any (fun names => names.all is_string))) .UnsupportedSchema
  require ((lookup map "enum").all (fun values =>
    (as_array values).any (fun v => !v.isEmpty))) .UnsupportedSchema
  require (["minItems", "maxItems", "minLength", "maxLength", "minProperties",
    "maxProperties"].all (fun key => (lookup map key).all (fun bound =>
      (as_u64 bound).isSome))) .UnsupportedSchema
  require (["minimum", "maximum", "exclusiveMinimum", "exclusiveMaximum"].all (fun key =>
    (lookup map key).all is_number)) .UnsupportedSchema
  require ((lookup map "uniqueItems").all is_boolean) .UnsupportedSchema

def supported (key : String) : Bool :=
  decide (key ∈ COMBINATORS) || decide (key ∈ keywords) || "x-".toList.isPrefixOf key.toList

/-- The body of `check_schema` for an object. -/
def check_object (check : Value Number → Seen → Except Stop Seen)
    (map : List (String × Value Number)) (seen : Seen) : Except Stop Seen := do
  require (map.all (fun f => supported f.1)) .UnsupportedSchema
  check_type map
  let seen ← check_properties check map seen
  let seen ← check_children check map seen
  let seen ← check_combinators check map seen
  check_values map
  .ok seen

def check_schema : ℕ → Value Number → Seen → Except Stop Seen
  | 0, _, _ => unsupported
  | levels + 1, schema, (nodes, combinators) =>
    if MAX_SCHEMA_NODES < nodes + 1 then unsupported
    else
      match schema with
      | .bool _ => .ok (nodes + 1, combinators)
      | .object map => check_object (check_schema levels) map (nodes + 1, combinators)
      | _ => unsupported

/-! ## The value -/

section Validate

variable (ryu : Ryu) (code : ErrorCode) (map : List (String × Value Number))
  (value : Value Number)

def validate_type : Except Stop Unit :=
  match lookup map "type" with
  | none => .ok ()
  | some (.string kind) => (matches_type kind value).bind (require · code)
  | some (.array kinds) => (matches_types kinds value).bind (require · code)
  | some _ => unsupported

def validate_enum : Except Stop Unit :=
  match lookup map "enum" with
  | none => .ok ()
  | some (.array values) =>
    require (values.any (fun allowed => equal_json ryu allowed value)) code
  | some _ => unsupported

def validate_const : Except Stop Unit :=
  match lookup map "const" with
  | none => .ok ()
  | some constant => require (equal_json ryu constant value) code

/-- A bound of a number, and the orders that it allows. -/
def validate_bound (key : String) (allows : Ordering → Bool) : Except Stop Unit :=
  match lookup map key with
  | none => .ok ()
  | some bound => (compare_numbers ryu value bound).bind (fun order => require (allows order) code)

/-- The bounds of a number; other values have none. -/
def validate_number : Except Stop Unit :=
  if is_number value then do
    validate_bound ryu code map value "minimum" (fun order => order != .lt)
    validate_bound ryu code map value "maximum" (fun order => order != .gt)
    validate_bound ryu code map value "exclusiveMinimum" (fun order => order == .gt)
    validate_bound ryu code map value "exclusiveMaximum" (fun order => order == .lt)
  else .ok ()

def validate_length (key : String) (allows : ℕ → Bool) : Except Stop Unit :=
  match lookup map key with
  | none => .ok ()
  | some bound =>
    match as_u64 bound with
    | none => unsupported
    | some n => require (allows n) code

def validate_counted (least most : String) (count : ℕ) : Except Stop Unit := do
  validate_length code map least (fun n => n ≤ count)
  validate_length code map most (fun n => count ≤ n)

def validate_required (fields : List (String × Value Number)) : Except Stop Unit :=
  match lookup map "required" with
  | none => .ok ()
  | some (.array names) => names.forM (fun name =>
    match name with
    | .string name => require (lookup fields name).isSome code
    | _ => unsupported)
  | some _ => unsupported

/-- A field, against the schema of its name or the one for additional fields. -/
def validate_field (validate : Value Number → Value Number → Except Stop Unit)
    (properties : Option (List (String × Value Number))) (f : String × Value Number) :
    Except Stop Unit :=
  match properties.bind (lookup · f.1) with
  | some sub => validate sub f.2
  | none =>
    match lookup map "additionalProperties" with
    | none => .ok ()
    | some additional => validate additional f.2

def validate_fields (validate : Value Number → Value Number → Except Stop Unit)
    (fields : List (String × Value Number)) : Except Stop Unit :=
  match lookup map "properties" with
  | none => fields.forM (validate_field map validate none)
  | some (.object properties) => fields.forM (validate_field map validate (some properties))
  | some _ => unsupported

def has_duplicates : List (Value Number) → Bool
  | [] => false
  | item :: items => items.any (equal_json ryu item) || has_duplicates items

def validate_unique (items : List (Value Number)) : Except Stop Unit :=
  match lookup map "uniqueItems" with
  | some (.bool true) => require (!has_duplicates ryu items) code
  | _ => .ok ()

def validate_items (validate : Value Number → Value Number → Except Stop Unit)
    (items : List (Value Number)) : Except Stop Unit :=
  match lookup map "items" with
  | none => .ok ()
  | some schema => items.forM (validate schema)

def is_ok {α : Type} : Except Stop α → Bool
  | .ok _ => true
  | .error _ => false

/-- The number of branches that match, up to two. -/
def count_matches (matched : Value Number → Bool) : List (Value Number) → ℕ → ℕ
  | [], n => n
  | branch :: branches, n =>
    if matched branch then
      if 1 < n + 1 then n + 1 else count_matches matched branches (n + 1)
    else count_matches matched branches n

def validate_all_of (validate : Value Number → Value Number → Except Stop Unit) :
    Except Stop Unit :=
  match (lookup map "allOf").bind as_array with
  | some branches => branches.forM (fun branch => validate branch value)
  | none => .ok ()

def validate_any_of (validate : Value Number → Value Number → Except Stop Unit) :
    Except Stop Unit :=
  match (lookup map "anyOf").bind as_array with
  | some branches => require (branches.any (fun branch => is_ok (validate branch value))) code
  | none => .ok ()

def validate_one_of (validate : Value Number → Value Number → Except Stop Unit) :
    Except Stop Unit :=
  match (lookup map "oneOf").bind as_array with
  | some branches =>
    require (count_matches (fun branch => is_ok (validate branch value)) branches 0 == 1) code
  | none => .ok ()

def validate_combinators (validate : Value Number → Value Number → Except Stop Unit) :
    Except Stop Unit := do
  validate_all_of map value validate
  validate_any_of code map value validate
  validate_one_of code map value validate

/-- The combinators are read only under the flag. -/
def validate_flagged (combinators : Bool) (check : Except Stop Unit) : Except Stop Unit :=
  if combinators then check else .ok ()

def validate_object (validate : Value Number → Value Number → Except Stop Unit) :
    Except Stop Unit :=
  match as_object value with
  | none => .ok ()
  | some fields => do
    validate_counted code map "minProperties" "maxProperties" fields.length
    validate_required code map fields
    validate_fields map validate fields

def validate_array (validate : Value Number → Value Number → Except Stop Unit) :
    Except Stop Unit :=
  match as_array value with
  | none => .ok ()
  | some items => do
    validate_counted code map "minItems" "maxItems" items.length
    validate_unique ryu code map items
    validate_items map validate items

def validate_string : Except Stop Unit :=
  match value with
  | .string s => validate_counted code map "minLength" "maxLength" s.length
  | _ => .ok ()

end Validate

def validate (ryu : Ryu) (code : ErrorCode) :
    ℕ → Bool → Value Number → Value Number → Except Stop Unit
  | 0, _, _, _ => unsupported
  | levels + 1, combinators, schema, value =>
    match schema with
    | .bool flag => require flag code
    | .object map => do
      validate_type code map value
      validate_enum ryu code map value
      validate_const ryu code map value
      validate_number ryu code map value
      validate_object code map value (validate ryu code levels combinators)
      validate_array ryu code map value (validate ryu code levels combinators)
      validate_flagged combinators
        (validate_combinators code map value (validate ryu code levels true))
      validate_string code map value
    | _ => unsupported

def validate_optional (ryu : Ryu) (schema : Option (Value Number)) (value : Value Number)
    (code : ErrorCode) : Except Stop Unit :=
  match schema with
  | none => .ok ()
  | some schema =>
    (check_schema levels_at_root schema (0, false)).bind (fun seen =>
      validate ryu code levels_at_root seen.2 schema value)

end Appcall.Connectors
