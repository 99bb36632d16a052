/-
What a schema means: the values that satisfy it, keyword by keyword.

`Satisfies` is the standard reading of the keywords, by sets of values: no errors, no
limit on the depth, and every combinator is read. Numbers are compared as rationals and
values are equal up to the spelling of their numbers and the order of their fields.
-/
import Appcall.Connectors.Schema

set_option autoImplicit false

namespace Appcall.Connectors

open Value (lookup)

def Number.Whole : Number → Prop
  | .pos_int _ | .neg_int _ => True
  | .float f => ∃ z : ℤ, f.value = z

def HasType (kind : String) (value : Value Number) : Prop :=
  (kind = "object" ∧ ∃ fields, value = .object fields)
    ∨ (kind = "array" ∧ ∃ items, value = .array items)
    ∨ (kind = "string" ∧ ∃ s, value = .string s)
    ∨ (kind = "number" ∧ ∃ n, value = .number n)
    ∨ (kind = "integer" ∧ ∃ n, value = .number n ∧ n.Whole)
    ∨ (kind = "boolean" ∧ ∃ b, value = .bool b)
    ∨ (kind = "null" ∧ value = .null)

/-- The keyword holds where the schema has it. -/
def Keyword (map : List (String × Value Number)) (key : String)
    (holds : Value Number → Prop) : Prop :=
  ∀ given, lookup map key = some given → holds given

section

variable (ryu : Ryu) (map : List (String × Value Number))

/-- The values are equal, with numbers compared as rationals. -/
def Same (a b : Value Number) : Prop :=
  Value.alike (fun m n => decide (m.value ryu = n.value ryu)) a b = true

def MeetsType (value : Value Number) : Prop :=
  Keyword map "type" fun given =>
    (∃ kind, given = .string kind ∧ HasType kind value)
      ∨ ∃ kinds, given = .array kinds ∧ ∃ kind, .string kind ∈ kinds ∧ HasType kind value

def MeetsEnum (value : Value Number) : Prop :=
  Keyword map "enum" fun given =>
    ∃ values, given = .array values ∧ ∃ allowed ∈ values, Same ryu allowed value

def MeetsConst (value : Value Number) : Prop :=
  Keyword map "const" fun constant => Same ryu constant value

/-- The bound under the keyword stands in the relation to the number. -/
def Bounded (key : String) (holds : ℚ → Prop) : Prop :=
  Keyword map key fun given => ∃ m : Number, given = .number m ∧ holds (m.value ryu)

def InRange (n : Number) : Prop :=
  Bounded ryu map "minimum" (· ≤ n.value ryu)
    ∧ Bounded ryu map "maximum" (n.value ryu ≤ ·)
    ∧ Bounded ryu map "exclusiveMinimum" (· < n.value ryu)
    ∧ Bounded ryu map "exclusiveMaximum" (n.value ryu < ·)

/-- The count lies between the two bounds. -/
def Counted (least most : String) (count : ℕ) : Prop :=
  (Keyword map least fun given => ∃ n, as_u64 given = some n ∧ n ≤ count)
    ∧ Keyword map most fun given => ∃ n, as_u64 given = some n ∧ count ≤ n

def HasRequired (fields : List (String × Value Number)) : Prop :=
  Keyword map "required" fun given =>
    ∃ names, given = .array names ∧ ∀ name, .string name ∈ names → name ∈ fields.map Prod.fst

def Unique (items : List (Value Number)) : Prop :=
  Keyword map "uniqueItems" fun given =>
    given = .bool true → items.Pairwise (fun a b => ¬Same ryu a b)

end

/-- The schema for a field: the one of its name, or else the one for additional fields. -/
def Governs (map : List (String × Value Number)) (name : String) (schema : Value Number) :
    Prop :=
  (∃ properties, lookup map "properties" = some (.object properties)
      ∧ lookup properties name = some schema)
    ∨ (∀ properties, lookup map "properties" = some (.object properties) →
        lookup properties name = none)
      ∧ lookup map "additionalProperties" = some schema

/-! ## The size of what a schema holds -/

theorem lookup_size {fields : List (String × Value Number)} {name : String}
    {v : Value Number} (h : lookup fields name = some v) : sizeOf v < sizeOf fields := by
  have hmem := List.sizeOf_lt_of_mem (Value.lookup_some h)
  rw [Prod.mk.sizeOf_spec] at hmem
  omega

theorem branch_size {map : List (String × Value Number)} {key : String}
    {branches : List (Value Number)} (h : lookup map key = some (.array branches))
    {branch : Value Number} (hmem : branch ∈ branches) :
    sizeOf branch < sizeOf (Value.object map) := by
  have hbranches := lookup_size h
  have hbranch := List.sizeOf_lt_of_mem hmem
  rw [Value.array.sizeOf_spec] at hbranches
  rw [Value.object.sizeOf_spec]
  omega

theorem governs_size {map : List (String × Value Number)} {name : String}
    {schema : Value Number} (h : Governs map name schema) :
    sizeOf schema < sizeOf (Value.object map) := by
  rw [Value.object.sizeOf_spec]
  rcases h with ⟨properties, hproperties, hschema⟩ | ⟨_, hschema⟩
  · have houter := lookup_size hproperties
    have hinner := lookup_size hschema
    rw [Value.object.sizeOf_spec] at houter
    omega
  · have hsize := lookup_size hschema
    omega

/-! ## Satisfaction -/

def Satisfies (ryu : Ryu) (schema value : Value Number) : Prop :=
  match schema with
  | .bool flag => flag = true
  | .object map =>
    MeetsType map value
      ∧ MeetsEnum ryu map value
      ∧ MeetsConst ryu map value
      ∧ (∀ n, value = .number n → InRange ryu map n)
      ∧ (∀ fields, value = .object fields →
        Counted map "minProperties" "maxProperties" fields.length
          ∧ HasRequired map fields
          ∧ ∀ f ∈ fields, ∀ sub, (_ : Governs map f.1 sub) → Satisfies ryu sub f.2)
      ∧ (∀ items, value = .array items →
        Counted map "minItems" "maxItems" items.length
          ∧ Unique ryu map items
          ∧ ∀ sub, (_ : lookup map "items" = some sub) → ∀ item ∈ items, Satisfies ryu sub item)
      ∧ (∀ branches, (_ : lookup map "allOf" = some (.array branches)) →
        ∀ i : Fin branches.length, Satisfies ryu (branches.get i) value)
      ∧ (∀ branches, (_ : lookup map "anyOf" = some (.array branches)) →
        ∃ i : Fin branches.length, Satisfies ryu (branches.get i) value)
      ∧ (∀ branches, (_ : lookup map "oneOf" = some (.array branches)) →
        ∃! i : Fin branches.length, Satisfies ryu (branches.get i) value)
      ∧ ∀ s, value = .string s → Counted map "minLength" "maxLength" s.length
  | _ => False
termination_by sizeOf schema
decreasing_by
  · exact governs_size ‹_›
  · have hsize := lookup_size ‹_›
    rw [Value.object.sizeOf_spec]
    omega
  all_goals exact branch_size ‹_› (List.get_mem _ _)

end Appcall.Connectors
