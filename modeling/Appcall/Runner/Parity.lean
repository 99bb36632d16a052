/-
The runner's validator against the meaning of a schema.

The runner walks the schema and the value together, and its walk ends early: at the first
type, entry or branch that is found, at the first check, item, field or branch that fails.
`Walk` says what is asked of the places it comes to, where coming to a place is told by the
meaning of what stands before it. If what is asked makes both sides find the same at these
places, the runner's verdict is what the schema means: a value that passes satisfies the
schema, and one that is refused, but for the limit, does not.
-/
import Appcall.Connectors.Decided
import Appcall.Runner.Shared

set_option autoImplicit false

namespace Appcall.Parity

open Connectors (Number Ryu to_js Keyword as_u64 Satisfies Same HasType equal_json MeetsType
  MeetsEnum MeetsConst InRange Counted HasRequired Governs)
open Strict (Js Thrown child_path item_path)
open Value (lookup)

/-! ## The places of the walk -/

/-- The schema that is declared for a property. -/
def declared (map : List (String × Value Number)) (name : String) : Option (Value Number) :=
  ((lookup map "properties").bind Connectors.as_object).bind (lookup · name)

/-- The schema that a field is walked with, unless it is refused. -/
def field_schema (map : List (String × Value Number)) (name : String) : Option (Value Number) :=
  match declared map name with
  | some sub => some sub
  | none =>
    match lookup map "additionalProperties" with
    | some (.object additional) => some (.object additional)
    | some (.bool false) => none
    | _ => some (.object [])

def item_schema (map : List (String × Value Number)) : Value Number :=
  match lookup map "items" with
  | some (.object items) => .object items
  | _ => .object []

/-- What is asked of the places of a walk: of the limit, of a number that is taken for an
integer, of two values that are compared, and of a field by its schema, path and name. -/
structure Demands where
  limit : Prop
  integer : Number → Prop
  equal : Value Number → Value Number → Prop
  field : List (String × Value Number) → String → String → Prop

section Places

variable (ryu : Ryu) (D : Demands) (map : List (String × Value Number)) (v : Value Number)

/-- The pairs that are compared, up to the first two that are the same. -/
def Pairs : List (Value Number) → Prop
  | [] => True
  | a :: items => Loops (fun b => ¬Same ryu a b) (D.equal a) items
      ∧ ((∀ b ∈ items, ¬Same ryu a b) → Pairs items)

/-- The branches that are counted, up to the second that is satisfied. -/
def Counts (satisfied P : Value Number → Prop) : ℕ → List (Value Number) → Prop
  | _, [] => True
  | n, b :: branches => P b ∧ (¬satisfied b → Counts satisfied P n branches)
      ∧ (satisfied b → n = 0 → Counts satisfied P 1 branches)

/-- The value is of the type, in the enumeration and the constant that the schema asks for. -/
def Fitting : Prop := MeetsType map v ∧ MeetsEnum ryu map v ∧ MeetsConst ryu map v

/-- So is what the schema asks of a number, the fields, the items or a text. -/
def MeetsKind : Prop :=
  (∀ n, v = .number n → InRange ryu map n)
    ∧ (∀ fields, v = .object fields → Counted map "minProperties" "maxProperties" fields.length
      ∧ HasRequired map fields ∧ ∀ f ∈ fields, ∀ sub, Governs map f.1 sub → Satisfies ryu sub f.2)
    ∧ (∀ items, v = .array items → Counted map "minItems" "maxItems" items.length
      ∧ Connectors.Unique ryu map items
      ∧ ∀ sub, lookup map "items" = some sub → ∀ item ∈ items, Satisfies ryu sub item)
    ∧ ∀ s, v = .string s → Counted map "minLength" "maxLength" s.length

def AllOf : Prop := ∀ branches, lookup map "allOf" = some (.array branches) →
  ∀ i : Fin branches.length, Satisfies ryu (branches.get i) v

def AnyOf : Prop := ∀ branches, lookup map "anyOf" = some (.array branches) →
  ∃ i : Fin branches.length, Satisfies ryu (branches.get i) v

/-- What is asked where a value meets a schema, each check if those before it pass; `walk` is
what is asked of the value against a subschema, and of its items and fields. -/
structure Place (walk : Value Number → String → Value Number → Prop) (path : String) : Prop where
  type : ∀ n, v = .number n → Loops (fun kind => ¬HasType kind v)
    (fun kind => kind = "integer" → D.integer n) (Strict.types (fields_to_js map))
  enum : MeetsType map v → ∀ values, lookup map "enum" = some (.array values) →
    Loops (fun c => ¬Same ryu c v) (D.equal · v) values
  const : MeetsType map v → MeetsEnum ryu map v → ∀ c, lookup map "const" = some c → D.equal c v
  unique : Fitting ryu map v → ∀ items, v = .array items →
    Counted map "minItems" "maxItems" items.length →
    lookup map "uniqueItems" = some (.bool true) → Pairs ryu D items
  items : Fitting ryu map v → ∀ items, v = .array items →
    Counted map "minItems" "maxItems" items.length → Connectors.Unique ryu map items →
    Loops (fun x => Satisfies ryu (item_schema map) x.1)
      (fun x => walk (item_schema map) (item_path path x.2) x.1) items.zipIdx
  fields : Fitting ryu map v → ∀ fields, v = .object fields →
    Counted map "minProperties" "maxProperties" fields.length → HasRequired map fields →
    Loops (fun f => ∀ sub, Governs map f.1 sub → Satisfies ryu sub f.2)
      (fun f => D.field map path f.1
        ∧ ∀ sub, field_schema map f.1 = some sub → walk sub (child_path path f.1) f.2)
      (Strict.entries fields)
  all_of : Fitting ryu map v → MeetsKind ryu map v →
    ∀ branches, lookup map "allOf" = some (.array branches) →
    Loops (Satisfies ryu · v) (walk · path v) branches
  any_of : Fitting ryu map v → MeetsKind ryu map v → AllOf ryu map v →
    ∀ branches, lookup map "anyOf" = some (.array branches) →
    Loops (fun b => ¬Satisfies ryu b v) (walk · path v) branches
  one_of : Fitting ryu map v → MeetsKind ryu map v → AllOf ryu map v → AnyOf ryu map v →
    ∀ branches, lookup map "oneOf" = some (.array branches) →
    Counts (Satisfies ryu · v) (walk · path v) 0 branches

/-- What is asked of the places that the walk comes to with so many levels to go. -/
def Walk : ℕ → Value Number → String → Value Number → Prop
  | 0, _, _, _ => D.limit
  | levels + 1, schema, path, v => ∀ map, schema = .object map →
    Place ryu D map v (Walk levels) path

end Places

/-- Both sides find the same values equal. -/
def EqualOnBoth (ryu : Ryu) (a b : Value Number) : Prop :=
  Strict.deep_equal (to_js a) (to_js b) = equal_json ryu a b

/-- What is asked makes both sides find the same in the numbers and parts of the value. -/
structure Suffices (ryu : Ryu) (D : Demands) (value : Value Number) : Prop where
  integer : ∀ n, Value.Part value (.number n) → D.integer n → n.Whole →
    n.to_js.is_safe_integer = true
  equal : ∀ c w, Value.Part value w → D.equal c w → EqualOnBoth ryu c w

/-- The fields of the value that are come to have no forbidden name and are not exempt. -/
def Guarded (D : Demands) (credential_keys : List String) (value : Value Number) : Prop :=
  ∀ fields, Value.Part value (.object fields) → ∀ f ∈ fields, ∀ map path, D.field map path f.1 →
    f.1 ∉ Strict.forbidden ∧ (path = "" → f.1 ∈ credential_keys → declared map f.1 ≠ none)

theorem Suffices.part {ryu : Ryu} {D : Demands} {value w : Value Number}
    (h : Suffices ryu D value) (hpart : Value.Part value w) : Suffices ryu D w :=
  ⟨fun n hn => h.integer n (hpart.trans hn), fun c x hx => h.equal c x (hpart.trans hx)⟩

/-- A check has thrown, but not for the limit. -/
def Mismatch (e : Thrown) : Prop := ∃ message, e = .error message

def Limit (e : Thrown) : Prop := ∃ message, e = .limit message

/-- The check tells whether the property holds, unless it runs into the limit. -/
abbrev Says (D : Demands) (check : Except Thrown Unit) (p : Prop) : Prop :=
  Tells Mismatch (fun e => D.limit ∧ Limit e) check p

theorem Counts.imp {satisfied P Q : Value Number → Prop} {n : ℕ} {branches : List (Value Number)}
    (h : Counts satisfied P n branches) (hPQ : ∀ b ∈ branches, P b → Q b) :
    Counts satisfied Q n branches := by
  induction branches generalizing n with
  | nil => trivial
  | cons b branches ih =>
    have hrest : ∀ c ∈ branches, P c → Q c := fun c hc => hPQ c (List.mem_cons_of_mem b hc)
    exact ⟨hPQ b List.mem_cons_self h.1, fun hb => ih (h.2.1 hb) hrest,
      fun hb hn => ih (h.2.2 hb hn) hrest⟩

/-! ## The checks of a place -/

variable {ryu : Ryu} {D : Demands} {credential_keys : List String}
  {map : List (String × Value Number)} {v : Value Number} {path : String}

variable {message : String} {p : Value Number → Prop} {given : Value Number} {count : ℕ}
  {items : List (Value Number)} {schema value : Value Number} {key : String}

theorem tells_require {condition : Bool} {p : Prop} (h : condition = true ↔ p) :
    Says D (Strict.require condition message) p :=
  Tells.ite ⟨message, rfl⟩ h

theorem type_matches_iff {kind : String} (hkind : kind ∈ Connectors.TYPES)
    (hinteger : ∀ n, v = .number n → kind = "integer" → n.Whole →
      n.to_js.is_safe_integer = true) :
    Strict.type_matches kind (to_js v) = true ↔ HasType kind v := by
  have hwhole : ∀ n : Number, n.to_js.is_safe_integer = true → n.Whole := by
    intro n hn
    cases n with
    | float f =>
      rw [Number.to_js, F64.is_safe_integer, Bool.and_eq_true] at hn
      exact (Number.is_integer_iff (.float f)).mp hn.1
    | _ => trivial
  cases v with
  | number n =>
    change (kind == "number" || (kind == "integer" && n.to_js.is_safe_integer)) = true ↔ _
    rw [Bool.or_eq_true, Bool.and_eq_true, beq_iff_eq, beq_iff_eq]
    constructor
    · rintro (rfl | ⟨rfl, hsafe⟩)
      · simp [HasType]
      · simp [HasType, hwhole n hsafe]
    · intro h
      simp only [HasType, reduceCtorEq, exists_false, and_false, or_false, false_or,
        Value.number.injEq] at h
      rcases h with ⟨rfl, _⟩ | ⟨rfl, n', rfl, hw⟩
      · exact .inl rfl
      · exact .inr ⟨rfl, hinteger _ rfl rfl hw⟩
  | _ =>
    simp [to_js, Value.map, Strict.type_matches, HasType]

theorem keyword_absent (h : lookup map key = none) : Keyword map key p := by
  intro given hgiven
  rw [h] at hgiven
  cases hgiven

theorem keyword_iff (h : lookup map key = some given) : Keyword map key p ↔ p given := by
  refine ⟨fun hp => hp given h, fun hp given' hgiven' => ?_⟩
  rw [h] at hgiven'
  cases hgiven'
  exact hp

theorem mem_strings {names : List (Value Number)} {name : String} :
    name ∈ (Value.map_items Number.to_js names).filterMap Value.as_str
      ↔ .string name ∈ names := by
  rw [Value.map_items_eq, List.mem_filterMap]
  constructor
  · rintro ⟨x, hx, hname⟩
    obtain ⟨y, hy, rfl⟩ := List.mem_map.mp hx
    cases y with
    | string s =>
      cases hname
      exact hy
    | _ => cases hname
  · exact fun hmem => ⟨.string name, List.mem_map.mpr ⟨_, hmem, rfl⟩, rfl⟩

theorem tells_type (h : Shared map) (hinteger : ∀ n, v = .number n →
      Loops (fun kind => ¬HasType kind v)
        (fun kind => kind = "integer" → n.Whole → n.to_js.is_safe_integer = true)
        (Strict.types (fields_to_js map))) :
    Says D (Strict.check_type (fields_to_js map) path (to_js v)) (MeetsType map v) := by
  refine tells_require ?_
  have hmatches : (∀ kind ∈ Strict.types (fields_to_js map), kind ∈ Connectors.TYPES) →
      ((Strict.types (fields_to_js map)).any (fun kind => Strict.type_matches kind (to_js v)) = true
        ↔ ∃ kind ∈ Strict.types (fields_to_js map), HasType kind v) := by
    intro hkinds
    refine Loops.any_iff ?_
    by_cases hnumber : ∃ n, v = .number n
    · obtain ⟨n, rfl⟩ := hnumber
      refine (hinteger n rfl).imp fun kind hkind hsafe => ?_
      refine type_matches_iff (hkinds kind hkind) fun n' hn' => ?_
      cases hn'
      exact hsafe
    · exact .of_forall fun kind hkind =>
        type_matches_iff (hkinds kind hkind) fun n hn => absurd ⟨n, hn⟩ hnumber
  cases hlookup : lookup map "type" with
  | none =>
    have htypes : Strict.types (fields_to_js map) = [] := by
      rw [Strict.types, fields_to_js, Value.lookup_map, hlookup]
      rfl
    rw [htypes]
    exact ⟨fun _ => keyword_absent hlookup, fun _ => rfl⟩
  | some given =>
    rcases h.type given hlookup with ⟨kind, hkind, rfl⟩ | ⟨kinds, rfl, hne, hkinds⟩
    · have htypes : Strict.types (fields_to_js map) = [kind] := by
        rw [Strict.types, lookup_js hlookup]
        rfl
      rw [htypes, List.forall_mem_singleton] at hmatches
      rw [htypes, List.isEmpty_cons, Bool.false_or, hmatches hkind, MeetsType, keyword_iff hlookup]
      simp
    · have htypes : ∀ name, name ∈ Strict.types (fields_to_js map) ↔ .string name ∈ kinds := by
        intro name
        rw [Strict.types, lookup_js hlookup]
        exact mem_strings
      -- the list is not empty, so that an empty list of types does not pass
      have hempty : (Strict.types (fields_to_js map)).isEmpty = false := by
        obtain ⟨k, hk⟩ := List.exists_mem_of_ne_nil kinds hne
        obtain ⟨kind, _, rfl⟩ := hkinds k hk
        rw [List.isEmpty_eq_false_iff]
        exact List.ne_nil_of_mem ((htypes kind).mpr hk)
      have hknown : ∀ kind ∈ Strict.types (fields_to_js map), kind ∈ Connectors.TYPES := by
        intro kind hmem
        obtain ⟨kind', hkind', heq⟩ := hkinds _ ((htypes kind).mp hmem)
        cases heq
        exact hkind'
      rw [hempty, Bool.false_or, hmatches hknown, MeetsType, keyword_iff hlookup]
      simp [htypes]

theorem tells_enum (h : Shared map)
    (hentries : ∀ values, lookup map "enum" = some (.array values) →
      Loops (fun c => ¬Same ryu c v) (EqualOnBoth ryu · v) values) :
    Says D (Strict.check_enum (fields_to_js map) path (to_js v)) (MeetsEnum ryu map v) := by
  rw [Strict.check_enum]
  cases hlookup : lookup map "enum" with
  | none =>
    rw [fields_to_js, Value.lookup_map, hlookup]
    exact .skip (keyword_absent hlookup)
  | some given =>
    obtain ⟨values, rfl⟩ := h.enum given hlookup
    rw [lookup_js hlookup]
    refine tells_require ?_
    have hfound := ((hentries values hlookup).imp
      (Q := fun c => Strict.deep_equal (to_js c) (to_js v) = true ↔ Same ryu c v)
      fun c _ hequal => by rw [hequal, Connectors.same_iff]).any_iff
    rw [Value.map_items_eq, List.any_map, MeetsEnum, keyword_iff hlookup]
    refine hfound.trans ⟨fun hsame => ⟨values, rfl, hsame⟩, ?_⟩
    rintro ⟨_, heq, hsame⟩
    cases heq
    exact hsame

theorem tells_const (hconstant : ∀ c, lookup map "const" = some c → EqualOnBoth ryu c v) :
    Says D (Strict.check_const (fields_to_js map) path (to_js v)) (MeetsConst ryu map v) := by
  rw [Strict.check_const]
  cases hlookup : lookup map "const" with
  | none =>
    rw [fields_to_js, Value.lookup_map, hlookup]
    exact .skip (keyword_absent hlookup)
  | some constant =>
    rw [lookup_js hlookup]
    refine tells_require ?_
    rw [hconstant constant hlookup, Connectors.same_iff, MeetsConst, keyword_iff hlookup]

theorem tells_bound (h : Shared map) (hkey : key ∈ ["minimum", "maximum",
    "exclusiveMinimum", "exclusiveMaximum"]) {breaks : ℚ → Bool} {holds : ℚ → Prop}
    (hbreaks : ∀ m : Number, m.InRange → (breaks m.to_js.value = true ↔ ¬holds (m.value ryu))) :
    Says D (Strict.check_bound (fields_to_js map) key breaks message)
      (Connectors.Bounded ryu map key holds) := by
  rw [Strict.check_bound, Strict.number_at]
  cases hlookup : lookup map key with
  | none =>
    rw [fields_to_js, Value.lookup_map, hlookup]
    exact .skip (keyword_absent hlookup)
  | some given =>
    obtain ⟨m, rfl, hm⟩ := h.bounds key hkey given hlookup
    rw [lookup_js hlookup]
    refine tells_require ?_
    rw [Bool.not_eq_true', ← Bool.not_eq_true, hbreaks m hm, not_not, Connectors.Bounded,
      keyword_iff hlookup]
    constructor
    · exact fun hholds => ⟨m, rfl, hholds⟩
    · rintro ⟨_, heq, hholds⟩
      cases heq
      exact hholds

theorem tells_number (hryu : ryu.ReadsBack) (h : Shared map) (n : Number) :
    Says D (Strict.check_number (fields_to_js map) path n.to_js)
      (InRange ryu map n) := by
  have horder : ∀ m : Number, m.InRange →
      compare (n.value ryu) (m.value ryu) = compare n.to_js.value m.to_js.value :=
    fun m hm => Connectors.compare_agrees hryu hm
  have hminimum : Says D (Strict.check_bound (fields_to_js map) "minimum"
      (fun bound => n.to_js.value < bound) (path ++ " is below minimum"))
      (Connectors.Bounded ryu map "minimum" (· ≤ n.value ryu)) := by
    refine tells_bound h (by simp) fun m hm => ?_
    rw [decide_eq_true_iff, ← compare_lt_iff_lt, ← horder m hm, compare_lt_iff_lt, not_le]
  have hexclusive_minimum : Says D (Strict.check_bound (fields_to_js map)
      "exclusiveMinimum" (fun bound => n.to_js.value ≤ bound) (path ++ " is below minimum"))
      (Connectors.Bounded ryu map "exclusiveMinimum" (· < n.value ryu)) := by
    refine tells_bound h (by simp) fun m hm => ?_
    rw [decide_eq_true_iff, ← compare_le_iff_le, ← horder m hm, compare_le_iff_le, not_lt]
  have hmaximum : Says D (Strict.check_bound (fields_to_js map) "maximum"
      (fun bound => bound < n.to_js.value) (path ++ " is above maximum"))
      (Connectors.Bounded ryu map "maximum" (n.value ryu ≤ ·)) := by
    refine tells_bound h (by simp) fun m hm => ?_
    rw [decide_eq_true_iff, ← compare_gt_iff_gt, ← horder m hm, compare_gt_iff_gt, not_le]
  have hexclusive_maximum : Says D (Strict.check_bound (fields_to_js map)
      "exclusiveMaximum" (fun bound => bound ≤ n.to_js.value) (path ++ " is above maximum"))
      (Connectors.Bounded ryu map "exclusiveMaximum" (n.value ryu < ·)) := by
    refine tells_bound h (by simp) fun m hm => ?_
    rw [decide_eq_true_iff, ← compare_ge_iff_ge, ← horder m hm, compare_ge_iff_ge, not_lt]
  refine (hminimum.bind fun _ => hexclusive_minimum.bind fun _ => hmaximum.bind fun _ =>
    hexclusive_maximum).congr ?_
  rw [InRange]
  tauto

/-! ## Lengths -/

/-- A length of the source: what an array, a string or an object can have. -/
def Fits (count : ℕ) : Prop := count < 2 ^ 53

theorem length_lt {n : ℕ} (hcount : Fits count) (h : n < 2 ^ 64) :
    (count : ℚ) < (F64.of_nat false n h).value ↔ count < n := by
  have hvalue : (F64.of_nat false n h).value = (F64.of_nat false n h).magnitude := rfl
  rw [hvalue]
  by_cases hn : n < 2 ^ 53
  · rw [F64.of_nat_small h hn]
    exact_mod_cast Iff.rfl
  · have hlarge := @F64.of_nat_large false _ h (Nat.le_of_not_lt hn)
    have hcount' : (count : ℚ) < 2 ^ 53 := by exact_mod_cast hcount
    rw [Fits] at hcount
    exact ⟨fun _ => by omega, fun _ => lt_of_lt_of_le hcount' hlarge⟩

theorem lt_length {n : ℕ} (hcount : Fits count) (h : n < 2 ^ 64) :
    (F64.of_nat false n h).value < (count : ℚ) ↔ n < count := by
  have hvalue : (F64.of_nat false n h).value = (F64.of_nat false n h).magnitude := rfl
  rw [hvalue]
  by_cases hn : n < 2 ^ 53
  · rw [F64.of_nat_small h hn]
    exact_mod_cast Iff.rfl
  · have hlarge := @F64.of_nat_large false _ h (Nat.le_of_not_lt hn)
    have hcount' : (count : ℚ) < 2 ^ 53 := by exact_mod_cast hcount
    rw [Fits] at hcount
    refine ⟨fun hlt => ?_, fun hlt => by omega⟩
    exact absurd (lt_trans hlt hcount') (not_lt.mpr hlarge)

theorem as_u64_some {n : ℕ} (h : as_u64 given = some n) :
    ∃ u : UInt64, given = .number (.pos_int u) ∧ u.toNat = n := by
  unfold as_u64 at h
  split at h
  next u => exact ⟨u, rfl, Option.some.inj h⟩
  · cases h

theorem tells_length (h : Shared map) (hkey : key ∈ ["minItems", "maxItems",
    "minLength", "maxLength", "minProperties", "maxProperties"]) {breaks : ℚ → Bool}
    {holds : ℕ → Prop} (hbreaks : ∀ n (hn : n < 2 ^ 64),
      breaks (F64.of_nat false n hn).value = true ↔ ¬holds n) :
    Says D (Strict.check_bound (fields_to_js map) key breaks message)
      (Keyword map key fun given => ∃ n, as_u64 given = some n ∧ holds n) := by
  rw [Strict.check_bound, Strict.number_at]
  cases hlookup : lookup map key with
  | none =>
    rw [fields_to_js, Value.lookup_map, hlookup]
    exact .skip (keyword_absent hlookup)
  | some given =>
    obtain ⟨n, hn⟩ := h.counts key hkey given hlookup
    obtain ⟨u, rfl, rfl⟩ := as_u64_some hn
    rw [lookup_js hlookup]
    refine tells_require ?_
    have hbroken := hbreaks u.toNat u.toNat_lt
    rw [Bool.not_eq_true', ← Bool.not_eq_true, keyword_iff hlookup]
    refine (not_congr hbroken).trans (not_not.trans ?_)
    constructor
    · exact fun hholds => ⟨_, rfl, hholds⟩
    · rintro ⟨_, heq, hholds⟩
      cases heq
      exact hholds

theorem tells_counted (h : Shared map) (least most : String) (hleast : least ∈ ["minItems",
    "maxItems", "minLength", "maxLength", "minProperties", "maxProperties"])
    (hmost : most ∈ ["minItems", "maxItems", "minLength", "maxLength", "minProperties",
    "maxProperties"]) (hcount : Fits count) {few many : String} :
    Says D (Strict.check_bound (fields_to_js map) least
        (fun bound => (count : ℚ) < bound) few)
      (Keyword map least fun given => ∃ n, as_u64 given = some n ∧ n ≤ count)
    ∧ Says D (Strict.check_bound (fields_to_js map) most
        (fun bound => bound < (count : ℚ)) many)
      (Keyword map most fun given => ∃ n, as_u64 given = some n ∧ count ≤ n) := by
  refine ⟨tells_length h hleast fun n hn => ?_, tells_length h hmost fun n hn => ?_⟩
  · rw [decide_eq_true_iff, length_lt hcount hn, not_le]
  · rw [decide_eq_true_iff, lt_length hcount hn, not_le]

theorem tells_string (h : Shared map) {s : String} (hs : Fits s.length) :
    Says D (Strict.check_string (fields_to_js map) path s)
      (Counted map "minLength" "maxLength" s.length) := by
  obtain ⟨hleast, hmost⟩ := tells_counted h "minLength" "maxLength" (by simp) (by simp) hs
  exact hleast.bind fun _ => hmost

/-! ## Items and fields -/

theorem duplicates_iff (h : Pairs ryu D items) (hequal : ∀ a b, b ∈ items → D.equal a b →
      EqualOnBoth ryu a b) : Strict.has_duplicates (Value.map_items Number.to_js items) = true
        ↔ ¬items.Pairwise (fun a b => ¬Same ryu a b) := by
  induction items with
  | nil => simp [Value.map_items, Strict.has_duplicates]
  | cons a items ih =>
    have hfound : items.any (fun b => Strict.deep_equal (to_js a) (to_js b)) = true
        ↔ ∃ b ∈ items, Same ryu a b :=
      (h.1.imp fun b hb hasked => by
        rw [hequal a b (List.mem_cons_of_mem _ hb) hasked, Connectors.same_iff]).any_iff
    rw [Value.map_items, Strict.has_duplicates, Bool.or_eq_true, List.pairwise_cons, not_and_or,
      Value.map_items_eq, List.any_map]
    by_cases hall : ∀ b ∈ items, ¬Same ryu a b
    · rw [← ih (h.2 hall) fun a b hb => hequal a b (List.mem_cons_of_mem _ hb),
        Value.map_items_eq]
      refine or_congr_left (hfound.trans ?_)
      push Not
      rfl
    · refine iff_of_true (.inl (hfound.mpr ?_)) (.inl hall)
      push Not at hall
      exact hall

theorem tells_unique (hpairs : lookup map "uniqueItems" = some (.bool true) → Pairs ryu D items)
    (hequal : ∀ a b, b ∈ items → D.equal a b → EqualOnBoth ryu a b) : Says D
      (Strict.check_unique (fields_to_js map) path (Value.map_items Number.to_js items))
      (Connectors.Unique ryu map items) := by
  rw [Strict.check_unique]
  cases hlookup : lookup map "uniqueItems" with
  | none =>
    rw [fields_to_js, Value.lookup_map, hlookup]
    exact .skip (keyword_absent hlookup)
  | some given =>
    rw [lookup_js hlookup, Connectors.Unique, keyword_iff hlookup]
    by_cases htrue : given = .bool true
    · subst htrue
      refine tells_require ?_
      rw [Bool.not_eq_true', ← Bool.not_eq_true, duplicates_iff (hpairs hlookup) hequal, not_not]
      exact ⟨fun hp _ => hp, fun hp => hp rfl⟩
    · have hother : to_js given ≠ .bool true := fun heq => htrue (to_js_bool heq)
      split
      next heq => exact absurd (Option.some.inj heq) hother
      next => exact .skip fun heq => absurd heq htrue

section Subschemas

variable {check : Js → String → Js → Except Thrown Unit}

theorem item_schema_js (map : List (String × Value Number)) :
    Strict.item_schema (fields_to_js map) = to_js (item_schema map) := by
  rw [Strict.item_schema, item_schema, fields_to_js, Value.lookup_map]
  cases lookup map "items" with
  | none => rfl
  | some given => cases given <;> rfl

variable {items : List (Value Number)} {fields : List (String × Value Number)}
  {attempted : Js → Except Thrown Unit} {P : Value Number → Prop}

theorem tells_items {satisfies : Value Number → Prop}
    (hcheck : Loops (fun x => satisfies x.1) (fun x => Says D
      (check (to_js (item_schema map)) (item_path path x.2) (to_js x.1)) (satisfies x.1))
      items.zipIdx) :
    Says D
      ((Value.map_items Number.to_js items).zipIdx.forM (fun item =>
        check (Strict.item_schema (fields_to_js map)) (item_path path item.2) item.1))
      (∀ x ∈ items, satisfies x) := by
  rw [Value.map_items_eq, List.zipIdx_map, List.forM_eq_forM, List.forM_map, item_schema_js]
  refine (Tells.forM hcheck).congr
    ⟨fun hall x hx => ?_, fun hall x hx => hall _ (List.fst_mem_of_mem_zipIdx hx)⟩
  obtain ⟨i, hi, rfl⟩ := List.getElem_of_mem hx
  exact hall (items[i], i) (List.mk_mem_zipIdx_iff_getElem?.mpr (List.getElem?_eq_getElem hi))

theorem declared_js (h : Shared map) (name : String) :
    Strict.declared (fields_to_js map) name = (declared map name).map to_js := by
  rw [Strict.declared, declared]
  cases hlookup : lookup map "properties" with
  | none =>
    rw [fields_to_js, Value.lookup_map, hlookup]
    rfl
  | some given =>
    obtain ⟨properties, rfl, _⟩ := h.properties given hlookup
    rw [lookup_js hlookup]
    exact Value.lookup_map _ _ _

theorem governs_declared {name : String} {sub : Value Number}
    (hdeclared : declared map name = some sub) (other : Value Number) :
    Governs map name other ↔ other = sub := by
  obtain ⟨properties, hproperties, hsub⟩ := Option.bind_eq_some_iff.mp hdeclared
  obtain ⟨given, hgiven, hobject⟩ := Option.bind_eq_some_iff.mp hproperties
  have hlookup := Connectors.as_object_some hobject ▸ hgiven
  constructor
  · rintro (⟨properties', hproperties', hother⟩ | ⟨hnone, _⟩)
    · rw [hlookup] at hproperties'
      cases hproperties'
      exact Option.some.inj (hother.symm.trans hsub)
    · rw [hnone properties hlookup] at hsub
      cases hsub
  · rintro rfl
    exact .inl ⟨properties, hlookup, hsub⟩

theorem governs_additional {name : String} (hdeclared : declared map name = none)
    (other : Value Number) :
    Governs map name other ↔ lookup map "additionalProperties" = some other := by
  have hnone : ∀ properties, lookup map "properties" = some (.object properties) →
      lookup properties name = none := by
    intro properties hproperties
    rw [declared, hproperties] at hdeclared
    exact hdeclared
  constructor
  · rintro (⟨properties, hproperties, hother⟩ | ⟨_, hother⟩)
    · rw [hnone properties hproperties] at hother
      cases hother
    · exact hother
  · exact fun hother => .inr ⟨hnone, hother⟩

/-- A field is walked with the schema that governs it; where none does it is walked with
the empty one, which every value satisfies. -/
theorem tells_field (h : Shared map) {f : String × Value Number}
    (hguarded : f.1 ∉ Strict.forbidden
      ∧ (path = "" → f.1 ∈ credential_keys → declared map f.1 ≠ none))
        {satisfies : Value Number → Prop}
    (hcheck : ∀ sub, field_schema map f.1 = some sub → Says D
      (check (to_js sub) (child_path path f.1) (to_js f.2)) (satisfies sub))
    (hempty : satisfies (.object [])) (htrue : satisfies (.bool true))
    (hfalse : ¬satisfies (.bool false)) : Says D
      (Strict.check_field credential_keys (fields_to_js map) path check (f.1, to_js f.2))
      (∀ sub, Governs map f.1 sub → satisfies sub) := by
  rw [Strict.check_field, if_neg hguarded.1, declared_js h]
  cases hdeclared : declared map f.1 with
  | some sub =>
    have hschema : field_schema map f.1 = some sub := by rw [field_schema, hdeclared]
    refine (hcheck sub hschema).congr ?_
    simp only [governs_declared hdeclared, forall_eq]
  | none =>
    -- the exemption is not taken
    have hexempt : Strict.exempt credential_keys path f.1 = false := by
      rw [Strict.exempt, Bool.and_eq_false_iff, beq_eq_false_iff_ne, decide_eq_false_iff_not]
      by_cases hpath : path = ""
      · exact .inr fun hmem => hguarded.2 hpath hmem hdeclared
      · exact .inl hpath
    rw [Option.map_none, hexempt, if_neg Bool.false_ne_true]
    simp only [governs_additional hdeclared]
    cases hlookup : lookup map "additionalProperties" with
    | none =>
      have hschema : field_schema map f.1 = some (.object []) := by
        rw [field_schema, hdeclared, hlookup]
      rw [fields_to_js, Value.lookup_map, hlookup]
      exact (hcheck _ hschema).congr ⟨(fun _ sub hsub => by cases hsub), fun _ => hempty⟩
    | some given =>
      have hgoverned : (∀ sub, some given = some sub → satisfies sub) ↔ satisfies given :=
        ⟨fun hall => hall given rfl, fun hsat sub hsub => Option.some.inj hsub ▸ hsat⟩
      rw [hgoverned, lookup_js hlookup]
      rcases h.additional given hlookup with ⟨b, rfl⟩ | ⟨⟨m, rfl⟩, _⟩
      · cases b with
        | true =>
          have hschema : field_schema map f.1 = some (.object []) := by
            rw [field_schema, hdeclared, hlookup]
          exact (hcheck _ hschema).congr ⟨fun _ => htrue, fun _ => hempty⟩
        | false => exact .inr ⟨_, rfl, .inl ⟨⟨_, rfl⟩, hfalse⟩⟩
      · have hschema : field_schema map f.1 = some (.object m) := by
          rw [field_schema, hdeclared, hlookup]
        exact hcheck _ hschema

theorem tells_required (h : Shared map) : Says D
      ((Strict.required (fields_to_js map)).forM (fun name =>
        Strict.require (lookup (fields_to_js fields) name).isSome
          (child_path path name ++ " is required")))
      (HasRequired map fields) := by
  have hpresent : ∀ name, (lookup (fields_to_js fields) name).isSome = true
      ↔ name ∈ fields.map Prod.fst := by
    intro name
    rw [fields_to_js, Value.lookup_map, Option.isSome_map, ← Option.not_isNone,
      Bool.not_eq_true', Bool.eq_false_iff, Ne, Option.isNone_iff_eq_none, Value.lookup_none,
      not_not]
  cases hlookup : lookup map "required" with
  | none =>
    have hrequired : Strict.required (fields_to_js map) = [] := by
      rw [Strict.required, fields_to_js, Value.lookup_map, hlookup]
      rfl
    rw [hrequired]
    exact .skip (keyword_absent hlookup)
  | some given =>
    obtain ⟨names, rfl, hnames⟩ := h.required given hlookup
    refine (Tells.forM (.of_forall fun name _ => tells_require (hpresent name))).congr ?_
    rw [HasRequired, keyword_iff hlookup, Strict.required, lookup_js hlookup]
    constructor
    · exact fun hall => ⟨names, rfl, fun name hn => hall name (mem_strings.mpr hn)⟩
    · rintro ⟨_, heq, hall⟩ name hn
      cases heq
      exact hall name (mem_strings.mp hn)

theorem tells_array (h : Shared map) (hfits : Fits items.length)
    {satisfies : Value Number → Value Number → Prop} (hempty : ∀ x, satisfies (.object []) x)
    (hpairs : Counted map "minItems" "maxItems" items.length →
      lookup map "uniqueItems" = some (.bool true) → Pairs ryu D items)
    (hequal : ∀ a b, b ∈ items → D.equal a b → EqualOnBoth ryu a b)
    (hcheck : Counted map "minItems" "maxItems" items.length → Connectors.Unique ryu map items →
      Loops (fun x => satisfies (item_schema map) x.1) (fun x => Says D
        (check (to_js (item_schema map)) (item_path path x.2) (to_js x.1))
        (satisfies (item_schema map) x.1)) items.zipIdx) : Says D
      (Strict.check_array (fields_to_js map) path check (Value.map_items Number.to_js items))
      (Counted map "minItems" "maxItems" items.length
        ∧ Connectors.Unique ryu map items
        ∧ ∀ sub, lookup map "items" = some sub → ∀ item ∈ items, satisfies sub item) := by
  have hlength : (Value.map_items Number.to_js items).length = items.length := by
    rw [Value.map_items_eq, List.length_map]
  obtain ⟨hleast, hmost⟩ := tells_counted h "minItems" "maxItems" (by simp) (by simp) hfits
  have hitems : Counted map "minItems" "maxItems" items.length → Connectors.Unique ryu map items →
      Says D
      ((Value.map_items Number.to_js items).zipIdx.forM (fun item =>
        check (Strict.item_schema (fields_to_js map)) (item_path path item.2) item.1))
      (∀ sub, lookup map "items" = some sub → ∀ item ∈ items, satisfies sub item) := by
    intro hcounted hunique
    refine (tells_items (hcheck hcounted hunique)).congr ?_
    cases hlookup : lookup map "items" with
    | none =>
      have hschema : item_schema map = .object [] := by rw [item_schema, hlookup]
      rw [hschema]
      exact ⟨fun _ sub hsub => (nomatch hsub), fun _ x _ => hempty x⟩
    | some given =>
      obtain ⟨⟨m, rfl⟩, _⟩ := h.items given hlookup
      have hschema : item_schema map = .object m := by rw [item_schema, hlookup]
      rw [hschema]
      exact ⟨fun hall sub hsub => Option.some.inj hsub ▸ hall, fun hall => hall _ rfl⟩
  rw [Strict.check_array, hlength]
  refine (hleast.bind fun hl => hmost.bind fun hm =>
    (tells_unique (hpairs ⟨hl, hm⟩) hequal).bind fun hu => hitems ⟨hl, hm⟩ hu).congr ?_
  rw [Counted, and_assoc]

theorem tells_record (h : Shared map) (hfits : Fits fields.length)
    {satisfies : Value Number → Value Number → Prop} (hempty : ∀ x, satisfies (.object []) x)
    (htrue : ∀ x, satisfies (.bool true) x) (hfalse : ∀ x, ¬satisfies (.bool false) x)
    (hcheck : Counted map "minProperties" "maxProperties" fields.length → HasRequired map fields →
      Loops (fun f => ∀ sub, Governs map f.1 sub → satisfies sub f.2)
        (fun f => (f.1 ∉ Strict.forbidden
            ∧ (path = "" → f.1 ∈ credential_keys → declared map f.1 ≠ none))
          ∧ ∀ sub, field_schema map f.1 = some sub → Says D
            (check (to_js sub) (child_path path f.1) (to_js f.2)) (satisfies sub f.2))
        (Strict.entries fields)) : Says D
      (Strict.check_record credential_keys (fields_to_js map) path check (fields_to_js fields))
      (Counted map "minProperties" "maxProperties" fields.length
        ∧ HasRequired map fields
        ∧ ∀ f ∈ fields, ∀ sub, Governs map f.1 sub → satisfies sub f.2) := by
  have hlength : (fields_to_js fields).length = fields.length := by
    rw [fields_to_js, Value.map_fields_eq, List.length_map]
  obtain ⟨hleast, hmost⟩ :=
    tells_counted h "minProperties" "maxProperties" (by simp) (by simp) hfits
  have hfields : Counted map "minProperties" "maxProperties" fields.length →
      HasRequired map fields → Says D
      ((Strict.entries (fields_to_js fields)).forM
        (Strict.check_field credential_keys (fields_to_js map) path check))
      (∀ f ∈ fields, ∀ sub, Governs map f.1 sub → satisfies sub f.2) := by
    intro hcounted hrequired
    rw [fields_to_js, Value.map_fields_eq, Strict.entries_map, List.forM_eq_forM, List.forM_map]
    refine (Tells.forM ((hcheck hcounted hrequired).imp fun f _ hf =>
      tells_field h hf.1 hf.2 (hempty f.2) (htrue f.2) (hfalse f.2))).congr ?_
    exact forall_congr' fun f => imp_congr_left Strict.mem_entries
  rw [Strict.check_record, hlength]
  refine (hleast.bind fun hl => hmost.bind fun hm =>
    (tells_required h).bind fun hr => hfields ⟨hl, hm⟩ hr).congr ?_
  rw [Counted, and_assoc]

/-! ## Branches -/

theorem attempt_cases {result : Except Thrown Unit} {p : Prop} (h : Says D result p) :
    (Strict.attempt result = .ok true ∧ p) ∨ (Strict.attempt result = .ok false ∧ ¬p)
      ∨ D.limit ∧ ∃ message, Strict.attempt result = .error (.limit message) := by
  rcases h with ⟨rfl, hp⟩ | ⟨e, rfl, ⟨⟨message, rfl⟩, hp⟩ | ⟨hlimit, message, rfl⟩⟩
  · exact .inl ⟨rfl, hp⟩
  · exact .inr (.inl ⟨rfl, hp⟩)
  · exact .inr (.inr ⟨hlimit, message, rfl⟩)

theorem any_matches_cases {branches : List (Value Number)}
    (h : Loops (fun b => ¬P b) (fun b => Says D (attempted (to_js b)) (P b)) branches) :
    (Strict.any_matches attempted (Value.map_items Number.to_js branches) = .ok true
        ∧ ∃ b ∈ branches, P b)
      ∨ (Strict.any_matches attempted (Value.map_items Number.to_js branches) = .ok false
        ∧ ∀ b ∈ branches, ¬P b)
      ∨ D.limit ∧ ∃ message, Strict.any_matches attempted (Value.map_items Number.to_js branches)
        = .error (.limit message) := by
  induction branches with
  | nil => exact .inr (.inl ⟨rfl, fun b hb => nomatch hb⟩)
  | cons b branches ih =>
    rw [Value.map_items, Strict.any_matches]
    rcases attempt_cases h.1 with ⟨hb, hp⟩ | ⟨hb, hp⟩ | ⟨hlimit, message, hb⟩
    · rw [to_js] at hb
      rw [hb]
      exact .inl ⟨rfl, b, List.mem_cons_self, hp⟩
    · rw [to_js] at hb
      rw [hb]
      rcases ih (h.2 hp) with ⟨hrest, c, hc, hpc⟩ | ⟨hrest, hall⟩ | hrest
      · exact .inl ⟨hrest, c, List.mem_cons_of_mem b hc, hpc⟩
      · exact .inr (.inl ⟨hrest, List.forall_mem_cons.mpr ⟨hp, hall⟩⟩)
      · exact .inr (.inr hrest)
    · rw [to_js] at hb
      rw [hb]
      exact .inr (.inr ⟨hlimit, message, rfl⟩)

open Classical in
/-- The count is the control plane's, unless a branch has run into the limit. -/
theorem count_matches_cases {branches : List (Value Number)} {n : ℕ} (hn : n ≤ 1)
    (h : Counts P (fun b => Says D (attempted (to_js b)) (P b)) n branches) :
    Strict.count_matches attempted (Value.map_items Number.to_js branches) n
        = .ok (Connectors.count_matches (fun b => decide (P b)) branches n)
      ∨ D.limit ∧ ∃ message,
        Strict.count_matches attempted (Value.map_items Number.to_js branches) n
          = .error (.limit message) := by
  induction branches generalizing n with
  | nil => exact .inl rfl
  | cons b branches ih =>
    obtain ⟨hfirst, hrefused, hmatched⟩ := h
    rw [Value.map_items, Strict.count_matches, Connectors.count_matches, if_pos (by omega)]
    rcases attempt_cases hfirst with ⟨hb, hp⟩ | ⟨hb, hp⟩ | ⟨hlimit, message, hb⟩
    · rw [to_js] at hb
      rw [hb, if_pos (decide_eq_true hp)]
      by_cases hzero : n = 0
      · subst hzero
        exact ih le_rfl (hmatched hp rfl)
      · -- a second match ends both counts
        have hone : n = 1 := by omega
        subst hone
        refine .inl ?_
        rw [if_pos (by omega)]
        cases branches <;> rfl
    · rw [to_js] at hb
      rw [hb, if_neg (by simpa using hp)]
      exact ih hn (hrefused hp)
    · rw [to_js] at hb
      rw [hb]
      exact .inr ⟨hlimit, message, rfl⟩

theorem branches_js (h : Shared map) (hkey : key ∈ Connectors.COMBINATORS) :
    (lookup map key = none ∧ Strict.branches (fields_to_js map) key = none)
      ∨ ∃ branches, lookup map key = some (.array branches)
        ∧ Strict.branches (fields_to_js map) key
          = some (Value.map_items Number.to_js branches) := by
  cases hlookup : lookup map key with
  | none =>
    refine .inl ⟨rfl, ?_⟩
    rw [Strict.branches, fields_to_js, Value.lookup_map, hlookup]
    rfl
  | some given =>
    obtain ⟨branches, rfl, _⟩ := h.branches key hkey given hlookup
    refine .inr ⟨branches, rfl, ?_⟩
    rw [Strict.branches, lookup_js hlookup]
    rfl

section Combinators

variable {satisfies : Value Number → Value Number → Prop}

theorem tells_all_of (h : Shared map)
    (hcheck : ∀ branches, lookup map "allOf" = some (.array branches) → Loops (satisfies · v)
      (fun b => Says D (check (to_js b) path (to_js v)) (satisfies b v)) branches) :
    Says D (Strict.check_all_of (fields_to_js map) path check (to_js v))
      (∀ branches, lookup map "allOf" = some (.array branches) →
        ∀ i : Fin branches.length, satisfies (branches.get i) v) := by
  have hkey : "allOf" ∈ Connectors.COMBINATORS := by decide
  rw [Strict.check_all_of]
  rcases branches_js h hkey with ⟨hnone, hjs⟩ | ⟨branches, hsome, hjs⟩
  · rw [hjs]
    exact .skip fun branches hbranches => by rw [hnone] at hbranches; cases hbranches
  · rw [hjs]
    dsimp only
    rw [Value.map_items_eq, List.forM_eq_forM, List.forM_map]
    refine Tells.congr (Tells.forM (hcheck branches hsome))
      ⟨fun hall branches' hbranches' i => ?_, fun hall b hb => ?_⟩
    · rw [hsome] at hbranches'
      cases hbranches'
      exact hall _ (List.get_mem _ _)
    · obtain ⟨i, rfl⟩ := List.get_of_mem hb
      exact hall branches hsome i

theorem tells_any_of (h : Shared map)
    (hcheck : ∀ branches, lookup map "anyOf" = some (.array branches) →
      Loops (fun b => ¬satisfies b v)
        (fun b => Says D (check (to_js b) path (to_js v)) (satisfies b v)) branches) :
    Says D (Strict.check_any_of (fields_to_js map) path check (to_js v))
      (∀ branches, lookup map "anyOf" = some (.array branches) →
        ∃ i : Fin branches.length, satisfies (branches.get i) v) := by
  have hkey : "anyOf" ∈ Connectors.COMBINATORS := by decide
  rw [Strict.check_any_of]
  rcases branches_js h hkey with ⟨hnone, hjs⟩ | ⟨branches, hsome, hjs⟩
  · rw [hjs]
    exact .skip fun branches hbranches => by rw [hnone] at hbranches; cases hbranches
  · rw [hjs]
    dsimp only
    have hiff : (∀ bs, lookup map "anyOf" = some (.array bs) →
        ∃ i : Fin bs.length, satisfies (bs.get i) v) ↔ ∃ b ∈ branches, satisfies b v := by
      constructor
      · intro hall
        obtain ⟨i, hi⟩ := hall branches hsome
        exact ⟨_, List.get_mem _ _, hi⟩
      · rintro ⟨b, hb, hsat⟩ bs hbs
        rw [hsome] at hbs
        cases hbs
        obtain ⟨i, rfl⟩ := List.get_of_mem hb
        exact ⟨i, hsat⟩
    refine Tells.congr ?_ hiff.symm
    rcases @any_matches_cases D (fun b => check b path (to_js v)) (satisfies · v) branches
      (hcheck branches hsome) with
      ⟨hany, hp⟩ | ⟨hany, hnone⟩ | ⟨hlimit, message, hany⟩
    · rw [hany]
      exact .skip hp
    · rw [hany]
      exact .inr ⟨_, rfl, .inl ⟨⟨_, rfl⟩, fun hex => by
        obtain ⟨b, hb, hsat⟩ := hex
        exact hnone b hb hsat⟩⟩
    · rw [hany]
      exact .inr ⟨_, rfl, .inr ⟨hlimit, message, rfl⟩⟩

theorem tells_one_of (h : Shared map)
    (hcheck : ∀ branches, lookup map "oneOf" = some (.array branches) → Counts (satisfies · v)
      (fun b => Says D (check (to_js b) path (to_js v)) (satisfies b v)) 0 branches) :
    Says D (Strict.check_one_of (fields_to_js map) path check (to_js v))
      (∀ branches, lookup map "oneOf" = some (.array branches) →
        ∃! i : Fin branches.length, satisfies (branches.get i) v) := by
  classical
  have hkey : "oneOf" ∈ Connectors.COMBINATORS := by decide
  rw [Strict.check_one_of]
  rcases branches_js h hkey with ⟨hnone, hjs⟩ | ⟨branches, hsome, hjs⟩
  · rw [hjs]
    exact .skip fun branches hbranches => by rw [hnone] at hbranches; cases hbranches
  · rw [hjs]
    dsimp only
    have hiff : (∀ bs, lookup map "oneOf" = some (.array bs) →
        ∃! i : Fin bs.length, satisfies (bs.get i) v)
          ↔ ∃! i : Fin branches.length, satisfies (branches.get i) v := by
      refine ⟨fun hall => hall branches hsome, fun hone bs hbs => ?_⟩
      rw [hsome] at hbs
      cases hbs
      exact hone
    refine Tells.congr ?_ hiff.symm
    rcases @count_matches_cases D (fun b => check b path (to_js v)) (satisfies · v) branches 0
      (Nat.zero_le 1) (hcheck branches hsome) with
      hcount | ⟨hlimit, message, hcount⟩
    · rw [hcount]
      refine tells_require ?_
      rw [beq_iff_eq]
      exact Connectors.count_matches_iff fun b _ => decide_eq_true_iff
    · rw [hcount]
      exact .inr ⟨_, rfl, .inr ⟨hlimit, message, rfl⟩⟩

end Combinators

end Subschemas

/-! ## The walk -/

/-- Lengths that a value can have: each of its parts fits. -/
def Sized (v : Value Number) : Prop :=
  (∀ items, Value.Part v (.array items) → Fits items.length)
    ∧ (∀ fields, Value.Part v (.object fields) → Fits fields.length)
    ∧ ∀ s, Value.Part v (.string s) → Fits s.length

theorem Sized.part {v w : Value Number} (h : Sized v) (hpart : Value.Part v w) : Sized w :=
  ⟨fun items hi => h.1 items (hpart.trans hi), fun fields hf => h.2.1 fields (hpart.trans hf),
    fun s hs => h.2.2 s (hpart.trans hs)⟩

theorem both_item_schema (h : Shared map) : Both (item_schema map) := by
  rw [item_schema]
  split
  next hlookup => exact (h.items _ hlookup).2
  · exact both_empty

theorem both_field_schema (h : Shared map) {name : String} {sub : Value Number}
    (hsub : field_schema map name = some sub) : Both sub := by
  rw [field_schema] at hsub
  split at hsub
  next hdeclared =>
    cases hsub
    obtain ⟨properties, hproperties, hlookup⟩ := Option.bind_eq_some_iff.mp hdeclared
    obtain ⟨given, hgiven, hobject⟩ := Option.bind_eq_some_iff.mp hproperties
    obtain ⟨_, heq, hboth⟩ := h.properties given hgiven
    rw [Connectors.as_object_some hobject] at heq
    cases heq
    exact hboth _ (Value.lookup_some hlookup)
  · split at hsub
    next hlookup =>
      cases hsub
      rcases h.additional _ hlookup with ⟨b, hb⟩ | ⟨_, hboth⟩
      · cases hb
      · exact hboth
    · cases hsub
    · cases hsub
      exact both_empty

theorem satisfies_bool (ryu : Ryu) {b : Bool} (v : Value Number) :
    Satisfies ryu (.bool b) v ↔ b = true := by
  rw [Satisfies]

theorem satisfies_empty (ryu : Ryu) (v : Value Number) : Satisfies ryu (.object []) v := by
  rw [Satisfies]
  have habsent : ∀ {key : String} {p : Value Number → Prop}, Keyword [] key p :=
    fun given hgiven => by cases hgiven
  refine ⟨habsent, habsent, habsent, fun _ _ => ⟨habsent, habsent, habsent, habsent⟩,
    fun _ _ => ⟨⟨habsent, habsent⟩, habsent, fun _ _ sub hsub => ?_⟩,
    fun _ _ => ⟨⟨habsent, habsent⟩, habsent, fun _ hsub => by cases hsub⟩,
    (fun _ hb => by cases hb), (fun _ hb => by cases hb), (fun _ hb => by cases hb),
    fun _ _ => ⟨habsent, habsent⟩⟩
  rcases hsub with ⟨_, hproperties, _⟩ | ⟨_, hadditional⟩
  · cases hproperties
  · cases hadditional

section Node

variable (hpart : Value.Part value v) (h : Shared map)
    {walk : Value Number → String → Value Number → Prop}
  (hplace : Place ryu D map v walk path) {check : Js → String → Js → Except Thrown Unit}

include hpart h hplace

/-- The checks that both sides make first. -/
theorem place_fitting (hsuffices : Suffices ryu D value) :
    Says D (Strict.check_type (fields_to_js map) path (to_js v)) (MeetsType map v)
      ∧ (MeetsType map v →
        Says D (Strict.check_enum (fields_to_js map) path (to_js v)) (MeetsEnum ryu map v))
      ∧ (MeetsType map v → MeetsEnum ryu map v →
        Says D (Strict.check_const (fields_to_js map) path (to_js v)) (MeetsConst ryu map v)) := by
  refine ⟨tells_type h fun n hn => ?_, fun htype => tells_enum h fun values hvalues => ?_,
    fun htype henum => tells_const fun c hc => ?_⟩
  · exact (hplace.type n hn).imp fun kind _ hasked hkind =>
      hsuffices.integer n (hn ▸ hpart) (hasked hkind)
  · exact (hplace.enum htype values hvalues).imp fun c _ => hsuffices.equal c v hpart
  · exact hsuffices.equal c v hpart (hplace.const htype henum c hc)

theorem place_array (hsized : Sized value) (hsuffices : Suffices ryu D value)
    {items : List (Value Number)} (hv : v = .array items)
    (hfitting : Fitting ryu map v)
    (hcheck : ∀ x ∈ items.zipIdx, walk (item_schema map) (item_path path x.2) x.1 →
      Says D (check (to_js (item_schema map)) (item_path path x.2) (to_js x.1))
        (Satisfies ryu (item_schema map) x.1)) :
    Says D (Strict.check_array (fields_to_js map) path check (Value.map_items Number.to_js items))
      (Counted map "minItems" "maxItems" items.length ∧ Connectors.Unique ryu map items
        ∧ ∀ sub, lookup map "items" = some sub → ∀ item ∈ items, Satisfies ryu sub item) := by
  subst hv
  exact tells_array h (hsized.1 items hpart) (satisfies_empty ryu)
    (hplace.unique hfitting items rfl)
    (fun a b hb => hsuffices.equal a b (hpart.item hb))
    fun hcounted hunique => (hplace.items hfitting items rfl hcounted hunique).imp hcheck

theorem place_record (hsized : Sized value) {fields : List (String × Value Number)}
    (hv : v = .object fields)
    (hguarded : Guarded D credential_keys value) (hfitting : Fitting ryu map v)
    (hcheck : ∀ f ∈ fields, ∀ sub, field_schema map f.1 = some sub →
      walk sub (child_path path f.1) f.2 →
      Says D (check (to_js sub) (child_path path f.1) (to_js f.2)) (Satisfies ryu sub f.2)) :
    Says D
      (Strict.check_record credential_keys (fields_to_js map) path check (fields_to_js fields))
      (Counted map "minProperties" "maxProperties" fields.length ∧ HasRequired map fields
        ∧ ∀ f ∈ fields, ∀ sub, Governs map f.1 sub → Satisfies ryu sub f.2) := by
  subst hv
  exact tells_record h (hsized.2.1 fields hpart) (satisfies_empty ryu)
    (fun x => (satisfies_bool ryu x).mpr rfl)
    (fun x => Bool.false_ne_true ∘ (satisfies_bool ryu x).mp) fun hcounted hrequired =>
      (hplace.fields hfitting fields rfl hcounted hrequired).imp fun f hf hasked =>
        ⟨hguarded fields hpart f (Strict.mem_entries.mp hf) map path hasked.1, fun sub hsub =>
          hcheck f (Strict.mem_entries.mp hf) sub hsub (hasked.2 sub hsub)⟩

end Node

/-- **The runner's verdict is the meaning of the schema**, where what is asked of the places
of its walk makes both sides find the same. -/
theorem check_tells (hryu : ryu.ReadsBack) (hsized : Sized value)
    (hsuffices : Suffices ryu D value) (hguarded : Guarded D credential_keys value) (levels : ℕ) :
    ∀ s v path, Value.Part value v → Both s → Walk ryu D levels s path v →
      Says D (Strict.check_node credential_keys levels (to_js s) path (to_js v))
        (Satisfies ryu s v) := by
  induction levels with
  | zero => exact fun s v path _ _ hlimit => .inr ⟨_, rfl, .inr ⟨hlimit, _, rfl⟩⟩
  | succ levels ih =>
    intro s v path hpart hboth hwalk
    obtain ⟨map, rfl, h⟩ := both_cases hboth
    have hplace := hwalk map rfl
    obtain ⟨htype, henum, hconst⟩ := place_fitting hpart h hplace hsuffices
    have hbranch : ∀ key ∈ Connectors.COMBINATORS, ∀ branches,
        lookup map key = some (.array branches) → ∀ b ∈ branches, Both b := by
      intro key hkey branches hlookup
      obtain ⟨_, heq, hall⟩ := h.branches key hkey _ hlookup
      cases heq
      exact hall
    have hkind : Fitting ryu map v → Says D (Strict.check_kind credential_keys (fields_to_js map)
        path (Strict.check_node credential_keys levels) (to_js v)) (MeetsKind ryu map v) := by
      intro hfitting
      cases v with
      | null => exact .skip (by simp [MeetsKind])
      | bool b => exact .skip (by simp [MeetsKind])
      | number n => exact (tells_number hryu h n).congr (by simp [MeetsKind])
      | string s => exact (tells_string h (hsized.2.2 s hpart)).congr (by simp [MeetsKind])
      | array items =>
        refine Tells.congr (place_array hpart h hplace hsized hsuffices rfl hfitting
          fun x hx hasked => ?_) (by simp [MeetsKind])
        exact ih _ _ _ (hpart.item (List.fst_mem_of_mem_zipIdx hx)) (both_item_schema h) hasked
      | object fields =>
        refine Tells.congr (place_record hpart h hplace hsized rfl hguarded hfitting
          fun f hf sub hsub hasked => ?_) (by simp [MeetsKind])
        exact ih _ _ _ (hpart.field hf) (both_field_schema h hsub) hasked
    have hall : Fitting ryu map v → MeetsKind ryu map v → Says D (Strict.check_all_of
        (fields_to_js map) path (Strict.check_node credential_keys levels) (to_js v))
        (AllOf ryu map v) := fun hfitting hmeets => tells_all_of h fun branches hlookup =>
      (hplace.all_of hfitting hmeets branches hlookup).imp fun b hb =>
        ih b v path hpart (hbranch _ (by decide) branches hlookup b hb)
    have hany : Fitting ryu map v → MeetsKind ryu map v → AllOf ryu map v → Says D
        (Strict.check_any_of (fields_to_js map) path (Strict.check_node credential_keys levels)
          (to_js v)) (AnyOf ryu map v) := fun hfitting hmeets hall =>
      tells_any_of h fun branches hlookup =>
        (hplace.any_of hfitting hmeets hall branches hlookup).imp fun b hb =>
          ih b v path hpart (hbranch _ (by decide) branches hlookup b hb)
    have hone : Fitting ryu map v → MeetsKind ryu map v → AllOf ryu map v → AnyOf ryu map v →
        Says D (Strict.check_one_of (fields_to_js map) path
          (Strict.check_node credential_keys levels) (to_js v))
          (∀ branches, lookup map "oneOf" = some (.array branches) →
            ∃! i : Fin branches.length, Satisfies ryu (branches.get i) v) :=
      fun hfitting hmeets hall hany => tells_one_of h fun branches hlookup =>
        (hplace.one_of hfitting hmeets hall hany branches hlookup).imp fun b hb =>
          ih b v path hpart (hbranch _ (by decide) branches hlookup b hb)
    have hvalue := htype.bind fun ht => (henum ht).bind fun he => (hconst ht he).bind fun hc =>
      hkind ⟨ht, he, hc⟩
    unfold Strict.check_node
    refine Tells.congr (hvalue.bind fun hv => (hall ⟨hv.1, hv.2.1, hv.2.2.1⟩ hv.2.2.2).bind
      fun ha => (hany ⟨hv.1, hv.2.1, hv.2.2.1⟩ hv.2.2.2 ha).bind fun ho =>
        hone ⟨hv.1, hv.2.1, hv.2.2.1⟩ hv.2.2.2 ha ho) ?_
    rw [Satisfies]
    constructor
    · rintro ⟨⟨ht, he, hc, hn, hf, hi, hs⟩, ha, ho, hx⟩
      exact ⟨ht, he, hc, hn, hf, hi, ha, ho, hx, hs⟩
    · rintro ⟨ht, he, hc, hn, hf, hi, ha, ho, hx, hs⟩
      exact ⟨⟨ht, he, hc, hn, hf, hi, hs⟩, ha, ho, hx⟩

end Appcall.Parity
