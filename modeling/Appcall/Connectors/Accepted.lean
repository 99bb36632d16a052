/-
What `check_schema` accepts.

An accepted schema has known types under `type`, a bound of the right kind under each
keyword for bounds, and schemas that were accepted one level further down under the
keywords for schemas. Where it has a combinator, the flag says so; the flag is never
taken back, so at the end of the walk it covers every schema that the walk has met.
-/
import Appcall.Connectors.Meaning
import Appcall.Lib.Query
import Appcall.Lib.Verdict

set_option autoImplicit false

namespace Appcall.Connectors

open Value (lookup)

def TYPES : List String := ["object", "array", "string", "number", "integer", "boolean", "null"]

def Grows (seen seen' : Seen) : Prop := seen.2 = true → seen'.2 = true

theorem Grows.refl (seen : Seen) : Grows seen seen := fun h => h

theorem Grows.trans {a b c : Seen} (h : Grows a b) (h' : Grows b c) : Grows a c :=
  fun ha => h' (h ha)

/-- The walk has passed through the schema, and the flag covers what it has seen. -/
def Passed (check : Value Number → Seen → Except Stop Seen) (flag : Bool)
    (schema : Value Number) : Prop :=
  ∃ seen seen', check schema seen = .ok seen' ∧ (seen'.2 = true → flag = true)

/-- The keywords that hold no schema and no bound have values of their type. -/
structure Typed (map : List (String × Value Number)) : Prop where
  type : Keyword map "type" fun given =>
    (∃ kind ∈ TYPES, given = .string kind)
      ∨ ∃ kinds, given = .array kinds ∧ kinds ≠ []
        ∧ ∀ k ∈ kinds, ∃ kind ∈ TYPES, k = .string kind
  required : Keyword map "required" fun given =>
    ∃ names, given = .array names ∧ ∀ n ∈ names, ∃ name, n = .string name
  enum : Keyword map "enum" fun given => ∃ values, given = .array values
  counts : ∀ key ∈ ["minItems", "maxItems", "minLength", "maxLength", "minProperties",
    "maxProperties"], Keyword map key fun given => ∃ n, as_u64 given = some n

/-- What is known of the keywords of an accepted schema. -/
structure Accepted (passed : Value Number → Prop) (flag : Bool)
    (map : List (String × Value Number)) : Prop extends Typed map where
  properties : Keyword map "properties" fun given =>
    ∃ properties, given = .object properties ∧ ∀ f ∈ properties, passed f.2
  items : Keyword map "items" passed
  additional : Keyword map "additionalProperties" passed
  branches : ∀ key ∈ COMBINATORS, Keyword map key fun given =>
    flag = true ∧ ∃ branches, given = .array branches ∧ ∀ branch ∈ branches, passed branch
  bounds : ∀ key ∈ ["minimum", "maximum", "exclusiveMinimum", "exclusiveMaximum"],
    Keyword map key fun given => ∃ n, given = .number n

/-! ## Types -/

theorem Number.is_integer_iff (n : Number) : n.is_integer = true ↔ n.Whole := by
  cases n with
  | pos_int n => exact ⟨fun _ => trivial, fun _ => rfl⟩
  | neg_int n => exact ⟨fun _ => trivial, fun _ => rfl⟩
  | float f =>
    rw [Number.is_integer, Number.Whole, F64.is_whole, decide_eq_true_iff, F64.value]
    constructor
    · intro h
      have hnum := (Rat.den_eq_one_iff _).mp h
      refine ⟨if f.negative then -f.magnitude.num else f.magnitude.num, ?_⟩
      split
      · rw [Int.cast_neg, hnum]
      · exact hnum.symm
    · rintro ⟨z, hz⟩
      split at hz
      · rw [neg_eq_iff_eq_neg] at hz
        rw [hz, Rat.den_neg_eq_den]
        exact Rat.den_intCast z
      · rw [hz]
        exact Rat.den_intCast z

theorem matches_type_spec (kind : String) (value : Value Number) :
    (kind ∈ TYPES ∧ ∃ b, matches_type kind value = .ok b ∧ (b = true ↔ HasType kind value))
      ∨ kind ∉ TYPES ∧ matches_type kind value = unsupported := by
  unfold matches_type
  by_cases hkind : kind ∈ TYPES
  · refine .inl ⟨hkind, ?_⟩
    simp only [TYPES, List.mem_cons, List.not_mem_nil, or_false] at hkind
    rcases hkind with rfl | rfl | rfl | rfl | rfl | rfl | rfl
    · refine ⟨value.is_object, rfl, ?_⟩
      cases value <;> simp [Value.is_object, HasType]
    · refine ⟨(as_array value).isSome, rfl, ?_⟩
      cases value <;> simp [as_array, HasType]
    · refine ⟨is_string value, rfl, ?_⟩
      cases value <;> simp [is_string, HasType]
    · refine ⟨is_number value, rfl, ?_⟩
      cases value <;> simp [is_number, HasType]
    · refine ⟨_, rfl, ?_⟩
      cases value <;> simp [HasType, Number.is_integer_iff]
    · refine ⟨is_boolean value, rfl, ?_⟩
      cases value <;> simp [is_boolean, HasType]
    · refine ⟨value.is_null, rfl, ?_⟩
      cases value <;> simp [Value.is_null, HasType]
  · refine .inr ⟨hkind, ?_⟩
    simp only [TYPES, List.mem_cons, List.not_mem_nil, or_false, not_or] at hkind
    simp only [hkind, if_false]

variable {kinds : List (Value Number)} {v : Value Number}

theorem matches_types_known {value : Value Number} {any b : Bool} (h : kinds.foldlM (fun any kind =>
      match kind with
      | .string k => (matches_type k value).map (any || ·)
      | _ => unsupported) any = .ok b) : ∀ k ∈ kinds, ∃ kind ∈ TYPES, k = .string kind := by
  refine fun k hk => ?_
  have heach := (foldlM_ok (R := fun _ _ => True) (fun _ => trivial) (fun _ _ _ _ _ => trivial)
    (fun _ _ _ _ _ => trivial) h).2 k hk
  obtain ⟨t, t', hstep, _⟩ := heach
  cases k with
  | string kind =>
    rcases matches_type_spec kind value with ⟨hkind, _⟩ | ⟨_, hunknown⟩
    · exact ⟨kind, hkind, rfl⟩
    · dsimp only at hstep
      rw [hunknown] at hstep
      cases hstep
  | _ => cases hstep

theorem matches_types_spec (hkinds : ∀ k ∈ kinds, ∃ kind ∈ TYPES, k = .string kind)
    (value : Value Number) : ∃ b, matches_types kinds value = .ok b
      ∧ (b = true ↔ ∃ kind, .string kind ∈ kinds ∧ HasType kind value) := by
  suffices h : ∀ any : Bool, ∃ b, kinds.foldlM (fun any kind =>
      match kind with
      | .string k => (matches_type k value).map (any || ·)
      | _ => unsupported) any = (Except.ok b : Except Stop Bool)
      ∧ (b = true ↔ any = true ∨ ∃ kind, .string kind ∈ kinds ∧ HasType kind value) by
    obtain ⟨b, hb, hiff⟩ := h false
    exact ⟨b, hb, by simpa using hiff⟩
  intro any
  induction kinds generalizing any with
  | nil => exact ⟨any, rfl, by simp⟩
  | cons k kinds ih =>
    obtain ⟨kind, hkind, rfl⟩ := hkinds k List.mem_cons_self
    rcases matches_type_spec kind value with ⟨_, first, hfirst, hiff⟩ | ⟨hunknown, _⟩
    · obtain ⟨b, hb, hrest⟩ :=
        ih (fun k hk => hkinds k (List.mem_cons_of_mem _ hk)) (any || first)
      refine ⟨b, ?_, ?_⟩
      · rw [List.foldlM_cons]
        dsimp only
        rw [hfirst]
        exact hb
      · rw [hrest, Bool.or_eq_true, hiff, or_assoc]
        refine or_congr_right ?_
        simp only [List.mem_cons, Value.string.injEq, or_and_right, exists_or, exists_eq_left]
    · exact absurd hkind hunknown

theorem check_type_ok {map : List (String × Value Number)} (h : check_type map = .ok ()) :
    Keyword map "type" fun given =>
      (∃ kind ∈ TYPES, given = .string kind)
        ∨ ∃ kinds, given = .array kinds ∧ kinds ≠ []
          ∧ ∀ k ∈ kinds, ∃ kind ∈ TYPES, k = .string kind := by
  intro given hgiven
  rw [check_type, hgiven] at h
  cases given with
  | string kind =>
    rcases matches_type_spec kind .null with ⟨hkind, _⟩ | ⟨_, hunknown⟩
    · exact .inl ⟨kind, hkind, rfl⟩
    · dsimp only at h
      rw [hunknown] at h
      cases h
  | array kinds =>
    dsimp only at h
    split at h
    · cases h
    next hne =>
      refine .inr ⟨kinds, rfl, hne, ?_⟩
      cases htypes : matches_types kinds .null with
      | error e =>
        rw [htypes] at h
        cases h
      | ok b => exact matches_types_known htypes
  | _ => cases h

/-! ## The other keywords -/

theorem require_ok {condition : Bool} {code : ErrorCode}
    (h : require condition code = .ok ()) : condition = true := by
  rw [require] at h
  split at h
  · assumption
  · cases h

theorem keyword_all {map : List (String × Value Number)} {key : String}
    {test : Value Number → Bool} (h : (lookup map key).all test = true) :
    Keyword map key fun given => test given = true := by
  intro given hgiven
  rwa [hgiven, Option.all_some] at h

theorem Keyword.imp {map : List (String × Value Number)} {key : String}
    {p q : Value Number → Prop} (h : Keyword map key p) (hpq : ∀ given, p given → q given) :
    Keyword map key q :=
  fun given hgiven => hpq given (h given hgiven)

theorem is_string_iff : is_string v = true ↔ ∃ s, v = .string s := by
  cases v <;> simp [is_string]

theorem is_number_iff : is_number v = true ↔ ∃ n, v = .number n := by
  cases v <;> simp [is_number]

theorem as_array_some {items : List (Value Number)} (h : as_array v = some items) :
    v = .array items := by
  cases v <;> simp_all [as_array]

theorem check_values_ok {map : List (String × Value Number)} (h : check_values map = .ok ()) :
    (Keyword map "required" fun given =>
      ∃ names, given = .array names ∧ ∀ n ∈ names, ∃ name, n = .string name)
    ∧ (Keyword map "enum" fun given => ∃ values, given = .array values)
    ∧ (∀ key ∈ ["minItems", "maxItems", "minLength", "maxLength", "minProperties",
        "maxProperties"], Keyword map key fun given => ∃ n, as_u64 given = some n)
    ∧ ∀ key ∈ ["minimum", "maximum", "exclusiveMinimum", "exclusiveMaximum"],
        Keyword map key fun given => ∃ n, given = .number n := by
  rw [check_values] at h
  obtain ⟨_, hrequired, h⟩ := bind_eq_ok h
  obtain ⟨_, henum, h⟩ := bind_eq_ok h
  obtain ⟨_, hcounts, h⟩ := bind_eq_ok h
  obtain ⟨_, hbounds, _⟩ := bind_eq_ok h
  refine ⟨(keyword_all (require_ok hrequired)).imp fun given hgiven => ?_,
    (keyword_all (require_ok henum)).imp fun given hgiven => ?_, fun key hkey => ?_,
    fun key hkey => ?_⟩
  · cases hnames : as_array given with
    | none => rw [hnames, Option.any_none] at hgiven; cases hgiven
    | some names =>
      rw [hnames, Option.any_some] at hgiven
      refine ⟨names, as_array_some hnames, fun n hn => ?_⟩
      exact is_string_iff.mp (List.all_eq_true.mp hgiven n hn)
  · cases hvalues : as_array given with
    | none => rw [hvalues, Option.any_none] at hgiven; cases hgiven
    | some values => exact ⟨values, as_array_some hvalues⟩
  · refine (keyword_all (List.all_eq_true.mp (require_ok hcounts) key hkey)).imp ?_
    exact fun given hgiven => Option.isSome_iff_exists.mp hgiven
  · refine (keyword_all (List.all_eq_true.mp (require_ok hbounds) key hkey)).imp ?_
    exact fun given hgiven => is_number_iff.mp hgiven

/-! ## The walk -/

section Walk

variable {check : Value Number → Seen → Except Stop Seen}
  (hcheck : ∀ schema seen seen', check schema seen = .ok seen' → Grows seen seen')
  {map : List (String × Value Number)} {seen seen' : Seen} {flag : Bool}

include hcheck

theorem check_properties_ok (h : check_properties check map seen = .ok seen') :
    Grows seen seen' ∧ ((seen'.2 = true → flag = true) →
      Keyword map "properties" fun given =>
        ∃ properties, given = .object properties ∧ ∀ f ∈ properties, Passed check flag f.2) := by
  rw [check_properties] at h
  split at h
  next hnone =>
    cases h
    exact ⟨.refl _, fun _ given hgiven => by rw [hnone] at hgiven; cases hgiven⟩
  next properties hsome =>
    obtain ⟨hgrows, heach⟩ := foldlM_ok Grows.refl (fun _ _ _ => Grows.trans)
      (fun f _ s s' hstep => hcheck f.2 s s' hstep) h
    refine ⟨hgrows, fun hflag given hgiven => ?_⟩
    rw [hsome] at hgiven
    cases hgiven
    refine ⟨properties, rfl, fun f hf => ?_⟩
    obtain ⟨t, t', hstep, hrest⟩ := heach f hf
    exact ⟨t, t', hstep, fun ht' => hflag (hrest ht')⟩
  · cases h

theorem check_children_ok (h : check_children check map seen = .ok seen') :
    Grows seen seen' ∧ ((seen'.2 = true → flag = true) →
      ∀ key ∈ ["items", "additionalProperties"], Keyword map key (Passed check flag)) := by
  obtain ⟨hgrows, heach⟩ := foldlM_ok Grows.refl (fun _ _ _ => Grows.trans)
    (fun key _ s s' hstep => by
      split at hstep
      · cases hstep
        exact .refl _
      · exact hcheck _ s s' hstep) h
  refine ⟨hgrows, fun hflag key hkey given hgiven => ?_⟩
  obtain ⟨t, t', hstep, hrest⟩ := heach key hkey
  rw [hgiven] at hstep
  exact ⟨t, t', hstep, fun ht' => hflag (hrest ht')⟩

omit hcheck in
theorem check_branch_ok {branch : Value Number}
    (h : (if branch.is_object then check branch seen else unsupported) = .ok seen') :
    check branch seen = .ok seen' := by
  split at h
  · exact h
  · cases h

theorem check_branches_ok (h : check_branches check map seen = .ok seen') :
    Grows seen seen' ∧ ((seen'.2 = true → flag = true) →
      ∀ key ∈ COMBINATORS, Keyword map key fun given =>
        ∃ branches, given = .array branches ∧ ∀ branch ∈ branches, Passed check flag branch) := by
  -- what one list of branches keeps, and what it says of each branch
  have hlist : ∀ {branches : List (Value Number)} {s s' : Seen},
      branches.foldlM (fun seen branch =>
        if branch.is_object then check branch seen else unsupported) s = .ok s' →
      Grows s s' ∧ ∀ branch ∈ branches, ∃ t t', check branch t = .ok t' ∧ Grows t' s' := by
    intro branches s s' hfold
    obtain ⟨hgrows, heach⟩ := foldlM_ok Grows.refl (fun _ _ _ => Grows.trans)
      (fun branch _ s s' hstep => hcheck branch s s' (check_branch_ok hstep)) hfold
    refine ⟨hgrows, fun branch hbranch => ?_⟩
    obtain ⟨t, t', hstep, hrest⟩ := heach branch hbranch
    exact ⟨t, t', check_branch_ok hstep, hrest⟩
  obtain ⟨hgrows, heach⟩ := foldlM_ok Grows.refl (fun _ _ _ => Grows.trans)
    (fun key _ s s' hstep => by
      split at hstep
      · cases hstep
        exact .refl _
      · split at hstep
        · cases hstep
        · exact (hlist hstep).1
      · cases hstep) h
  refine ⟨hgrows, fun hflag key hkey given hgiven => ?_⟩
  obtain ⟨t, t', hstep, hrest⟩ := heach key hkey
  rw [hgiven] at hstep
  cases given with
  | array branches =>
    dsimp only at hstep
    split at hstep
    · cases hstep
    · refine ⟨branches, rfl, fun branch hbranch => ?_⟩
      obtain ⟨u, u', hpass, hlater⟩ := (hlist hstep).2 branch hbranch
      exact ⟨u, u', hpass, fun hu' => hflag (hrest (hlater hu'))⟩
  | _ => cases hstep

theorem check_combinators_ok (h : check_combinators check map seen = .ok seen') :
    Grows seen seen' ∧ ((seen'.2 = true → flag = true) →
      ∀ key ∈ COMBINATORS, Keyword map key fun given => flag = true
        ∧ ∃ branches, given = .array branches ∧ ∀ branch ∈ branches, Passed check flag branch) := by
  rw [check_combinators] at h
  by_cases hlocal : local_combinators map = true
  · rw [if_pos hlocal] at h
    obtain ⟨hgrows, hbranches⟩ := check_branches_ok hcheck h
    exact ⟨fun _ => hgrows rfl, fun hflag key hkey given hgiven =>
      ⟨hflag (hgrows rfl), hbranches hflag key hkey given hgiven⟩⟩
  · rw [if_neg hlocal] at h
    cases h
    refine ⟨.refl _, fun _ key hkey given hgiven => absurd ?_ hlocal⟩
    rw [local_combinators, List.any_eq_true]
    exact ⟨_, Value.lookup_some hgiven, decide_eq_true hkey⟩

theorem check_object_ok (h : check_object check map seen = .ok seen') :
    Grows seen seen' ∧ ((seen'.2 = true → flag = true) →
      Accepted (Passed check flag) flag map) := by
  rw [check_object] at h
  obtain ⟨_, _, h⟩ := bind_eq_ok h
  obtain ⟨_, htype, h⟩ := bind_eq_ok h
  obtain ⟨seen₁, hproperties, h⟩ := bind_eq_ok h
  obtain ⟨seen₂, hchildren, h⟩ := bind_eq_ok h
  obtain ⟨seen₃, hbranches, h⟩ := bind_eq_ok h
  obtain ⟨_, hvalues, h⟩ := bind_eq_ok h
  cases h
  obtain ⟨hgrows₁, hproperties⟩ := check_properties_ok hcheck hproperties
  obtain ⟨hgrows₂, hchildren⟩ := check_children_ok hcheck hchildren
  obtain ⟨hrequired, henum, hcounts, hbounds⟩ := check_values_ok hvalues
  obtain ⟨hgrows₃, hbranches⟩ := check_combinators_ok hcheck hbranches
  refine ⟨hgrows₁.trans (hgrows₂.trans hgrows₃), fun hflag => ?_⟩
  have hflag₂ : seen₂.2 = true → flag = true := fun h => hflag (hgrows₃ h)
  exact {
    type := check_type_ok htype
    properties := hproperties fun h => hflag₂ (hgrows₂ h)
    items := hchildren hflag₂ "items" (by simp)
    additional := hchildren hflag₂ "additionalProperties" (by simp)
    branches := hbranches hflag
    required := hrequired
    enum := henum
    counts := hcounts
    bounds := hbounds }

end Walk

theorem check_schema_grows (levels : ℕ) : ∀ (schema : Value Number) (seen seen' : Seen),
    check_schema levels schema seen = .ok seen' → Grows seen seen' := by
  induction levels with
  | zero =>
    intro schema seen seen' h
    cases h
  | succ levels ih =>
    intro schema seen seen' h
    unfold check_schema at h
    split at h
    · cases h
    · split at h
      · cases h
        exact .refl _
      · exact (@check_object_ok _ ih _ _ _ true h).1
      · cases h

theorem passed_cases {levels : ℕ} {flag : Bool} {schema : Value Number}
    (h : Passed (check_schema (levels + 1)) flag schema) :
    (∃ b, schema = .bool b)
      ∨ ∃ map, schema = .object map ∧ Accepted (Passed (check_schema levels) flag) flag map := by
  obtain ⟨seen, seen', h, hflag⟩ := h
  unfold check_schema at h
  split at h
  · cases h
  · split at h
    next b => exact .inl ⟨b, rfl⟩
    next map => exact .inr ⟨map, rfl, (check_object_ok (check_schema_grows levels) h).2 hflag⟩
    · cases h

theorem passed_level {flag : Bool} {schema : Value Number}
    (h : Passed (check_schema 0) flag schema) : False := by
  obtain ⟨_, _, h, _⟩ := h
  cases h

end Appcall.Connectors
