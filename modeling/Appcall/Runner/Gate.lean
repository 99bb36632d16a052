/-
The two gates on the way of an input: the control plane's validator and the runner's.

The runner refuses nothing that the control plane accepts, if the places its walk comes to
are within its limit and have no forbidden name, no whole number that is taken for an integer
and is not safe, and no values that only one side finds equal. It accepts nothing that the
control plane refuses, if its walk takes no exemption below the top and finds no entry with a
`-0` that would be equal to its value. The samples are inputs outside of that.
-/
import Appcall.Runner.Parity

set_option autoImplicit false

namespace Appcall.Parity

open Connectors (Number Ryu to_js Satisfies check_schema validate_optional equal_json ErrorCode)
open Strict (Js Thrown child_path compile_strict_validator)
open Value (lookup)

variable {ryu : Ryu} {D : Demands} {credential_keys : List String} {path : String}
  {map : List (String × Value Number)} {schema value : Value Number} {result : Except Thrown Unit}

/-! ## Forbidden names -/

theorem check_field_ok (h : Shared map) {check : Js → String → Js → Except Thrown Unit}
    {f : String × Value Number}
    (hok : Strict.check_field credential_keys (fields_to_js map) path check (f.1, to_js f.2)
      = .ok ()) :
    f.1 ∉ Strict.forbidden ∧ ((path = "" ∧ f.1 ∈ credential_keys ∧ declared map f.1 = none)
      ∨ ∃ sub, field_schema map f.1 = some sub
        ∧ check (to_js sub) (child_path path f.1) (to_js f.2) = .ok ()) := by
  rw [Strict.check_field, declared_js h] at hok
  by_cases hname : f.1 ∈ Strict.forbidden
  · rw [if_pos hname] at hok
    cases hok
  · rw [if_neg hname] at hok
    refine ⟨hname, ?_⟩
    rw [field_schema]
    cases hdeclared : declared map f.1 with
    | some sub =>
      rw [hdeclared] at hok
      exact .inr ⟨sub, rfl, hok⟩
    | none =>
      rw [hdeclared, Option.map_none] at hok
      cases hexempt : Strict.exempt credential_keys path f.1 with
      | true =>
        rw [Strict.exempt, Bool.and_eq_true, beq_iff_eq, decide_eq_true_iff] at hexempt
        exact .inl ⟨hexempt.1, hexempt.2, rfl⟩
      | false =>
        rw [hexempt, if_neg Bool.false_ne_true, fields_to_js, Value.lookup_map] at hok
        cases hlookup : lookup map "additionalProperties" with
        | none =>
          rw [hlookup] at hok
          exact .inr ⟨_, rfl, hok⟩
        | some given =>
          rw [hlookup] at hok
          rcases h.additional given hlookup with ⟨b, rfl⟩ | ⟨⟨m, rfl⟩, _⟩
          · cases b with
            | true => exact .inr ⟨_, rfl, hok⟩
            | false => cases hok
          · exact .inr ⟨_, rfl, hok⟩

/-- No object in the value has a forbidden name. -/
def Plain (v : Value Number) : Prop :=
  ∀ fields, Value.Part v (.object fields) → ∀ f ∈ fields, f.1 ∉ Strict.forbidden

/-- The exemption is not taken for a field that is asked about. -/
def Unexempt (D : Demands) (credential_keys : List String) : Prop :=
  ∀ map path name, D.field map path name → path = "" → name ∈ credential_keys →
    declared map name ≠ none

theorem Plain.guarded (h : Plain value) (hexempt : Unexempt D credential_keys) :
    Guarded D credential_keys value :=
  fun fields hpart f hf map path hasked => ⟨h fields hpart f hf, hexempt map path f.1 hasked⟩

theorem passed_fitting {levels : ℕ} {v : Value Number}
    {walk : Value Number → String → Value Number → Prop} (h : Shared map)
    (hsuffices : Suffices ryu D v) (hplace : Place ryu D map v walk path)
    (hok : Strict.check_node credential_keys (levels + 1) (to_js (.object map)) path (to_js v)
      = .ok ()) :
    Fitting ryu map v ∧ Strict.check_kind credential_keys (fields_to_js map) path
      (Strict.check_node credential_keys levels) (to_js v) = .ok () := by
  obtain ⟨_, hvalue, _⟩ := bind_eq_ok (x := Strict.check_value credential_keys (fields_to_js map)
    path (Strict.check_node credential_keys levels) (to_js v)) hok
  rw [Strict.check_value] at hvalue
  obtain ⟨_, htype, hvalue⟩ := bind_eq_ok hvalue
  obtain ⟨_, henum, hvalue⟩ := bind_eq_ok hvalue
  obtain ⟨_, hconst, hkind⟩ := bind_eq_ok hvalue
  obtain ⟨ht, he, hc⟩ := place_fitting .refl h hplace hsuffices
  have hmeets := ht.of_ok htype
  exact ⟨⟨hmeets, (he hmeets).of_ok henum, (hc hmeets ((he hmeets).of_ok henum)).of_ok hconst⟩,
    hkind⟩

/-- **A value that passes has no forbidden name**, if no exemption is taken on the way. -/
theorem passed_plain (hryu : ryu.ReadsBack) (hexempt : Unexempt D credential_keys) (levels : ℕ) :
    ∀ s v path, Sized v → Suffices ryu D v → Both s → Walk ryu D levels s path v →
      Strict.check_node credential_keys levels (to_js s) path (to_js v) = .ok () → Plain v := by
  induction levels with
  | zero => exact fun _ _ _ _ _ _ _ hok => nomatch hok
  | succ levels ih =>
    intro s v path hsized hsuffices hboth hwalk hok
    obtain ⟨map, rfl, h⟩ := both_cases hboth
    have hplace := hwalk map rfl
    obtain ⟨hfitting, hkind⟩ := passed_fitting h hsuffices hplace hok
    -- what passes below is plain, so that the verdict on it is the meaning of the schema
    have hbelow : ∀ s w path, Value.Part v w → Both s → Walk ryu D levels s path w →
        Strict.check_node credential_keys levels (to_js s) path (to_js w) = .ok () →
        Plain w ∧ Says D (Strict.check_node credential_keys levels (to_js s) path (to_js w))
          (Satisfies ryu s w) := by
      intro s w path hpart hboth hasked hok
      have hplain := ih s w path (hsized.part hpart) (hsuffices.part hpart) hboth hasked hok
      exact ⟨hplain, check_tells hryu (hsized.part hpart) (hsuffices.part hpart)
        (hplain.guarded hexempt) levels s w path .refl hboth hasked⟩
    cases v with
    | array items =>
      have hlength : (Value.map_items Number.to_js items).length = items.length := by
        rw [Value.map_items_eq, List.length_map]
      change Strict.check_array _ _ _ (Value.map_items Number.to_js items) = _ at hkind
      rw [Strict.check_array, hlength] at hkind
      obtain ⟨_, hleast, hkind⟩ := bind_eq_ok hkind
      obtain ⟨_, hmost, hkind⟩ := bind_eq_ok hkind
      obtain ⟨_, hpairs, hitems⟩ := bind_eq_ok hkind
      obtain ⟨hl, hm⟩ := @tells_counted D map items.length h "minItems" "maxItems" (by simp)
        (by simp) (hsized.1 items .refl) _ _
      have hcounted := And.intro (hl.of_ok hleast) (hm.of_ok hmost)
      have hunique := (tells_unique (hplace.unique hfitting items rfl hcounted)
        fun a b hb => hsuffices.equal a b (Value.Part.refl.item hb)).of_ok hpairs
      rw [Value.map_items_eq, List.zipIdx_map, List.forM_eq_forM, List.forM_map,
        item_schema_js] at hitems
      have hplain := (hplace.items hfitting items rfl hcounted hunique).through
        (Q := fun x => Plain x.1) fun x hx hasked => by
          have hone := forM_ok hitems x hx
          obtain ⟨hplain, hsays⟩ := hbelow _ x.1 _
            (Value.Part.refl.item (List.fst_mem_of_mem_zipIdx hx)) (both_item_schema h) hasked hone
          exact ⟨hplain, hsays.of_ok hone⟩
      intro fields hpart
      rcases Value.part_array hpart with heq | ⟨x, hx, hpart⟩
      · cases heq
      · obtain ⟨i, hi, rfl⟩ := List.getElem_of_mem hx
        exact hplain (items[i], i)
          (List.mk_mem_zipIdx_iff_getElem?.mpr (List.getElem?_eq_getElem hi)) fields hpart
    | object fields =>
      have hlength : (fields_to_js fields).length = fields.length := by
        rw [fields_to_js, Value.map_fields_eq, List.length_map]
      change Strict.check_record _ _ _ _ (fields_to_js fields) = _ at hkind
      rw [Strict.check_record, hlength] at hkind
      obtain ⟨_, hleast, hkind⟩ := bind_eq_ok hkind
      obtain ⟨_, hmost, hkind⟩ := bind_eq_ok hkind
      obtain ⟨_, hpresent, hfields⟩ := bind_eq_ok hkind
      obtain ⟨hl, hm⟩ := @tells_counted D map fields.length h "minProperties" "maxProperties"
        (by simp) (by simp) (hsized.2.1 fields .refl) _ _
      have hrequired : Connectors.HasRequired map fields :=
        Tells.of_ok (@tells_required D map path fields h) hpresent
      rw [fields_to_js, Value.map_fields_eq, Strict.entries_map, List.forM_eq_forM,
        List.forM_map] at hfields
      have hplain := (hplace.fields hfitting fields rfl ⟨hl.of_ok hleast, hm.of_ok hmost⟩
        hrequired).through (Q := fun f => f.1 ∉ Strict.forbidden ∧ Plain f.2)
        fun f hf hasked => by
          have hone := forM_ok hfields f hf
          obtain ⟨hname, ⟨hpath, hkey, hnone⟩ | ⟨sub, hsub, hpassed⟩⟩ := check_field_ok h hone
          · exact absurd hnone (hexempt map path f.1 hasked.1 hpath hkey)
          · obtain ⟨hplain, hsays⟩ := hbelow sub f.2 _
              (Value.Part.refl.field (Strict.mem_entries.mp hf)) (both_field_schema h hsub)
              (hasked.2 sub hsub) hpassed
            refine ⟨⟨hname, hplain⟩, ?_⟩
            refine (tells_field (D := D) h ⟨hname, hexempt map path f.1 hasked.1⟩
              (fun sub' hsub' => ?_) (satisfies_empty ryu f.2) ((satisfies_bool ryu f.2).mpr rfl)
              (Bool.false_ne_true ∘ (satisfies_bool ryu f.2).mp)).of_ok hone
            cases hsub.symm.trans hsub'
            exact hsays
      intro inner hpart
      rcases Value.part_object hpart with heq | ⟨f, hf, hpart⟩
      · cases heq
        exact fun f hf => (hplain f (Strict.mem_entries.mpr hf)).1
      · exact (hplain f (Strict.mem_entries.mpr hf)).2 inner hpart
    | _ =>
      intro fields hpart
      have hleaf := Value.part_leaf (by simp) (by simp) hpart
      cases hleaf

/-! ## Safe inputs -/

/-- The number is a safe integer, in either spelling, or no integer; and not `-0`. -/
def Safe (n : Number) : Prop :=
  n.to_js.is_negative_zero = false ∧ (n.to_js.is_whole = true → n.InRange)

theorem not_whole_in_range {f : F64} (h : f.is_whole = false) :
    f.magnitude ≤ Strict.MAX_SAFE_INTEGER := by
  obtain ⟨m, e, hm, _, _, heq⟩ := f.finite
  have hnegative : e ≤ -1 := by
    -- with an exponent of zero or more the double would be whole
    by_contra hexp
    have hden : f.magnitude.den ∣ 2 ^ 0 := by
      rw [heq]
      exact F64.den_scaled (by omega)
    rw [pow_zero, Nat.dvd_one] at hden
    rw [F64.is_whole, decide_eq_false_iff_not] at h
    exact h hden
  have hpow : (2 : ℚ) ^ e ≤ 2 ^ (-1 : ℤ) := zpow_le_zpow_right₀ (by norm_num) hnegative
  have hm' : (m : ℚ) ≤ 2 ^ 53 := by exact_mod_cast hm.le
  calc f.magnitude = m * 2 ^ e := heq
    _ ≤ 2 ^ 53 * 2 ^ (-1 : ℤ) := mul_le_mul hm' hpow (zpow_nonneg (by norm_num) e) (by norm_num)
    _ ≤ Strict.MAX_SAFE_INTEGER := by
      rw [Strict.MAX_SAFE_INTEGER]
      norm_num

theorem Safe.in_range {n : Number} (h : Safe n) : n.InRange := by
  cases hwhole : n.to_js.is_whole with
  | true => exact h.2 hwhole
  | false => exact not_whole_in_range hwhole

theorem Safe.integer {n : Number} (h : Safe n) (hwhole : n.Whole) :
    n.to_js.is_safe_integer = true := by
  have hrange : n.to_js.magnitude ≤ Strict.MAX_SAFE_INTEGER := h.in_range
  cases n with
  | pos_int u =>
    exact Connectors.of_nat_safe u.toNat_lt ((Connectors.of_nat_range u.toNat_lt).mp hrange)
  | neg_int u =>
    exact Connectors.of_nat_safe (Connectors.neg_int_lt u)
      ((Connectors.of_nat_range (Connectors.neg_int_lt u)).mp hrange)
  | float f =>
    have hinteger : f.is_whole = true := (Number.is_integer_iff (.float f)).mpr hwhole
    rw [Number.to_js, F64.is_safe_integer, hinteger, Bool.true_and, decide_eq_true_iff]
    exact hrange

/-- The value has no `-0`. -/
def Unsigned (c : Value Number) : Prop :=
  ∀ m : Number, Value.Part c (.number m) → m.to_js.is_negative_zero = false

theorem equal_on_both (hryu : ryu.ReadsBack) {c v : Value Number}
    (hsafe : ∀ n, Value.Part v (.number n) → Safe n)
    (hzero : equal_json ryu c v = true → Unsigned c) : EqualOnBoth ryu c v := by
  rw [EqualOnBoth, Strict.deep_equal, to_js, Value.alike_map, Bool.eq_iff_iff]
  constructor
  · refine Value.alike_mono fun m n _ hn hsame => ?_
    rw [F64.same_iff] at hsame
    rw [decide_eq_true_iff, Connectors.decimal_key_eq_iff,
      Connectors.value_eq_iff hryu (hsafe n hn).in_range, hsame]
  · intro hequal
    refine Value.alike_mono (fun m n hm hn heq => ?_) hequal
    rw [decide_eq_true_iff, Connectors.decimal_key_eq_iff,
      Connectors.value_eq_iff hryu (hsafe n hn).in_range] at heq
    rw [F64.same_iff]
    exact F64.eq_of_value (hzero hequal m hm) (hsafe n hn).1 heq

/-! ## The gates -/

theorem both_of {seen : Connectors.Seen}
    (hchecked : check_schema Connectors.levels_at_root schema (0, false) = .ok seen)
    {validator : Js → Except Thrown Js}
    (hcompiled : compile_strict_validator (to_js schema) credential_keys = .ok validator) :
    Both schema ∧ ∀ input : Js, validator input
      = (Strict.check_node credential_keys Strict.levels_at_root (to_js schema) "" input).map
        (fun _ => input) := by
  rw [compile_strict_validator] at hcompiled
  cases hassert : Strict.assert_strict_schema true Strict.levels_at_root (to_js schema) 0 with
  | error message =>
    rw [hassert] at hcompiled
    cases hcompiled
  | ok nodes =>
    rw [hassert] at hcompiled
    cases hcompiled
    exact ⟨⟨⟨_, seen.2, _, seen, hchecked, fun h => h⟩, _, 0, nodes, hassert⟩, fun _ => rfl⟩

theorem validator_ok {input : Js} : result.map (fun _ => input) = .ok input ↔ result = .ok () := by
  cases result with
  | ok u => exact ⟨fun _ => rfl, fun _ => rfl⟩
  | error e => exact ⟨fun h => (nomatch h), fun h => (nomatch h)⟩

/-- The walk stays within the limit and meets no forbidden name, and both sides find the same
numbers to be integers and the same values to be equal. -/
def together (ryu : Ryu) : Demands where
  limit := False
  integer n := n.Whole → n.to_js.is_safe_integer = true
  equal := EqualOnBoth ryu
  field _ _ name := name ∉ Strict.forbidden

/-- **The runner refuses nothing that the control plane accepts**, where both sides find the
same at the places its walk comes to. -/
theorem accepted_not_refused (ryu : Ryu) (hryu : ryu.ReadsBack) (schema : Value Number)
    (seen : Connectors.Seen)
    (hchecked : check_schema Connectors.levels_at_root schema (0, false) = .ok seen)
    (validator : Js → Except Thrown Js)
    (hcompiled : compile_strict_validator (to_js schema) [] = .ok validator)
    (input : Value Number) (hsized : Sized input)
    (hwalk : Walk ryu (together ryu) Strict.levels_at_root schema "" input)
    (code : ErrorCode) (haccepted : validate_optional ryu (some schema) input code = .ok ()) :
    validator (to_js input) = .ok (to_js input) := by
  obtain ⟨hboth, hvalidator⟩ := both_of hchecked hcompiled
  have hsat := (Connectors.optional_decides hchecked input).ok_iff.mp haccepted
  have hsuffices : Suffices ryu (together ryu) input := ⟨fun _ _ hsafe => hsafe, fun _ _ _ h => h⟩
  have hguarded : Guarded (together ryu) [] input :=
    fun _ _ f _ _ _ hname => ⟨hname, fun _ hkey => absurd hkey List.not_mem_nil⟩
  rw [hvalidator, validator_ok]
  rcases check_tells hryu hsized hsuffices hguarded _ schema input "" .refl hboth hwalk with
    ⟨hok, _⟩ | ⟨e, _, ⟨_, hrefused⟩ | ⟨hlimit, _⟩⟩
  · exact hok
  · exact absurd hsat hrefused
  · exact hlimit.elim

/-- The walk takes no exemption, and an entry that equals its value has no `-0`. -/
def unrelaxed (ryu : Ryu) (credential_keys : List String) : Demands where
  limit := True
  integer _ := True
  equal c v := equal_json ryu c v = true → Unsigned c
  field map path name := path = "" → name ∈ credential_keys → declared map name ≠ none

/-- **The runner accepts nothing that the control plane refuses**, for an input of safe
numbers where the walk takes no exemption (without a credential key at the top there is none
to take there) and finds no `-0` in an entry that equals its value. -/
theorem refused_not_accepted (ryu : Ryu) (hryu : ryu.ReadsBack) (schema : Value Number)
    (seen : Connectors.Seen)
    (hchecked : check_schema Connectors.levels_at_root schema (0, false) = .ok seen)
    (credential_keys : List String) (validator : Js → Except Thrown Js)
    (hcompiled : compile_strict_validator (to_js schema) credential_keys = .ok validator)
    (input : Value Number) (hsized : Sized input)
    (hsafe : ∀ n, Value.Part input (.number n) → Safe n)
    (hwalk : Walk ryu (unrelaxed ryu credential_keys) Strict.levels_at_root schema "" input)
    (code : ErrorCode) (haccepted : validator (to_js input) = .ok (to_js input)) :
    validate_optional ryu (some schema) input code = .ok () := by
  obtain ⟨hboth, hvalidator⟩ := both_of hchecked hcompiled
  rw [hvalidator, validator_ok] at haccepted
  have hsuffices : Suffices ryu (unrelaxed ryu credential_keys) input :=
    ⟨fun n hn _ => (hsafe n hn).integer, fun c w hw =>
      equal_on_both hryu fun n hn => hsafe n (hw.trans hn)⟩
  have hexempt : Unexempt (unrelaxed ryu credential_keys) credential_keys := fun _ _ _ h => h
  have hplain := passed_plain hryu hexempt _ schema input "" hsized hsuffices hboth hwalk haccepted
  refine (Connectors.optional_decides hchecked input).ok_iff.mpr ?_
  exact (check_tells hryu hsized hsuffices (hplain.guarded hexempt) _ schema input "" .refl hboth
    hwalk).of_ok haccepted

/-! ## Samples -/

namespace Sample

def positive : Value Number :=
  .object [("type", .string "integer"), ("minimum", .number (.pos_int 1))]

/-- The identifier `9007199254740993`. -/
def identifier : Value Number := .number (.pos_int 9007199254740993)

theorem compiled {schema : Value Number} {credential_keys : List String} {nodes : ℕ}
    (h : Strict.assert_strict_schema true Strict.levels_at_root (to_js schema) 0 = .ok nodes) :
    compile_strict_validator (to_js schema) credential_keys = .ok (fun input =>
      (Strict.check_node credential_keys Strict.levels_at_root (to_js schema) "" input).map
        (fun _ => input)) := by
  rw [compile_strict_validator, h]
  rfl

theorem positive_asserted :
    Strict.assert_strict_schema true Strict.levels_at_root (to_js positive) 0 = .ok 1 := by
  decide +kernel

/-- An identifier past the safe integers passes the control plane and not the runner. -/
theorem identifier_refused :
    check_schema Connectors.levels_at_root positive (0, false) = .ok (1, false)
      ∧ validate_optional Ryu.exact (some positive) identifier .InvalidInput = .ok ()
      ∧ ∃ validator, compile_strict_validator (to_js positive) [] = .ok validator
        ∧ validator (to_js identifier)
          = .error (.error "input has an invalid type (expected integer)") := by
  refine ⟨by rfl, by rfl, _, compiled positive_asserted, ?_⟩
  have hrefused : Strict.check_node [] Strict.levels_at_root (to_js positive) "" (to_js identifier)
      = .error (.error "input has an invalid type (expected integer)") := by decide +kernel
  rw [hrefused]
  rfl

theorem positive_place {D : Demands} {n : Number} (hinteger : D.integer n) :
    Walk Ryu.exact D Strict.levels_at_root positive "" (.number n) := by
  intro map hmap
  cases hmap
  exact {
    type := fun _ hn => by
      cases hn
      exact ⟨fun _ => hinteger, fun _ => trivial⟩
    enum := fun _ _ h => by cases h
    const := fun _ _ _ h => by cases h
    unique := fun _ _ h => by cases h
    items := fun _ _ h => by cases h
    fields := fun _ _ h => by cases h
    all_of := fun _ _ _ h => by cases h
    any_of := fun _ _ _ _ h => by cases h
    one_of := fun _ _ _ _ _ h => by cases h }

theorem number_sized (n : Number) : Sized (.number n) := by
  refine ⟨fun items h => ?_, fun fields h => ?_, fun s h => ?_⟩ <;>
    exact nomatch Value.part_leaf (by simp) (by simp) h

/-- The number seven, which both sides read alike. -/
theorem seven_not_refused : ∃ validator,
    compile_strict_validator (to_js positive) [] = .ok validator
      ∧ validator (to_js (.number (.pos_int 7))) = .ok (to_js (.number (.pos_int 7))) := by
  refine ⟨_, compiled positive_asserted, ?_⟩
  refine accepted_not_refused Ryu.exact Ryu.exact_reads_back positive (1, false) (by rfl) _
    (compiled positive_asserted) _ (number_sized _) (positive_place fun _ => ?_) .InvalidInput
    (by rfl)
  decide +kernel

/-- A closed object under the empty name. -/
def closed : Value Number :=
  .object [("properties", .object [("", .object [("additionalProperties", .bool false)])])]

/-- An access token that is not at the top. -/
def nested_token : Value Number :=
  .object [("", .object [("accessToken", .number (.pos_int 1))])]

/-- An object under the empty name is taken for the top: its credential key is exempt,
and what the control plane refuses is accepted. -/
theorem nested_token_accepted :
    check_schema Connectors.levels_at_root closed (0, false) = .ok (3, false)
      ∧ (∀ n, Value.Part nested_token (.number n) → Safe n)
      ∧ (∀ fields, nested_token = .object fields → ∀ f ∈ fields, f.1 ∉ ["accessToken"])
      ∧ validate_optional Ryu.exact (some closed) nested_token .InvalidInput
        = .error (.error .InvalidInput)
      ∧ ∃ validator, compile_strict_validator (to_js closed) ["accessToken"] = .ok validator
        ∧ validator (to_js nested_token) = .ok (to_js nested_token) := by
  have hassert : Strict.assert_strict_schema true Strict.levels_at_root (to_js closed) 0
      = .ok 2 := by
    decide
  have haccepted : Strict.check_node ["accessToken"] Strict.levels_at_root (to_js closed) ""
      (to_js nested_token) = .ok () := by decide
  refine ⟨by rfl, fun n hpart => ?_, fun fields hfields f hf => ?_, by rfl, _, compiled hassert, ?_⟩
  · rcases Value.part_object hpart with h | ⟨f, hf, hpart⟩
    · cases h
    · rw [List.mem_singleton] at hf
      subst hf
      rcases Value.part_object hpart with h | ⟨g, hg, hpart⟩
      · cases h
      · rw [List.mem_singleton] at hg
        subst hg
        have hleaf := Value.part_leaf (by simp) (by simp) hpart
        cases hleaf
        exact ⟨by decide, fun _ => (Connectors.of_nat_range (by decide)).mpr (by decide)⟩
  · cases hfields
    rw [List.mem_singleton] at hf
    subst hf
    decide
  · rw [haccepted]
    rfl

/-- The number seven, which the runner accepts. -/
theorem seven_accepted :
    validate_optional Ryu.exact (some positive) (.number (.pos_int 7)) .InvalidInput = .ok () := by
  have haccepted : Strict.check_node ["accessToken"] Strict.levels_at_root (to_js positive) ""
      (to_js (.number (.pos_int 7))) = .ok () := by decide +kernel
  refine refused_not_accepted Ryu.exact Ryu.exact_reads_back positive (1, false) (by rfl)
    ["accessToken"] _ (compiled positive_asserted) _ (number_sized _) (fun n hpart => ?_)
    (positive_place trivial) .InvalidInput ?_
  · have hleaf := Value.part_leaf (by simp) (by simp) hpart
    cases hleaf
    exact ⟨by decide, fun _ => (Connectors.of_nat_range (by decide)).mpr (by decide)⟩
  · rw [haccepted]
    rfl

end Sample

end Appcall.Parity
