/-
The validator decides what a schema means.

On an accepted schema `validate` passes exactly the values that satisfy it, and every
other value fails with the code that was asked for. The walk over the schema and the
walk over the value are one induction on the levels: what `check_schema` has seen one
level down is what `validate` visits there.
-/
import Appcall.Connectors.Accepted

set_option autoImplicit false

namespace Appcall.Connectors

open Value (lookup)

variable {ryu : Ryu} {code : ErrorCode} {map : List (String × Value Number)}
  {value : Value Number} {passed : Value Number → Prop} {flag : Bool}

variable {key : String}

theorem decides_keyword {check : Value Number → Except Stop Unit} {p : Value Number → Prop}
    (h : ∀ given, lookup map key = some given → Decides (.error code) (check given) (p given)) :
    Decides (.error code)
      (match lookup map key with
        | none => .ok ()
        | some given => check given) (Keyword map key p) := by
  cases hlookup : lookup map key with
  | none => exact .skip fun given hgiven => by rw [hlookup] at hgiven; cases hgiven
  | some given =>
    refine (h given hlookup).congr ⟨fun hp given' hgiven' => ?_, fun hp => hp given hlookup⟩
    rw [hlookup] at hgiven'
    cases hgiven'
    exact hp

theorem decides_require (condition : Bool) :
    Decides (.error code) (require condition code) (condition = true) :=
  Decides.ite condition

theorem decides_require_iff {condition : Bool} {p : Prop} (h : condition = true ↔ p) :
    Decides (.error code) (require condition code) p :=
  (decides_require condition).congr h

/-! ## Types, constants and bounds -/

theorem same_iff {a b : Value Number} : equal_json ryu a b = true ↔ Same ryu a b := by
  have heq : (fun m n : Number => decide (decimal_key ryu m = decimal_key ryu n))
      = fun m n => decide (m.value ryu = n.value ryu) := by
    funext m n
    rw [decide_eq_decide, decimal_key_eq_iff]
  rw [equal_json, Same, heq]

theorem decides_type (h : Accepted passed flag map) :
    Decides (.error code) (validate_type code map value) (MeetsType map value) := by
  rw [validate_type]
  cases hlookup : lookup map "type" with
  | none => exact .skip fun given hgiven => by rw [hlookup] at hgiven; cases hgiven
  | some given =>
    have hunique : MeetsType map value ↔
        (∃ kind, given = .string kind ∧ HasType kind value)
          ∨ ∃ kinds, given = .array kinds ∧ ∃ kind, .string kind ∈ kinds ∧ HasType kind value := by
      refine ⟨fun hmeets => hmeets given hlookup, fun hmeets given' hgiven' => ?_⟩
      rw [hlookup] at hgiven'
      cases hgiven'
      exact hmeets
    refine Decides.congr ?_ hunique.symm
    rcases h.type given hlookup with ⟨kind, hkind, rfl⟩ | ⟨kinds, rfl, _, hkinds⟩
    · rcases matches_type_spec kind value with ⟨_, b, hb, hiff⟩ | ⟨hunknown, _⟩
      · dsimp only
        rw [hb]
        refine decides_require_iff (hiff.trans ?_)
        simp
      · exact absurd hkind hunknown
    · obtain ⟨b, hb, hiff⟩ := matches_types_spec hkinds value
      dsimp only
      rw [hb]
      refine decides_require_iff (hiff.trans ?_)
      simp

theorem decides_enum (h : Accepted passed flag map) :
    Decides (.error code) (validate_enum ryu code map value) (MeetsEnum ryu map value) := by
  rw [validate_enum]
  cases hlookup : lookup map "enum" with
  | none => exact .skip fun given hgiven => by rw [hlookup] at hgiven; cases hgiven
  | some given =>
    obtain ⟨values, rfl⟩ := h.enum given hlookup
    refine decides_require_iff ?_
    rw [List.any_eq_true]
    constructor
    · rintro ⟨allowed, hmem, hsame⟩ given hgiven
      rw [hlookup] at hgiven
      cases hgiven
      exact ⟨values, rfl, allowed, hmem, same_iff.mp hsame⟩
    · intro hmeets
      obtain ⟨_, hvalues, allowed, hmem, hsame⟩ := hmeets _ hlookup
      cases hvalues
      exact ⟨allowed, hmem, same_iff.mpr hsame⟩

theorem decides_const :
    Decides (.error code) (validate_const ryu code map value) (MeetsConst ryu map value) := by
  refine decides_keyword fun constant _ => ?_
  exact decides_require_iff same_iff

theorem decides_bound (hkey : key ∈ ["minimum", "maximum", "exclusiveMinimum",
    "exclusiveMaximum"]) (h : Accepted passed flag map) (n : Number) {allows : Ordering → Bool}
    {holds : ℚ → Prop} (hallows : ∀ q, allows (compare (n.value ryu) q) = true ↔ holds q) :
    Decides (.error code) (validate_bound ryu code map (.number n) key allows)
      (Bounded ryu map key holds) := by
  refine decides_keyword fun given hgiven => ?_
  obtain ⟨m, rfl⟩ := h.bounds key hkey given hgiven
  rw [compare_numbers_eq]
  refine decides_require_iff ((hallows _).trans ?_)
  exact ⟨fun hm => ⟨m, rfl, hm⟩, fun ⟨_, hm, hholds⟩ => by cases hm; exact hholds⟩

theorem decides_number (h : Accepted passed flag map) :
    Decides (.error code) (validate_number ryu code map value)
      (∀ n, value = .number n → InRange ryu map n) := by
  rw [validate_number]
  cases value with
  | number n =>
    refine Decides.congr (p := InRange ryu map n) ?_ (by simp)
    refine (decides_bound (by simp) h n fun q => ?_).bind fun _ =>
      (decides_bound (by simp) h n fun q => ?_).bind fun _ =>
      (decides_bound (by simp) h n fun q => ?_).bind fun _ =>
      decides_bound (by simp) h n fun q => ?_
    · rw [bne_iff_ne, Ne, compare_lt_iff_lt, not_lt]
    · rw [bne_iff_ne, Ne, compare_gt_iff_gt, not_lt]
    · rw [beq_iff_eq, compare_gt_iff_gt]
    · rw [beq_iff_eq, compare_lt_iff_lt]
  | _ => exact .skip fun n hn => nomatch hn

/-! ## Lengths, names and items -/

theorem decides_length (hkey : key ∈ ["minItems", "maxItems", "minLength",
    "maxLength", "minProperties", "maxProperties"]) (h : Accepted passed flag map)
    {allows : ℕ → Bool} {holds : ℕ → Prop} (hallows : ∀ n, allows n = true ↔ holds n) :
    Decides (.error code) (validate_length code map key allows)
      (Keyword map key fun given => ∃ n, as_u64 given = some n ∧ holds n) := by
  refine decides_keyword fun given hgiven => ?_
  obtain ⟨n, hn⟩ := h.counts key hkey given hgiven
  rw [hn]
  refine decides_require_iff ((hallows n).trans ?_)
  exact ⟨fun hn' => ⟨n, rfl, hn'⟩, fun ⟨_, hm, hholds⟩ => Option.some.inj hm ▸ hholds⟩

theorem decides_counted {least most : String} (hleast : least ∈ ["minItems", "maxItems",
    "minLength", "maxLength", "minProperties", "maxProperties"]) (hmost : most ∈ ["minItems",
    "maxItems", "minLength", "maxLength", "minProperties", "maxProperties"])
    (h : Accepted passed flag map) (count : ℕ) :
    Decides (.error code) (validate_counted code map least most count)
      (Counted map least most count) :=
  (decides_length hleast h fun _ => decide_eq_true_iff).bind fun _ =>
    decides_length hmost h fun _ => decide_eq_true_iff

theorem decides_required (h : Accepted passed flag map) (fields : List (String × Value Number)) :
    Decides (.error code) (validate_required code map fields) (HasRequired map fields) := by
  rw [validate_required]
  cases hlookup : lookup map "required" with
  | none => exact .skip fun given hgiven => by rw [hlookup] at hgiven; cases hgiven
  | some given =>
    obtain ⟨names, rfl, hnames⟩ := h.required given hlookup
    refine (Decides.forM (P := fun n => ∀ name, n = .string name → name ∈ fields.map Prod.fst)
      fun n hn => ?_).congr ⟨fun hall given hgiven => ?_, fun hmeets n hn name hname => ?_⟩
    · obtain ⟨name, rfl⟩ := hnames n hn
      refine decides_require_iff ?_
      rw [← Option.not_isNone, Bool.not_eq_true', Bool.eq_false_iff, Ne, Option.isNone_iff_eq_none,
        Value.lookup_none, not_not]
      exact ⟨fun hmem name hname => by cases hname; exact hmem, fun hmem => hmem name rfl⟩
    · rw [hlookup] at hgiven
      cases hgiven
      exact ⟨names, rfl, fun name hname => hall _ hname name rfl⟩
    · obtain ⟨_, heq, hall⟩ := hmeets _ hlookup
      cases heq
      exact hall name (hname ▸ hn)

theorem has_duplicates_iff {items : List (Value Number)} :
    has_duplicates ryu items = false ↔ items.Pairwise (fun a b => ¬Same ryu a b) := by
  induction items with
  | nil => simp [has_duplicates]
  | cons item items ih =>
    rw [has_duplicates, Bool.or_eq_false_iff, ih, List.pairwise_cons, List.any_eq_false]
    simp only [same_iff]

theorem decides_unique (items : List (Value Number)) :
    Decides (.error code) (validate_unique ryu code map items) (Unique ryu map items) := by
  rw [validate_unique]
  split
  next htrue =>
    refine decides_require_iff ?_
    rw [Bool.not_eq_true', has_duplicates_iff]
    constructor
    · intro hpairwise given _ _
      exact hpairwise
    · intro hunique
      exact hunique _ htrue rfl
  next hother =>
    refine .skip fun given hgiven htrue => ?_
    subst htrue
    exact absurd hgiven hother


/-! ## Subschemas -/

theorem as_object_some {v : Value Number} {fields : List (String × Value Number)}
    (h : as_object v = some fields) : v = .object fields := by
  cases v <;> simp_all [as_object]

section Subschemas

variable {check : Value Number → Value Number → Except Stop Unit}
  {satisfies : Value Number → Value Number → Prop}
  (hcheck : ∀ schema, passed schema → ∀ v,
    Decides (.error code) (check schema v) (satisfies schema v))

include hcheck

theorem decides_items (h : Accepted passed flag map) (items : List (Value Number)) :
    Decides (.error code) (validate_items map check items)
      (∀ sub, (_ : lookup map "items" = some sub) → ∀ item ∈ items, satisfies sub item) :=
  decides_keyword fun sub hsub =>
    Decides.forM fun item _ => hcheck sub (h.items sub hsub) item

theorem decides_field (h : Accepted passed flag map)
    {properties : Option (List (String × Value Number))}
    (hproperties : properties = (lookup map "properties").bind as_object)
    (hpassed : ∀ ps ∈ properties, ∀ f ∈ ps, passed f.2) (f : String × Value Number) :
    Decides (.error code) (validate_field map check properties f)
      (∀ sub, (_ : Governs map f.1 sub) → satisfies sub f.2) := by
  rw [validate_field]
  cases hfound : properties.bind (lookup · f.1) with
  | some sub =>
    -- the schema of the name governs the field, and no other does
    obtain ⟨ps, hps, hsub⟩ := Option.bind_eq_some_iff.mp hfound
    rw [hps] at hproperties
    obtain ⟨given, hgiven, hobject⟩ := Option.bind_eq_some_iff.mp hproperties.symm
    have hlookup : lookup map "properties" = some (.object ps) := by
      rw [hgiven, as_object_some hobject]
    refine (hcheck sub (hpassed ps hps _ (Value.lookup_some hsub)) f.2).congr ⟨?_, ?_⟩
    · rintro hsat other (⟨ps', hps', hother⟩ | ⟨hnone, _⟩)
      · rw [hlookup] at hps'
        cases hps'
        rw [hsub] at hother
        cases hother
        exact hsat
      · rw [hnone ps hlookup] at hsub
        cases hsub
    · exact fun hall => hall sub (.inl ⟨ps, hlookup, hsub⟩)
  | none =>
    have hnone : ∀ ps, lookup map "properties" = some (.object ps) → lookup ps f.1 = none := by
      intro ps hps
      rw [hps] at hproperties
      rw [hproperties] at hfound
      exact hfound
    refine Decides.congr (decides_keyword fun additional hadditional =>
      hcheck additional (h.additional additional hadditional) f.2) ⟨?_, ?_⟩
    · rintro hkeyword sub (⟨ps, hps, hsub⟩ | ⟨_, hsub⟩)
      · rw [hnone ps hps] at hsub
        cases hsub
      · exact hkeyword sub hsub
    · exact fun hall sub hsub => hall sub (.inr ⟨hnone, hsub⟩)

theorem decides_fields (h : Accepted passed flag map) (fields : List (String × Value Number)) :
    Decides (.error code) (validate_fields map check fields)
      (∀ f ∈ fields, ∀ sub, (_ : Governs map f.1 sub) → satisfies sub f.2) := by
  rw [validate_fields]
  cases hlookup : lookup map "properties" with
  | none =>
    refine Decides.forM fun f _ => decides_field hcheck h ?_ ?_ f
    · rw [hlookup]
      rfl
    · exact fun ps hps => nomatch hps
  | some given =>
    obtain ⟨ps, rfl, hps⟩ := h.properties given hlookup
    refine Decides.forM fun f _ => decides_field hcheck h ?_ ?_ f
    · rw [hlookup]
      rfl
    · intro ps' hps'
      cases hps'
      exact hps

theorem decides_object (h : Accepted passed flag map) :
    Decides (.error code) (validate_object code map value check)
      (∀ fields, value = .object fields →
        Counted map "minProperties" "maxProperties" fields.length
          ∧ HasRequired map fields
          ∧ ∀ f ∈ fields, ∀ sub, (_ : Governs map f.1 sub) → satisfies sub f.2) := by
  rw [validate_object]
  cases value with
  | object fields =>
    refine Decides.congr ((decides_counted (by simp) (by simp) h fields.length).bind fun _ =>
      (decides_required h fields).bind fun _ => decides_fields hcheck h fields) (by simp)
  | _ => exact .skip fun fields hfields => nomatch hfields

theorem decides_array (h : Accepted passed flag map) :
    Decides (.error code) (validate_array ryu code map value check)
      (∀ items, value = .array items →
        Counted map "minItems" "maxItems" items.length
          ∧ Unique ryu map items
          ∧ ∀ sub, (_ : lookup map "items" = some sub) → ∀ item ∈ items, satisfies sub item) := by
  rw [validate_array]
  cases value with
  | array items =>
    refine Decides.congr ((decides_counted (by simp) (by simp) h items.length).bind fun _ =>
      (decides_unique items).bind fun _ => decides_items hcheck h items) (by simp)
  | _ => exact .skip fun items hitems => nomatch hitems

/-! ## Combinators -/

omit hcheck in
theorem branches_of {key : String} (hkey : key ∈ COMBINATORS) (h : Accepted passed flag map) :
    (lookup map key = none ∧ (lookup map key).bind as_array = none)
      ∨ ∃ branches, lookup map key = some (.array branches) ∧ flag = true
        ∧ (lookup map key).bind as_array = some branches ∧ ∀ branch ∈ branches, passed branch := by
  cases hlookup : lookup map key with
  | none => exact .inl ⟨rfl, rfl⟩
  | some given =>
    obtain ⟨hflag, branches, rfl, hpassed⟩ := h.branches key hkey given hlookup
    exact .inr ⟨branches, rfl, hflag, rfl, hpassed⟩

theorem decides_all_of (h : Accepted passed flag map) :
    Decides (.error code) (validate_all_of map value check)
      (∀ branches, (_ : lookup map "allOf" = some (.array branches)) →
        ∀ i : Fin branches.length, satisfies (branches.get i) value) := by
  rw [validate_all_of]
  rcases branches_of (by decide : "allOf" ∈ COMBINATORS) h with
    ⟨hnone, hbranches⟩ | ⟨branches, hsome, _, hbranches, hpassed⟩
  · rw [hbranches]
    exact .skip fun branches hbranches => by rw [hnone] at hbranches; cases hbranches
  · rw [hbranches]
    refine Decides.congr (Decides.forM fun branch hmem => hcheck branch (hpassed branch hmem) value)
      ⟨fun hall branches' hbranches' i => ?_, fun hall branch hmem => ?_⟩
    · rw [hsome] at hbranches'
      cases hbranches'
      exact hall _ (List.get_mem _ _)
    · obtain ⟨i, rfl⟩ := List.get_of_mem hmem
      exact hall branches hsome i

omit hcheck in
theorem is_ok_iff {result : Except Stop Unit} {p : Prop}
    (h : Decides (.error code) result p) : is_ok result = true ↔ p := by
  rcases h with ⟨rfl, hp⟩ | ⟨rfl, hp⟩ <;> simp [is_ok, hp]

theorem decides_any_of (h : Accepted passed flag map) :
    Decides (.error code) (validate_any_of code map value check)
      (∀ branches, (_ : lookup map "anyOf" = some (.array branches)) →
        ∃ i : Fin branches.length, satisfies (branches.get i) value) := by
  rw [validate_any_of]
  rcases branches_of (by decide : "anyOf" ∈ COMBINATORS) h with
    ⟨hnone, hbranches⟩ | ⟨branches, hsome, _, hbranches, hpassed⟩
  · rw [hbranches]
    exact .skip fun branches hbranches => by rw [hnone] at hbranches; cases hbranches
  · rw [hbranches]
    refine decides_require_iff ?_
    rw [List.any_eq_true]
    constructor
    · rintro ⟨branch, hmem, hok⟩ branches' hbranches'
      rw [hsome] at hbranches'
      cases hbranches'
      obtain ⟨i, rfl⟩ := List.get_of_mem hmem
      exact ⟨i, (is_ok_iff (hcheck _ (hpassed _ hmem) value)).mp hok⟩
    · intro hany
      obtain ⟨i, hi⟩ := hany branches hsome
      have hmem := List.get_mem branches i
      exact ⟨_, hmem, (is_ok_iff (hcheck _ (hpassed _ hmem) value)).mpr hi⟩

omit hcheck in
theorem count_matches_iff {matched : Value Number → Bool} {P : Value Number → Prop}
    {branches : List (Value Number)} (h : ∀ branch ∈ branches, matched branch = true ↔ P branch) :
    count_matches matched branches 0 = 1 ↔ ∃! i : Fin branches.length, P (branches.get i) := by
  -- with one match before, a further match ends the count at two
  have hnext : ∀ l : List (Value Number), (∀ branch ∈ l, matched branch = true ↔ P branch) →
      (count_matches matched l 1 = 1 ↔ ∀ branch ∈ l, ¬P branch) := by
    intro l hl
    induction l with
    | nil => simp [count_matches]
    | cons branch l ih =>
      have hrest := ih fun b hb => hl b (List.mem_cons_of_mem _ hb)
      have hfirst := hl branch List.mem_cons_self
      rw [count_matches, List.forall_mem_cons]
      by_cases hmatched : matched branch = true
      · simp [hmatched, hfirst.mp hmatched]
      · rw [if_neg hmatched, hrest]
        exact ⟨fun hall => ⟨fun hp => hmatched (hfirst.mpr hp), hall⟩, And.right⟩
  induction branches with
  | nil => exact ⟨fun hcount => (nomatch hcount), fun ⟨i, _⟩ => i.elim0⟩
  | cons branch branches ih =>
    have hrest := fun b hb => h b (List.mem_cons_of_mem branch hb)
    have hfirst := h branch List.mem_cons_self
    rw [count_matches]
    by_cases hmatched : matched branch = true
    · rw [if_pos hmatched, if_neg (by omega), hnext branches hrest]
      constructor
      · intro hnone
        refine ⟨0, hfirst.mp hmatched, fun i hi => ?_⟩
        cases i using Fin.cases with
        | zero => rfl
        | succ i => exact absurd hi (hnone _ (List.get_mem _ _))
      · rintro ⟨i, _, hunique⟩ b hb hp
        obtain ⟨j, rfl⟩ := List.get_of_mem hb
        have hzero := hunique 0 (hfirst.mp hmatched)
        have hsucc := hunique j.succ hp
        exact absurd (hsucc.trans hzero.symm) (Fin.succ_ne_zero j)
    · rw [if_neg hmatched]
      refine (ih hrest).trans ?_
      have hnot : ¬P branch := fun hp => hmatched (hfirst.mpr hp)
      constructor
      · rintro ⟨i, hi, hunique⟩
        refine ⟨i.succ, hi, fun j hj => ?_⟩
        cases j using Fin.cases with
        | zero => exact absurd hj hnot
        | succ j => exact congrArg Fin.succ (hunique j hj)
      · rintro ⟨i, hi, hunique⟩
        cases i using Fin.cases with
        | zero => exact absurd hi hnot
        | succ i => exact ⟨i, hi, fun j hj => Fin.succ_injective _ (hunique j.succ hj)⟩

theorem decides_one_of (h : Accepted passed flag map) :
    Decides (.error code) (validate_one_of code map value check)
      (∀ branches, (_ : lookup map "oneOf" = some (.array branches)) →
        ∃! i : Fin branches.length, satisfies (branches.get i) value) := by
  rw [validate_one_of]
  rcases branches_of (by decide : "oneOf" ∈ COMBINATORS) h with
    ⟨hnone, hbranches⟩ | ⟨branches, hsome, _, hbranches, hpassed⟩
  · rw [hbranches]
    exact .skip fun branches hbranches => by rw [hnone] at hbranches; cases hbranches
  · rw [hbranches]
    refine decides_require_iff ?_
    rw [beq_iff_eq, count_matches_iff fun branch hmem =>
      is_ok_iff (hcheck branch (hpassed branch hmem) value)]
    constructor
    · intro hone branches' hbranches'
      rw [hsome] at hbranches'
      cases hbranches'
      exact hone
    · exact fun hone => hone branches hsome

theorem decides_combinators (h : Accepted passed flag map) :
    Decides (.error code) (validate_combinators code map value check)
      ((∀ branches, (_ : lookup map "allOf" = some (.array branches)) →
          ∀ i : Fin branches.length, satisfies (branches.get i) value)
        ∧ (∀ branches, (_ : lookup map "anyOf" = some (.array branches)) →
          ∃ i : Fin branches.length, satisfies (branches.get i) value)
        ∧ ∀ branches, (_ : lookup map "oneOf" = some (.array branches)) →
          ∃! i : Fin branches.length, satisfies (branches.get i) value) :=
  (decides_all_of hcheck h).bind fun _ =>
    (decides_any_of hcheck h).bind fun _ => decides_one_of hcheck h

end Subschemas

theorem no_branches (h : Accepted passed false map) (hkey : key ∈ COMBINATORS)
    {branches : List (Value Number)} (hbranches : lookup map key = some (.array branches)) :
    False :=
  Bool.false_ne_true (h.branches key hkey _ hbranches).1

theorem decides_string (h : Accepted passed flag map) :
    Decides (.error code) (validate_string code map value)
      (∀ s, value = .string s → Counted map "minLength" "maxLength" s.length) := by
  unfold validate_string
  cases value with
  | string s =>
    refine Decides.congr (p := Counted map "minLength" "maxLength" s.length) ?_ (by simp)
    exact decides_counted (by simp) (by simp) h s.length
  | _ => exact .skip fun s hs => nomatch hs

/-! ## Every schema -/

theorem validate_decides (levels : ℕ) : ∀ (given : Bool), (flag = true → given = true) →
    ∀ schema, Passed (check_schema levels) flag schema → ∀ value,
      Decides (.error code) (validate ryu code levels given schema value)
        (Satisfies ryu schema value) := by
  induction levels with
  | zero => exact fun _ _ schema h => (passed_level h).elim
  | succ levels ih =>
    intro given hgiven schema hpassed value
    unfold validate
    rcases passed_cases hpassed with ⟨b, rfl⟩ | ⟨map, rfl, h⟩
    · refine (decides_require b).congr ?_
      rw [Satisfies]
    · have hcombinators : Decides (.error code)
          (validate_flagged given
            (validate_combinators code map value (validate ryu code levels true)))
          ((∀ branches, (_ : lookup map "allOf" = some (.array branches)) →
              ∀ i : Fin branches.length, Satisfies ryu (branches.get i) value)
            ∧ (∀ branches, (_ : lookup map "anyOf" = some (.array branches)) →
              ∃ i : Fin branches.length, Satisfies ryu (branches.get i) value)
            ∧ ∀ branches, (_ : lookup map "oneOf" = some (.array branches)) →
              ∃! i : Fin branches.length, Satisfies ryu (branches.get i) value) := by
        cases given with
        | true => exact decides_combinators (ih true fun _ => rfl) h
        | false =>
          have hflag : flag = false :=
            Bool.eq_false_iff.mpr fun hf => Bool.false_ne_true (hgiven hf)
          rw [hflag] at h
          exact .skip ⟨fun _ hb => (no_branches h (by decide) hb).elim,
            fun _ hb => (no_branches h (by decide) hb).elim,
            fun _ hb => (no_branches h (by decide) hb).elim⟩
      refine ((decides_type h).bind fun _ => (decides_enum h).bind fun _ =>
        decides_const.bind fun _ => (decides_number h).bind fun _ =>
        (decides_object (ih given hgiven) h).bind fun _ =>
        (decides_array (ih given hgiven) h).bind fun _ =>
        hcombinators.bind fun _ => decides_string h).congr ?_
      rw [Satisfies]
      simp only [and_assoc]

theorem optional_decides {schema : Value Number} {seen : Seen}
    (h : check_schema levels_at_root schema (0, false) = .ok seen) (value : Value Number) :
    Decides (.error code) (validate_optional ryu (some schema) value code)
      (Satisfies ryu schema value) := by
  rw [validate_optional, h]
  exact validate_decides _ _ (fun hs => hs) schema ⟨_, seen, h, fun hs => hs⟩ value

/-- **The validator decides the meaning of the schema.** For a schema that `check_schema`
accepts, every value passes or fails with the code that was asked for, no internal limit
is met, it passes exactly when it satisfies the schema, and reading the combinators
everywhere comes to the same. -/
theorem validator_decides (ryu : Ryu) (schema : Value Number) (seen : Seen)
    (h : check_schema levels_at_root schema (0, false) = .ok seen) (code : ErrorCode)
    (value : Value Number) :
    (validate ryu code levels_at_root seen.2 schema value = .ok ()
        ∨ validate ryu code levels_at_root seen.2 schema value = .error (.error code))
      ∧ (validate ryu code levels_at_root seen.2 schema value = .ok () ↔ Satisfies ryu schema value)
      ∧ (validate_optional ryu (some schema) value code = .ok () ↔ Satisfies ryu schema value)
      ∧ validate ryu code levels_at_root true schema value
        = validate ryu code levels_at_root seen.2 schema value := by
  have hpassed : Passed (check_schema levels_at_root) seen.2 schema := ⟨_, seen, h, fun hs => hs⟩
  have hdecides : Decides (.error code) (validate ryu code levels_at_root seen.2 schema value)
      (Satisfies ryu schema value) := validate_decides _ _ (fun hs => hs) schema hpassed value
  have htrue : Decides (.error code) (validate ryu code levels_at_root true schema value)
      (Satisfies ryu schema value) := validate_decides _ _ (fun _ => rfl) schema hpassed value
  refine ⟨hdecides.outcome, hdecides.ok_iff, (optional_decides h value).ok_iff, ?_⟩
  · rcases hdecides with ⟨hcheck, hp⟩ | ⟨hcheck, hp⟩ <;>
      rcases htrue with ⟨hcheck', hp'⟩ | ⟨hcheck', hp'⟩
    · rw [hcheck, hcheck']
    · exact absurd hp hp'
    · exact absurd hp' hp
    · rw [hcheck, hcheck']

namespace Sample

/-- Exactly one of two ranges that overlap. -/
def either : Value Number :=
  .object [("oneOf", .array [.object [("minimum", .number (.pos_int 1))],
    .object [("maximum", .number (.pos_int 5))]])]

/-- A number in both ranges is refused, as it should be. -/
theorem either_refuses_both :
    validate Ryu.exact .InvalidInput levels_at_root true either (.number (.pos_int 3))
        = .error (.error .InvalidInput)
      ∧ ¬Satisfies Ryu.exact either (.number (.pos_int 3)) := by
  have hchecked : check_schema levels_at_root either (0, false) = .ok (3, true) := by rfl
  have hrefused : validate Ryu.exact .InvalidInput levels_at_root true either
      (.number (.pos_int 3)) = .error (.error .InvalidInput) := by rfl
  have hdecides := validator_decides Ryu.exact either (3, true) hchecked .InvalidInput
    (.number (.pos_int 3))
  refine ⟨hrefused, fun hsat => ?_⟩
  rw [hdecides.2.1.mpr hsat] at hrefused
  cases hrefused

end Sample

end Appcall.Connectors
