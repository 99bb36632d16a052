/-
Equality of JSON values, up to an equality of numbers and the order of fields.

The names of an object's fields are distinct (`Distinct`), as in any map. On such values
`alike` is an equivalence whenever the equality of numbers is one.
-/
import Appcall.Lib.Value
import Mathlib.Data.List.Nodup
import Mathlib.Data.Finset.Card
import Mathlib.Data.List.Perm.Subperm

set_option autoImplicit false

namespace Appcall.Value

variable {ν : Type}

/-- The fields of no object in the value share a name. -/
inductive Distinct : Value ν → Prop
  | null : Distinct .null
  | bool (b : Bool) : Distinct (.bool b)
  | number (n : ν) : Distinct (.number n)
  | string (s : String) : Distinct (.string s)
  | array {items : List (Value ν)} (h : ∀ v ∈ items, Distinct v) : Distinct (.array items)
  | object {fields : List (String × Value ν)} (hnames : (fields.map Prod.fst).Nodup)
      (h : ∀ f ∈ fields, Distinct f.2) : Distinct (.object fields)

theorem induct {P : Value ν → Prop} (null : P .null) (bool : ∀ b, P (.bool b))
    (number : ∀ n, P (.number n)) (string : ∀ s, P (.string s))
    (array : ∀ items, (∀ v ∈ items, P v) → P (.array items))
    (object : ∀ fields, (∀ f ∈ fields, P f.2) → P (.object fields)) (v : Value ν) : P v :=
  @Value.rec ν P (fun items => ∀ v ∈ items, P v) (fun fields => ∀ f ∈ fields, P f.2)
    (fun f => P f.2) null bool number string array object (List.forall_mem_nil _)
    (fun _ _ hv hitems => List.forall_mem_cons.mpr ⟨hv, hitems⟩) (List.forall_mem_nil _)
    (fun _ _ hf hfields => List.forall_mem_cons.mpr ⟨hf, hfields⟩) (fun _ _ h => h) v

def lookup (fields : List (String × Value ν)) (name : String) : Option (Value ν) :=
  (fields.find? (fun f => f.1 == name)).map Prod.snd

variable {fields : List (String × Value ν)} {v b : Value ν} {bs : List (Value ν)}
  {as : List (String × Value ν)} {R S : Value ν → Value ν → Prop} {a x : Value ν}

theorem lookup_some {name : String} (h : lookup fields name = some v) : (name, v) ∈ fields := by
  obtain ⟨f, hf, rfl⟩ := Option.map_eq_some_iff.mp h
  have hname := List.find?_some hf
  rw [beq_iff_eq] at hname
  rw [← hname]
  exact List.mem_of_find?_eq_some hf

theorem lookup_mem (hnames : (fields.map Prod.fst).Nodup) {f : String × Value ν} (hf : f ∈ fields) :
    lookup fields f.1 = some f.2 := by
  induction fields with
  | nil => cases hf
  | cons g fields ih =>
    rw [List.map_cons, List.nodup_cons] at hnames
    rw [lookup, List.find?_cons]
    rcases List.mem_cons.mp hf with rfl | hf
    · rw [beq_self_eq_true]
      rfl
    · have hne : (g.1 == f.1) = false := by
        rw [beq_eq_false_iff_ne]
        intro heq
        exact hnames.1 (heq ▸ List.mem_map_of_mem hf)
      rw [hne]
      exact ih hnames.2 hf

theorem lookup_none {name : String} : lookup fields name = none ↔ name ∉ fields.map Prod.fst := by
  rw [lookup, Option.map_eq_none_iff, List.find?_eq_none, List.mem_map]
  constructor
  · rintro h ⟨f, hf, rfl⟩
    exact h f hf (beq_self_eq_true _)
  · intro h f hf hname
    exact h ⟨f, hf, beq_iff_eq.mp hname⟩

/-! ## Alike values -/

mutual

/-- The values are the same, with numbers compared by `eqv`, and fields by their names. -/
def alike (eqv : ν → ν → Bool) : Value ν → Value ν → Bool
  | .null, .null => true
  | .bool a, .bool b => a == b
  | .number a, .number b => eqv a b
  | .string a, .string b => a == b
  | .array a, .array b => decide (a.length = b.length) && alike_items eqv a b
  | .object a, .object b => decide (a.length = b.length) && alike_fields eqv a b
  | _, _ => false
termination_by structural v => v

def alike_items (eqv : ν → ν → Bool) : List (Value ν) → List (Value ν) → Bool
  | a :: as, b :: bs => alike eqv a b && alike_items eqv as bs
  | _, _ => true
termination_by structural items => items

/-- Each field of the first object has one of its name in the second, alike. -/
def alike_fields (eqv : ν → ν → Bool) :
    List (String × Value ν) → List (String × Value ν) → Bool
  | (name, a) :: as, bs =>
    (match lookup bs name with
      | some b => alike eqv a b
      | none => false) && alike_fields eqv as bs
  | [], _ => true
termination_by structural fields => fields

end

variable {eqv : ν → ν → Bool}

theorem alike_arrays (as bs : List (Value ν)) : alike eqv (.array as) (.array bs)
    = (decide (as.length = bs.length) && alike_items eqv as bs) := rfl

theorem alike_objects (as bs : List (String × Value ν)) : alike eqv (.object as) (.object bs)
    = (decide (as.length = bs.length) && alike_fields eqv as bs) := rfl

theorem alike_items_cons (a b : Value ν) (as bs : List (Value ν)) :
    alike_items eqv (a :: as) (b :: bs) = (alike eqv a b && alike_items eqv as bs) := rfl

theorem alike_fields_cons (name : String) (a : Value ν) (as bs : List (String × Value ν)) :
    alike_fields eqv ((name, a) :: as) bs
      = ((match lookup bs name with
        | some b => alike eqv a b
        | none => false) && alike_fields eqv as bs) := rfl

theorem alike_null : alike eqv .null b = true ↔ b = .null := by
  cases b with
  | null => exact iff_of_true rfl rfl
  | _ => exact iff_of_false Bool.false_ne_true (fun h => nomatch h)

theorem alike_bool {x : Bool} : alike eqv (.bool x) b = true ↔ b = .bool x := by
  cases b with
  | bool y => exact (beq_iff_eq (a := x)).trans (by rw [bool.injEq, eq_comm])
  | _ => exact iff_of_false Bool.false_ne_true (fun h => nomatch h)

theorem alike_string {x : String} : alike eqv (.string x) b = true ↔ b = .string x := by
  cases b with
  | string y => exact (beq_iff_eq (a := x)).trans (by rw [string.injEq, eq_comm])
  | _ => exact iff_of_false Bool.false_ne_true (fun h => nomatch h)

theorem alike_number {x : ν} :
    alike eqv (.number x) b = true ↔ ∃ y, b = .number y ∧ eqv x y = true := by
  cases b with
  | number y => exact ⟨fun h => ⟨y, rfl, h⟩, fun ⟨_, hy, h⟩ => number.inj hy ▸ h⟩
  | _ => exact iff_of_false Bool.false_ne_true (fun ⟨_, h, _⟩ => nomatch h)

theorem alike_items_iff {as : List (Value ν)} :
    as.length = bs.length ∧ alike_items eqv as bs = true ↔
      List.Forall₂ (fun a b => alike eqv a b = true) as bs := by
  induction as generalizing bs with
  | nil =>
    cases bs with
    | nil => exact ⟨fun _ => .nil, fun _ => ⟨rfl, rfl⟩⟩
    | cons b bs => exact ⟨fun h => (nomatch h.1), fun h => (nomatch h)⟩
  | cons a as ih =>
    cases bs with
    | nil => exact ⟨fun h => (nomatch h.1), fun h => (nomatch h)⟩
    | cons b bs =>
      rw [List.forall₂_cons, ← ih, alike_items_cons, Bool.and_eq_true, List.length_cons,
        List.length_cons, Nat.succ_inj]
      tauto

theorem alike_array {as : List (Value ν)} : alike eqv (.array as) b = true ↔
    ∃ bs, b = .array bs ∧ List.Forall₂ (fun a b => alike eqv a b = true) as bs := by
  cases b with
  | array bs =>
    rw [alike_arrays, Bool.and_eq_true, decide_eq_true_iff, alike_items_iff]
    exact ⟨fun h => ⟨bs, rfl, h⟩, fun ⟨_, hbs, h⟩ => array.inj hbs ▸ h⟩
  | _ => exact iff_of_false Bool.false_ne_true (fun ⟨_, h, _⟩ => nomatch h)

theorem alike_fields_iff {bs : List (String × Value ν)} : alike_fields eqv as bs = true ↔
    ∀ f ∈ as, ∃ b, lookup bs f.1 = some b ∧ alike eqv f.2 b = true := by
  induction as with
  | nil => exact ⟨fun _ f hf => (nomatch hf), fun _ => rfl⟩
  | cons f as ih =>
    obtain ⟨name, a⟩ := f
    rw [alike_fields_cons, Bool.and_eq_true, ih, List.forall_mem_cons]
    refine and_congr_left fun _ => ?_
    cases lookup bs name with
    | none => exact ⟨fun h => (nomatch h), fun ⟨_, h, _⟩ => (nomatch h)⟩
    | some b => exact ⟨fun h => ⟨b, rfl, h⟩, fun ⟨_, h, hb⟩ => Option.some.inj h ▸ hb⟩

theorem alike_object :
    alike eqv (.object as) b = true ↔ ∃ bs, b = .object bs ∧ as.length = bs.length
      ∧ ∀ f ∈ as, ∃ b, lookup bs f.1 = some b ∧ alike eqv f.2 b = true := by
  cases b with
  | object bs =>
    rw [alike_objects, Bool.and_eq_true, decide_eq_true_iff, alike_fields_iff]
    exact ⟨fun h => ⟨bs, rfl, h⟩, fun ⟨_, hbs, h⟩ => by cases hbs; exact h⟩
  | _ => exact iff_of_false Bool.false_ne_true (fun ⟨_, h, _⟩ => nomatch h)

theorem alike_refl (hrefl : ∀ n, eqv n n = true) (h : v.Distinct) : alike eqv v v = true := by
  induction h with
  | null => rfl
  | bool b => exact beq_self_eq_true b
  | number n => exact hrefl n
  | string s => exact beq_self_eq_true s
  | array h ih =>
    rw [alike_array]
    exact ⟨_, rfl, List.forall₂_same.mpr ih⟩
  | object hnames h ih =>
    rw [alike_object]
    exact ⟨_, rfl, rfl, fun f hf => ⟨f.2, lookup_mem hnames hf, ih f hf⟩⟩

theorem names_subset {bs : List (String × Value ν)} (hlength : as.length = bs.length)
    (hnames : (as.map Prod.fst).Nodup) (h : ∀ f ∈ as, ∃ b, lookup bs f.1 = some b)
    {f : String × Value ν} (hf : f ∈ bs) : f.1 ∈ as.map Prod.fst := by
  have hsub : as.map Prod.fst ⊆ bs.map Prod.fst := by
    intro name hname
    obtain ⟨g, hg, rfl⟩ := List.mem_map.mp hname
    obtain ⟨b, hb⟩ := h g hg
    exact List.mem_map.mpr ⟨(g.1, b), lookup_some hb, rfl⟩
  have hperm : (as.map Prod.fst).Perm (bs.map Prod.fst) :=
    (List.subperm_of_subset hnames hsub).perm_of_length_le
      (by rw [List.length_map, List.length_map, hlength])
  exact hperm.mem_iff.mpr (List.mem_map_of_mem hf)

theorem forall₂_swap {as : List (Value ν)} (h : List.Forall₂ R as bs)
    (hswap : ∀ a ∈ as, ∀ b ∈ bs, R a b → S b a) : List.Forall₂ S bs as := by
  induction h with
  | nil => exact .nil
  | cons hab _ ih =>
    refine .cons (hswap _ List.mem_cons_self _ List.mem_cons_self hab) (ih fun a ha b hb => ?_)
    exact hswap a (List.mem_cons_of_mem _ ha) b (List.mem_cons_of_mem _ hb)

theorem forall₂_comp {T : Value ν → Value ν → Prop} {as cs : List (Value ν)}
    (h : List.Forall₂ R as bs) (h' : List.Forall₂ S bs cs)
    (hcomp : ∀ a ∈ as, ∀ b ∈ bs, ∀ c ∈ cs, R a b → S b c → T a c) : List.Forall₂ T as cs := by
  induction h generalizing cs with
  | nil =>
    cases h'
    exact .nil
  | cons hab _ ih =>
    cases h' with
    | cons hbc h' =>
      refine .cons (hcomp _ List.mem_cons_self _ List.mem_cons_self _ List.mem_cons_self hab hbc)
        (ih h' fun a ha b hb c hc => ?_)
      exact hcomp a (List.mem_cons_of_mem _ ha) b (List.mem_cons_of_mem _ hb) c
        (List.mem_cons_of_mem _ hc)

theorem alike_symm (hsymm : ∀ m n, eqv m n = true → eqv n m = true) (ha : a.Distinct)
    (hb : b.Distinct) (h : alike eqv a b = true) : alike eqv b a = true := by
  induction ha generalizing b with
  | null => rw [alike_null.mp h, alike_null]
  | bool _ => rw [alike_bool.mp h, alike_bool]
  | string _ => rw [alike_string.mp h, alike_string]
  | number x =>
    obtain ⟨y, rfl, hxy⟩ := alike_number.mp h
    exact alike_number.mpr ⟨x, rfl, hsymm _ _ hxy⟩
  | array _ ih =>
    obtain ⟨bs, rfl, hitems⟩ := alike_array.mp h
    cases hb with
    | array hb =>
      exact alike_array.mpr
        ⟨_, rfl, forall₂_swap hitems fun a ha b hmem hab => ih a ha (hb b hmem) hab⟩
  | object hnames _ ih =>
    obtain ⟨bs, rfl, hlength, h⟩ := alike_object.mp h
    cases hb with
    | object hnames' hb =>
      refine alike_object.mpr ⟨_, rfl, hlength.symm, fun f hf => ?_⟩
      have hmem := names_subset hlength hnames (fun g hg => (h g hg).imp fun _ hb => hb.1) hf
      obtain ⟨g, hg, hname⟩ := List.mem_map.mp hmem
      obtain ⟨b, hlookup, halike⟩ := h g hg
      rw [hname, lookup_mem hnames' hf] at hlookup
      cases hlookup
      refine ⟨g.2, ?_, ih g hg (hb f hf) halike⟩
      rw [← hname]
      exact lookup_mem hnames hg

theorem alike_trans (htrans : ∀ m n o, eqv m n = true → eqv n o = true → eqv m o = true)
    {c : Value ν} (h : alike eqv a b = true) (h' : alike eqv b c = true) :
    alike eqv a c = true := by
  induction a using induct generalizing b c with
  | null => rwa [alike_null.mp h] at h'
  | bool _ => rwa [alike_bool.mp h] at h'
  | string _ => rwa [alike_string.mp h] at h'
  | number x =>
    obtain ⟨y, rfl, hxy⟩ := alike_number.mp h
    obtain ⟨z, rfl, hyz⟩ := alike_number.mp h'
    exact alike_number.mpr ⟨z, rfl, htrans _ _ _ hxy hyz⟩
  | array _ ih =>
    obtain ⟨bs, rfl, hitems⟩ := alike_array.mp h
    obtain ⟨cs, rfl, hitems'⟩ := alike_array.mp h'
    exact alike_array.mpr
      ⟨cs, rfl, forall₂_comp hitems hitems' fun a ha b _ c _ hab hbc => ih a ha hab hbc⟩
  | object _ ih =>
    obtain ⟨bs, rfl, hlength, h⟩ := alike_object.mp h
    obtain ⟨cs, rfl, hlength', h'⟩ := alike_object.mp h'
    refine alike_object.mpr ⟨cs, rfl, hlength.trans hlength', fun f hf => ?_⟩
    obtain ⟨b, hb, hab⟩ := h f hf
    obtain ⟨c, hc, hbc⟩ := h' (f.1, b) (lookup_some hb)
    exact ⟨c, hc, ih f hf hab hbc⟩

/-! ## Parts -/

/-- What a value is made of, itself included. -/
inductive Part (v : Value ν) : Value ν → Prop
  | refl : Part v v
  | item {items : List (Value ν)} (h : Part v (.array items)) {x : Value ν} (hx : x ∈ items) :
    Part v x
  | field {fields : List (String × Value ν)} (h : Part v (.object fields))
    {f : String × Value ν} (hf : f ∈ fields) : Part v f.2

theorem Part.trans {u w : Value ν} (h : Part u v) (h' : Part v w) : Part u w := by
  induction h' with
  | refl => exact h
  | item _ hx ih => exact ih.item hx
  | field _ hf ih => exact ih.field hf

theorem part_array {items : List (Value ν)} (h : Part (.array items) x) :
    x = .array items ∨ ∃ v ∈ items, Part v x := by
  induction h with
  | refl => exact .inl rfl
  | item _ hx ih =>
    rcases ih with ih | ⟨v, hv, ih⟩
    · cases ih
      exact .inr ⟨_, hx, .refl⟩
    · exact .inr ⟨v, hv, ih.item hx⟩
  | field _ hf ih =>
    rcases ih with ih | ⟨v, hv, ih⟩
    · cases ih
    · exact .inr ⟨v, hv, ih.field hf⟩

theorem part_object (h : Part (.object fields) x) :
    x = .object fields ∨ ∃ f ∈ fields, Part f.2 x := by
  induction h with
  | refl => exact .inl rfl
  | item _ hx ih =>
    rcases ih with ih | ⟨v, hv, ih⟩
    · cases ih
    · exact .inr ⟨v, hv, ih.item hx⟩
  | field _ hf ih =>
    rcases ih with ih | ⟨v, hv, ih⟩
    · cases ih
      exact .inr ⟨_, hf, .refl⟩
    · exact .inr ⟨v, hv, ih.field hf⟩

theorem part_leaf (harray : ∀ items, v ≠ .array items) (hobject : ∀ fields, v ≠ .object fields)
    (h : Part v x) : x = v := by
  induction h with
  | refl => rfl
  | item _ _ ih => exact absurd ih.symm (harray _)
  | field _ _ ih => exact absurd ih.symm (hobject _)

theorem alike_mono {eqv eqv' : ν → ν → Bool}
    (hnumbers : ∀ m n, Part a (.number m) → Part b (.number n) → eqv m n = true →
      eqv' m n = true) (h : alike eqv a b = true) : alike eqv' a b = true := by
  induction a using induct generalizing b with
  | null => rw [alike_null.mp h, alike_null]
  | bool _ => rw [alike_bool.mp h, alike_bool]
  | string _ => rw [alike_string.mp h, alike_string]
  | number x =>
    obtain ⟨y, rfl, hxy⟩ := alike_number.mp h
    exact alike_number.mpr ⟨y, rfl, hnumbers x y .refl .refl hxy⟩
  | array as ih =>
    obtain ⟨bs, rfl, hitems⟩ := alike_array.mp h
    refine alike_array.mpr ⟨bs, rfl, ?_⟩
    have hparts : ∀ x ∈ as, ∀ y ∈ bs, alike eqv x y = true → alike eqv' x y = true :=
      fun x hx y hy hxy => ih x hx (fun m n hm hn => hnumbers m n
        ((Part.refl.item hx).trans hm) ((Part.refl.item hy).trans hn)) hxy
    refine (List.forall₂_iff_get.mpr ⟨hitems.length_eq, fun i hi hi' => ?_⟩)
    exact hparts _ (List.get_mem _ _) _ (List.get_mem _ _) (hitems.get hi hi')
  | object fields ih =>
    obtain ⟨bs, rfl, hlength, h⟩ := alike_object.mp h
    refine alike_object.mpr ⟨bs, rfl, hlength, fun f hf => ?_⟩
    obtain ⟨b, hb, hab⟩ := h f hf
    refine ⟨b, hb, ih f hf (fun m n hm hn => hnumbers m n ?_ ?_) hab⟩
    · exact (Part.refl.field hf).trans hm
    · exact (Part.field .refl (lookup_some hb)).trans hn

/-! ## Other numbers -/

section Map

variable {μ : Type} (f : ν → μ)

mutual

/-- The value with its numbers replaced. -/
def map : Value ν → Value μ
  | .null => .null
  | .bool b => .bool b
  | .number n => .number (f n)
  | .string s => .string s
  | .array items => .array (map_items items)
  | .object fields => .object (map_fields fields)
termination_by structural v => v

def map_items : List (Value ν) → List (Value μ)
  | [] => []
  | v :: items => map v :: map_items items
termination_by structural items => items

def map_fields : List (String × Value ν) → List (String × Value μ)
  | [] => []
  | (name, v) :: fields => (name, map v) :: map_fields fields
termination_by structural fields => fields

end

theorem map_items_eq (items : List (Value ν)) : map_items f items = items.map (map f) := by
  induction items with
  | nil => rfl
  | cons v items ih => rw [map_items, ih, List.map_cons]

variable (fields : List (String × Value ν))

theorem map_fields_eq : map_fields f fields = fields.map (fun g => (g.1, map f g.2)) := by
  induction fields with
  | nil => rfl
  | cons g fields ih => rw [map_fields, ih, List.map_cons]

theorem Distinct.map {v : Value ν} (h : v.Distinct) : (v.map f).Distinct := by
  induction h with
  | null => exact .null
  | bool b => exact .bool b
  | number n => exact .number (f n)
  | string s => exact .string s
  | array h ih =>
    rw [Value.map, map_items_eq]
    exact .array (List.forall_mem_map.mpr ih)
  | object hnames h ih =>
    rw [Value.map, map_fields_eq]
    refine .object ?_ (List.forall_mem_map.mpr ih)
    rw [List.map_map]
    exact hnames

theorem lookup_map (name : String) :
    lookup (map_fields f fields) name = (lookup fields name).map (map f) := by
  rw [lookup, lookup, map_fields_eq, List.find?_map, Option.map_map, Option.map_map]
  rfl

theorem alike_items_map {eqv : μ → μ → Bool} {as bs : List (Value ν)}
    (h : ∀ a ∈ as, ∀ b, alike eqv (map f a) (map f b) = alike (fun m n => eqv (f m) (f n)) a b) :
    alike_items eqv (map_items f as) (map_items f bs)
      = alike_items (fun m n => eqv (f m) (f n)) as bs := by
  induction as generalizing bs with
  | nil => rfl
  | cons a as ih =>
    cases bs with
    | nil => rfl
    | cons b bs =>
      rw [map_items, map_items, alike_items, alike_items, h a List.mem_cons_self,
        ih fun c hc => h c (List.mem_cons_of_mem a hc)]

theorem alike_fields_map {eqv : μ → μ → Bool} {as bs : List (String × Value ν)}
    (h : ∀ g ∈ as, ∀ b,
      alike eqv (map f g.2) (map f b) = alike (fun m n => eqv (f m) (f n)) g.2 b) :
    alike_fields eqv (map_fields f as) (map_fields f bs)
      = alike_fields (fun m n => eqv (f m) (f n)) as bs := by
  induction as with
  | nil => rfl
  | cons g as ih =>
    obtain ⟨name, a⟩ := g
    rw [map_fields, alike_fields, alike_fields, lookup_map,
      ih fun c hc => h c (List.mem_cons_of_mem _ hc)]
    cases lookup bs name with
    | none => rfl
    | some b =>
      have hab := h (name, a) List.mem_cons_self b
      dsimp only [Option.map_some] at hab ⊢
      rw [hab]

theorem alike_map {eqv : μ → μ → Bool} (a b : Value ν) :
    alike eqv (map f a) (map f b) = alike (fun m n => eqv (f m) (f n)) a b := by
  induction a using induct generalizing b with
  | array as ih =>
    cases b with
    | array bs =>
      rw [map, map, alike, alike, alike_items_map f ih, map_items_eq, map_items_eq,
        List.length_map, List.length_map]
    | _ => rfl
  | object as ih =>
    cases b with
    | object bs =>
      rw [map, map, alike, alike, alike_fields_map f ih, map_fields_eq, map_fields_eq,
        List.length_map, List.length_map]
    | _ => rfl
  | _ => cases b <;> rfl

end Map

end Appcall.Value
