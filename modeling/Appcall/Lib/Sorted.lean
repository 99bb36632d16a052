/-
A normal form for JSON values: the fields of every object in the order of their names.

Values are alike exactly when their normal forms are equal, if the equality of their numbers
is identity.
-/
import Appcall.Lib.Alike
import Mathlib.Data.List.Sort
import Mathlib.Data.String.Basic

set_option autoImplicit false

namespace Appcall

section ByName

variable {α β : Type}

def by_name (fields : List (String × α)) : List (String × α) :=
  fields.insertionSort (fun f g => f.1 ≤ g.1)

theorem by_name_perm (fields : List (String × α)) : (by_name fields).Perm fields :=
  List.perm_insertionSort _ _

theorem by_name_map (f : String → α → β) (fields : List (String × α)) :
    by_name (fields.map (fun g => (g.1, f g.1 g.2)))
      = (by_name fields).map (fun g => (g.1, f g.1 g.2)) :=
  (List.map_insertionSort (fun a b : String × α => a.1 ≤ b.1) (fun a b : String × β => a.1 ≤ b.1)
    (fun g => (g.1, f g.1 g.2)) fields fun _ _ _ _ => Iff.rfl).symm

variable {as bs : List (String × α)}

theorem by_name_eq (hnames : (as.map Prod.fst).Nodup) (h : as.Perm bs) :
    by_name as = by_name bs := by
  refine List.Perm.eq_of_pairwise ?_ (List.pairwise_insertionSort _ _)
    (List.pairwise_insertionSort _ _) ((by_name_perm as).trans (h.trans (by_name_perm bs).symm))
  intro f g hf hg hfg hgf
  have hf' : f ∈ as := (by_name_perm as).subset hf
  have hg' : g ∈ as := h.symm.subset ((by_name_perm bs).subset hg)
  exact List.inj_on_of_nodup_map hnames hf' hg' (le_antisymm hfg hgf)

theorem by_name_eq_iff (hnames : (as.map Prod.fst).Nodup) :
    by_name as = by_name bs ↔ as.Perm bs := by
  refine ⟨fun h => ?_, by_name_eq hnames⟩
  have hperm := by_name_perm as
  rw [h] at hperm
  exact hperm.symm.trans (by_name_perm bs)

end ByName

namespace Value

variable {ν : Type}

mutual

/-- The value with the fields of its objects in order. -/
def sorted : Value ν → Value ν
  | .null => .null
  | .bool b => .bool b
  | .number n => .number n
  | .string s => .string s
  | .array items => .array (sorted_items items)
  | .object fields => .object (by_name (sorted_fields fields))
termination_by structural v => v

def sorted_items : List (Value ν) → List (Value ν)
  | [] => []
  | v :: items => sorted v :: sorted_items items
termination_by structural items => items

def sorted_fields : List (String × Value ν) → List (String × Value ν)
  | [] => []
  | (name, v) :: fields => (name, sorted v) :: sorted_fields fields
termination_by structural fields => fields

end

theorem sorted_items_eq (items : List (Value ν)) : sorted_items items = items.map sorted := by
  induction items with
  | nil => rfl
  | cons v items ih => rw [sorted_items, ih, List.map_cons]

variable (fields : List (String × Value ν))

theorem sorted_fields_eq : sorted_fields fields = fields.map (fun f => (f.1, sorted f.2)) := by
  induction fields with
  | nil => rfl
  | cons f fields ih => rw [sorted_fields, ih, List.map_cons]

theorem sorted_names : (sorted_fields fields).map Prod.fst = fields.map Prod.fst := by
  rw [sorted_fields_eq, List.map_map]
  rfl

variable {eqv : ν → ν → Bool}

/-- **Values are alike exactly when they are equal once their fields are in order.** -/
theorem alike_iff_sorted (heqv : ∀ m n, eqv m n = true ↔ m = n) {a b : Value ν}
    (ha : a.Distinct) (hb : b.Distinct) : alike eqv a b = true ↔ sorted a = sorted b := by
  induction ha generalizing b with
  | null =>
    rw [alike_null]
    cases b <;> simp [sorted]
  | bool x =>
    rw [alike_bool]
    cases b <;> simp [sorted, eq_comm]
  | string s =>
    rw [alike_string]
    cases b <;> simp [sorted, eq_comm]
  | number n =>
    rw [alike_number]
    cases b <;> simp [sorted, heqv]
  | @array as _ ih =>
    rw [alike_array]
    cases hb with
    | @array bs hb =>
      have hforall : List.Forall₂ (fun a b => alike eqv a b = true) as bs
          ↔ as.map sorted = bs.map sorted := by
        rw [← List.forall₂_eq_eq_eq, List.forall₂_map_left_iff, List.forall₂_map_right_iff,
          List.forall₂_iff_get, List.forall₂_iff_get]
        refine and_congr_right fun _ => forall_congr' fun i => forall₂_congr fun hi hi' => ?_
        exact ih _ (List.get_mem _ _) (hb _ (List.get_mem _ _))
      rw [sorted, sorted, array.injEq, sorted_items_eq, sorted_items_eq, ← hforall]
      exact ⟨fun ⟨_, h, hitems⟩ => by cases h; exact hitems, fun h => ⟨bs, rfl, h⟩⟩
    | _ => simp [sorted]
  | @object as hnames h ih =>
    rw [alike_object]
    cases hb with
    | @object bs hnames' hb =>
      rw [sorted, sorted, object.injEq, by_name_eq_iff (by rw [sorted_names]; exact hnames)]
      constructor
      · rintro ⟨_, heq, hlength, hfields⟩
        cases heq
        -- a sublist of names without repetition, of the same length
        have hnodup : (sorted_fields as).Nodup := List.Nodup.of_map Prod.fst (by
          rw [sorted_names]
          exact hnames)
        refine (List.subperm_of_subset hnodup fun f hf => ?_).perm_of_length_le (by
          rw [sorted_fields_eq, sorted_fields_eq, List.length_map, List.length_map, hlength])
        rw [sorted_fields_eq] at hf ⊢
        obtain ⟨g, hg, rfl⟩ := List.mem_map.mp hf
        obtain ⟨v, hlookup, halike⟩ := hfields g hg
        have hmem := lookup_some hlookup
        exact List.mem_map.mpr ⟨_, hmem,
          Prod.ext rfl ((ih g hg (hb _ hmem)).mp halike).symm⟩
      · intro hperm
        refine ⟨bs, rfl, ?_, fun f hf => ?_⟩
        · have hlength := hperm.length_eq
          rw [sorted_fields_eq, sorted_fields_eq, List.length_map, List.length_map] at hlength
          exact hlength
        · have hmem : (f.1, sorted f.2) ∈ sorted_fields bs := hperm.subset (by
            rw [sorted_fields_eq]
            exact List.mem_map.mpr ⟨f, hf, rfl⟩)
          rw [sorted_fields_eq] at hmem
          obtain ⟨g, hg, heq⟩ := List.mem_map.mp hmem
          rw [Prod.mk.injEq] at heq
          refine ⟨g.2, ?_, (ih f hf (hb g hg)).mpr heq.2.symm⟩
          rw [← heq.1]
          exact lookup_mem hnames' hg
    | _ => simp [sorted]

theorem sorted_alike (hrefl : ∀ n, eqv n n = true) {a : Value ν} (h : a.Distinct) :
    alike eqv (sorted a) a = true := by
  induction h with
  | null => rfl
  | bool b => exact beq_self_eq_true b
  | number n => exact hrefl n
  | string s => exact beq_self_eq_true s
  | array h ih =>
    rw [sorted, alike_array, sorted_items_eq]
    refine ⟨_, rfl, ?_⟩
    rw [List.forall₂_map_left_iff]
    exact List.forall₂_same.mpr ih
  | object hnames h ih =>
    rw [sorted, alike_object]
    refine ⟨_, rfl, ?_, fun f hf => ?_⟩
    · rw [(by_name_perm _).length_eq, sorted_fields_eq, List.length_map]
    · have hmem := (by_name_perm _).subset hf
      rw [sorted_fields_eq] at hmem
      obtain ⟨g, hg, rfl⟩ := List.mem_map.mp hmem
      exact ⟨g.2, lookup_mem hnames hg, ih g hg⟩

end Value

end Appcall
