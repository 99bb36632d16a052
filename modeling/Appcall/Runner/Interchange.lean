/-
Numbers on the way from the control plane to the runner.

The control plane keeps the integers of a document exactly and writes its doubles with
the shortest text that reads back as the same double; the runner reads every number as a
double. Where one of two numbers is in the range of the safe integers both sides order
them alike; outside of it whole numbers may fall together.
-/
import Appcall.Connectors.Meaning
import Appcall.Runner.Strict

set_option autoImplicit false

namespace Appcall.Connectors

open Strict (Js)

/-- The text of a double is nearest to it, tells it from every other double, and is its
digits where it is a safe integer. -/
structure Ryu.ReadsBack (ryu : Ryu) : Prop where
  nearest : ∀ f g : F64,
    |(ryu.format f).value - f.value| ≤ |(ryu.format f).value - g.value|
  distinct : ∀ f g : F64, (ryu.format f).value = (ryu.format g).value → f.value = g.value
  whole : ∀ f : F64, f.is_safe_integer = true → (ryu.format f).value = f.value

theorem Ryu.exact_reads_back : Ryu.exact.ReadsBack where
  nearest f g := by
    have hvalue : (Ryu.exact.format f).value = f.value := f.expansion_value
    rw [hvalue, sub_self, abs_zero]
    exact abs_nonneg _
  distinct f g h := by
    have hf : (Ryu.exact.format f).value = f.value := f.expansion_value
    have hg : (Ryu.exact.format g).value = g.value := g.expansion_value
    rwa [hf, hg] at h
  whole f _ := f.expansion_value

theorem neg_int_lt (n : Fin (2 ^ 63)) : (n : ℕ) + 1 < 2 ^ 64 :=
  Nat.lt_of_le_of_lt n.isLt (by decide)

/-- How the runner reads a number of the control plane. -/
def Number.to_js : Number → F64
  | .pos_int n => F64.of_nat false n.toNat n.toNat_lt
  | .neg_int n => F64.of_nat true (n + 1) (neg_int_lt n)
  | .float f => f

/-- How the runner reads a document of the control plane. -/
def to_js : Value Number → Js := Value.map Number.to_js

/-- The number is no larger than the safe integers. -/
def Number.InRange (n : Number) : Prop := n.to_js.magnitude ≤ Strict.MAX_SAFE_INTEGER

/-! ## The text of a double -/

section Text

variable {ryu : Ryu} (hryu : ryu.ReadsBack) {f g : F64}

include hryu

theorem text_lt (h : f.value < g.value) : (ryu.format f).value < (ryu.format g).value := by
  have hf := hryu.nearest f g
  have hg := hryu.nearest g f
  have hne : (ryu.format f).value ≠ (ryu.format g).value := fun heq =>
    h.ne (hryu.distinct f g heq)
  -- each text lies on its own side of the middle
  have hleft : 2 * (ryu.format f).value ≤ f.value + g.value := by
    by_contra hlt
    rcases abs_cases ((ryu.format f).value - f.value) with ⟨h₁, _⟩ | ⟨h₁, _⟩ <;>
      rcases abs_cases ((ryu.format f).value - g.value) with ⟨h₂, _⟩ | ⟨h₂, _⟩ <;>
      rw [h₁, h₂] at hf <;> linarith
  have hright : f.value + g.value ≤ 2 * (ryu.format g).value := by
    by_contra hlt
    rcases abs_cases ((ryu.format g).value - f.value) with ⟨h₁, _⟩ | ⟨h₁, _⟩ <;>
      rcases abs_cases ((ryu.format g).value - g.value) with ⟨h₂, _⟩ | ⟨h₂, _⟩ <;>
      rw [h₁, h₂] at hg <;> linarith
  exact lt_of_le_of_ne (by linarith) hne

theorem text_eq (h : f.value = g.value) : (ryu.format f).value = (ryu.format g).value := by
  by_cases hzero : f.value = 0
  · have hsafe : ∀ d : F64, d.value = 0 → d.is_safe_integer = true := by
      intro d hd
      have hmagnitude : d.magnitude = 0 := by
        rw [F64.value] at hd
        split at hd <;> linarith
      rw [F64.is_safe_integer, F64.is_whole, hmagnitude]
      decide
    rw [hryu.whole f (hsafe f hzero), hryu.whole g (hsafe g (h ▸ hzero)), h]
  · have hplain : ∀ d : F64, d.value ≠ 0 → d.is_negative_zero = false := by
      intro d hd
      rw [F64.is_negative_zero, Bool.and_eq_false_iff, decide_eq_false_iff_not]
      refine .inr fun hmagnitude => hd ?_
      rw [F64.value, hmagnitude]
      split <;> norm_num
    rw [F64.eq_of_value (hplain f hzero) (hplain g (h ▸ hzero)) h]

theorem compare_text :
    compare (ryu.format f).value (ryu.format g).value = compare f.value g.value := by
  rcases lt_trichotomy f.value g.value with hlt | heq | hgt
  · rw [compare_lt_iff_lt.mpr hlt, compare_lt_iff_lt.mpr (text_lt hryu hlt)]
  · rw [compare_eq_iff_eq.mpr heq, compare_eq_iff_eq.mpr (text_eq hryu heq)]
  · rw [compare_gt_iff_gt.mpr hgt, compare_gt_iff_gt.mpr (text_lt hryu hgt)]

end Text

/-! ## Numbers in range -/

def largest_safe : F64 := F64.of_nat false 9007199254740991 (by decide)

theorem largest_safe_value : largest_safe.value = Strict.MAX_SAFE_INTEGER := by
  have hmagnitude : largest_safe.magnitude = (9007199254740991 : ℕ) :=
    F64.of_nat_small _ (by decide)
  rw [F64.value, hmagnitude]
  rfl

def opposite (f : F64) : F64 := ⟨!f.negative, f.magnitude, f.finite⟩

theorem opposite_value (f : F64) : (opposite f).value = -f.value := by
  rw [F64.value, F64.value, opposite]
  cases f.negative with
  | true => exact (neg_neg _).symm
  | false => rfl

theorem of_nat_safe {negative : Bool} {n : ℕ} (h : n < 2 ^ 64) (hn : n ≤ 9007199254740991) :
    (F64.of_nat negative n h).is_safe_integer = true := by
  rw [F64.is_safe_integer, F64.is_whole, F64.of_nat_small h (by omega), Bool.and_eq_true,
    decide_eq_true_iff, decide_eq_true_iff]
  exact ⟨Rat.den_natCast n, by exact_mod_cast hn⟩

theorem of_nat_range {negative : Bool} {n : ℕ} (h : n < 2 ^ 64) :
    (F64.of_nat negative n h).magnitude ≤ Strict.MAX_SAFE_INTEGER ↔ n ≤ 9007199254740991 := by
  by_cases hn : n < 2 ^ 53
  · rw [F64.of_nat_small h hn, Strict.MAX_SAFE_INTEGER]
    exact_mod_cast Iff.rfl
  · have hlarge := @F64.of_nat_large negative _ h (Nat.le_of_not_lt hn)
    rw [Strict.MAX_SAFE_INTEGER]
    constructor
    · intro hle
      norm_num at hlarge
      linarith
    · intro hle
      omega

section Range

variable {ryu : Ryu} (hryu : ryu.ReadsBack) {a b : Number}

include hryu

theorem value_in_range (h : a.InRange) : a.value ryu = (ryu.format a.to_js).value := by
  cases a with
  | float f => rfl
  | pos_int n =>
    have hn := (of_nat_range n.toNat_lt).mp h
    rw [Number.to_js, hryu.whole _ (of_nat_safe _ hn), F64.value, F64.of_nat_small _ (by omega)]
    exact Numeral.value_of_nat false n.toNat
  | neg_int n =>
    have hn := (of_nat_range (neg_int_lt n)).mp h
    rw [Number.to_js, hryu.whole _ (of_nat_safe _ hn), F64.value, F64.of_nat_small _ (by omega)]
    exact Numeral.value_of_nat true (n + 1)

theorem range_bounds (h : b.InRange) :
    (-Strict.MAX_SAFE_INTEGER ≤ b.to_js.value ∧ b.to_js.value ≤ Strict.MAX_SAFE_INTEGER)
      ∧ -Strict.MAX_SAFE_INTEGER ≤ b.value ryu ∧ b.value ryu ≤ Strict.MAX_SAFE_INTEGER := by
  have hnonneg := b.to_js.magnitude_nonneg
  have hdouble : -Strict.MAX_SAFE_INTEGER ≤ b.to_js.value
      ∧ b.to_js.value ≤ Strict.MAX_SAFE_INTEGER := by
    rw [Number.InRange] at h
    rw [F64.value]
    split <;> constructor <;> linarith
  have hsafe : largest_safe.is_safe_integer = true := of_nat_safe _ le_rfl
  have hsafe' : (opposite largest_safe).is_safe_integer = true := hsafe
  have hlargest := hryu.whole _ hsafe
  have hsmallest := hryu.whole _ hsafe'
  rw [opposite_value] at hsmallest
  rw [largest_safe_value] at hlargest hsmallest
  refine ⟨hdouble, ?_, ?_⟩
  · rw [value_in_range hryu h, ← hsmallest, ← compare_le_iff_le, compare_text hryu,
      compare_le_iff_le, opposite_value, largest_safe_value]
    exact hdouble.1
  · rw [value_in_range hryu h, ← hlargest, ← compare_le_iff_le, compare_text hryu,
      compare_le_iff_le, largest_safe_value]
    exact hdouble.2

omit hryu in
theorem out_of_range (h : ¬a.InRange) :
    a.value ryu = (ryu.format a.to_js).value
      ∨ (Strict.MAX_SAFE_INTEGER < a.value ryu ∧ Strict.MAX_SAFE_INTEGER < a.to_js.value)
      ∨ (a.value ryu < -Strict.MAX_SAFE_INTEGER ∧ a.to_js.value < -Strict.MAX_SAFE_INTEGER) := by
  cases a with
  | float f => exact .inl rfl
  | pos_int n =>
    have hn : ¬n.toNat ≤ 9007199254740991 := fun hn => h ((of_nat_range n.toNat_lt).mpr hn)
    have hvalue : Number.value ryu (.pos_int n) = n.toNat := Numeral.value_of_nat false n.toNat
    have hjs : (Number.pos_int n).to_js.value = (Number.pos_int n).to_js.magnitude := rfl
    refine .inr (.inl ⟨?_, ?_⟩)
    · rw [hvalue, Strict.MAX_SAFE_INTEGER]
      exact_mod_cast Nat.lt_of_not_le hn
    · rw [hjs]
      exact lt_of_not_ge h
  | neg_int n =>
    have hn : ¬(n : ℕ) + 1 ≤ 9007199254740991 := fun hn => h ((of_nat_range (neg_int_lt n)).mpr hn)
    have hvalue : Number.value ryu (.neg_int n) = -((n + 1 : ℕ) : ℚ) :=
      Numeral.value_of_nat true (n + 1)
    have hjs : (Number.neg_int n).to_js.value = -(Number.neg_int n).to_js.magnitude := rfl
    refine .inr (.inr ⟨?_, ?_⟩)
    · rw [hvalue, Strict.MAX_SAFE_INTEGER, neg_lt_neg_iff]
      exact_mod_cast Nat.lt_of_not_le hn
    · rw [hjs, neg_lt_neg_iff]
      exact lt_of_not_ge h

/-- **The order is the same on both sides** where one of the numbers is in range. -/
theorem compare_agrees (h : b.InRange) :
    compare (a.value ryu) (b.value ryu) = compare a.to_js.value b.to_js.value := by
  obtain ⟨⟨hlow, hhigh⟩, hlow', hhigh'⟩ := range_bounds hryu h
  have htext : a.value ryu = (ryu.format a.to_js).value →
      compare (a.value ryu) (b.value ryu) = compare a.to_js.value b.to_js.value := by
    intro ha
    rw [ha, value_in_range hryu h, compare_text hryu]
  by_cases ha : a.InRange
  · exact htext (value_in_range hryu ha)
  · rcases @out_of_range ryu a ha with hfloat | ⟨hgt, hgt'⟩ | ⟨hlt, hlt'⟩
    · exact htext hfloat
    · rw [compare_gt_iff_gt.mpr (lt_of_le_of_lt hhigh' hgt),
        compare_gt_iff_gt.mpr (lt_of_le_of_lt hhigh hgt')]
    · rw [compare_lt_iff_lt.mpr (lt_of_lt_of_le hlt hlow'),
        compare_lt_iff_lt.mpr (lt_of_lt_of_le hlt' hlow)]

theorem value_eq_iff (h : b.InRange) :
    a.value ryu = b.value ryu ↔ a.to_js.value = b.to_js.value := by
  rw [← compare_eq_iff_eq, compare_agrees hryu h, compare_eq_iff_eq]

end Range

end Appcall.Connectors
