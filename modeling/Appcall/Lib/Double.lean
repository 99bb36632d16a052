/-
Finite numbers in double precision.

A finite double is a sign and a rational of the form `m * 2 ^ e` with `m` below
`2 ^ 53`; zero has either sign. Its denominator is a power of two, so that it has a
finite decimal expansion.
-/
import Appcall.Lib.Numeral
import Mathlib.Algebra.Order.Field.Rat
import Mathlib.Algebra.Order.Field.Power
import Mathlib.Algebra.Order.Field.Basic
import Mathlib.Data.Nat.Prime.Pow
import Mathlib.Data.Rat.Lemmas
import Mathlib.Tactic.Linarith
import Mathlib.Tactic.NormNum
import Mathlib.Tactic.Ring

set_option autoImplicit false

namespace Appcall

/-- The magnitudes of the finite doubles. -/
def Representable (x : ℚ) : Prop :=
  ∃ m : ℕ, ∃ e : ℤ, m < 2 ^ 53 ∧ -1074 ≤ e ∧ e ≤ 971 ∧ x = m * 2 ^ e

structure F64 where
  negative : Bool
  magnitude : ℚ
  finite : Representable magnitude

namespace F64

def value (f : F64) : ℚ := if f.negative then -f.magnitude else f.magnitude

/-- `fract() == 0.0` -/
def is_whole (f : F64) : Bool := decide (f.magnitude.den = 1)

/-- `Object.is`: zero differs from negative zero. -/
def same (f g : F64) : Bool := f.negative == g.negative && decide (f.magnitude = g.magnitude)

def is_negative_zero (f : F64) : Bool := f.negative && decide (f.magnitude = 0)

def is_safe_integer (f : F64) : Bool := f.is_whole && decide (f.magnitude ≤ 9007199254740991)

theorem same_iff {f g : F64} : same f g = true ↔ f = g := by
  rw [same, Bool.and_eq_true, beq_iff_eq, decide_eq_true_iff]
  constructor
  · rintro ⟨hnegative, hmagnitude⟩
    cases f
    cases g
    cases hnegative
    cases hmagnitude
    rfl
  · rintro rfl
    exact ⟨rfl, rfl⟩

variable (f : F64) {n : ℕ}

theorem magnitude_nonneg : 0 ≤ f.magnitude := by
  obtain ⟨m, e, _, _, _, heq⟩ := f.finite
  rw [heq]
  exact mul_nonneg (Nat.cast_nonneg m) (zpow_nonneg (by norm_num) e)

theorem eq_of_value {f g : F64} (hf : f.is_negative_zero = false)
    (hg : g.is_negative_zero = false) (h : f.value = g.value) : f = g := by
  have hf0 := f.magnitude_nonneg
  have hg0 := g.magnitude_nonneg
  rw [value, value] at h
  rw [is_negative_zero] at hf hg
  rw [← same_iff, same, Bool.and_eq_true, beq_iff_eq, decide_eq_true_iff]
  cases hnf : f.negative <;> cases hng : g.negative <;> simp only [hnf, hng, if_true, if_false,
    Bool.true_and, Bool.false_and, decide_eq_false_iff_not, Bool.false_eq_true] at h hf hg
  · exact ⟨rfl, h⟩
  · exact absurd (by linarith) hg
  · exact absurd (by linarith) hf
  · exact ⟨rfl, neg_injective h⟩

/-! ## Rounding whole numbers -/

/-- The bits that do not fit into the 53 of a double. -/
def excess (n : ℕ) : ℕ := n.log2 - 52

/-- The significand, rounded half to even. -/
def significand (n : ℕ) : ℕ :=
  let m := n / 2 ^ excess n
  let rest := 2 * (n % 2 ^ excess n)
  if 2 ^ excess n < rest ∨ (rest = 2 ^ excess n ∧ m % 2 = 1) then m + 1 else m

theorem excess_le (h : n < 2 ^ 64) : excess n ≤ 11 := by
  by_cases hn : n = 0
  · rw [hn]
    decide
  · have hlog := (Nat.log2_lt hn).mpr h
    rw [excess]
    omega

theorem div_le (n : ℕ) : n / 2 ^ excess n < 2 ^ 53 := by
  refine Nat.div_lt_of_lt_mul ?_
  rw [← pow_add]
  by_cases hn : n = 0
  · rw [hn]
    exact Nat.two_pow_pos _
  · refine (Nat.log2_lt hn).mp ?_
    rw [excess]
    omega

theorem representable_significand (h : n < 2 ^ 64) :
    Representable (significand n * 2 ^ excess n) := by
  have hexcess := excess_le h
  have hm := div_le n
  have hle : significand n ≤ n / 2 ^ excess n + 1 := by
    rw [significand]
    split <;> omega
  by_cases hfull : significand n = 2 ^ 53
  · -- the carry makes one more power of two
    refine ⟨2 ^ 52, excess n + 1, by decide, by omega, by omega, ?_⟩
    rw [hfull, zpow_add₀ (by norm_num), zpow_natCast]
    push_cast
    ring
  · refine ⟨significand n, excess n, by omega, by omega, by omega, ?_⟩
    rw [zpow_natCast]

def of_nat (negative : Bool) (n : ℕ) (h : n < 2 ^ 64) : F64 where
  negative := negative
  magnitude := significand n * 2 ^ excess n
  finite := representable_significand h

theorem of_nat_small {negative : Bool} (h : n < 2 ^ 64) (hn : n < 2 ^ 53) :
    (of_nat negative n h).magnitude = n := by
  have hexcess : excess n = 0 := by
    by_cases hzero : n = 0
    · rw [hzero]
      rfl
    · have hlog := (Nat.log2_lt hzero).mpr hn
      rw [excess]
      omega
  have hsignificand : significand n = n := by
    rw [significand, hexcess, pow_zero, Nat.div_one, Nat.mod_one, if_neg (by omega)]
  change ((significand n : ℚ) * 2 ^ excess n) = n
  rw [hsignificand, hexcess, pow_zero, mul_one]

theorem of_nat_large {negative : Bool} {n : ℕ} (h : n < 2 ^ 64) (hn : 2 ^ 53 ≤ n) :
    2 ^ 53 ≤ (of_nat negative n h).magnitude := by
  have hzero : n ≠ 0 := by omega
  have hlog : 53 ≤ n.log2 := (Nat.le_log2 hzero).mpr hn
  have hexcess : n.log2 = 52 + excess n := by
    rw [excess]
    omega
  have hquotient : 2 ^ 52 ≤ n / 2 ^ excess n := by
    rw [Nat.le_div_iff_mul_le (Nat.two_pow_pos _), ← pow_add, ← hexcess]
    exact (Nat.le_log2 hzero).mp le_rfl
  have hsignificand : 2 ^ 52 ≤ significand n := by
    rw [significand]
    split <;> omega
  have hpow : 2 ^ 1 ≤ 2 ^ excess n := Nat.pow_le_pow_right (by decide) (by omega)
  have hmul : 2 ^ 53 ≤ significand n * 2 ^ excess n :=
    calc 2 ^ 53 = 2 ^ 52 * 2 ^ 1 := by norm_num
      _ ≤ significand n * 2 ^ excess n := Nat.mul_le_mul hsignificand hpow
  change (2 : ℚ) ^ 53 ≤ (significand n : ℚ) * 2 ^ excess n
  exact_mod_cast hmul

/-! ## The exact expansion -/

theorem magnitude_lt : f.magnitude < 10 ^ 309 := by
  obtain ⟨m, e, hm, _, he, heq⟩ := f.finite
  have hpow : (2 : ℚ) ^ e ≤ 2 ^ (971 : ℤ) := zpow_le_zpow_right₀ (by norm_num) he
  have hm' : (m : ℚ) ≤ 2 ^ 53 := by exact_mod_cast hm.le
  have hlt : (2 : ℕ) ^ 1024 < 10 ^ 309 := by decide +kernel
  calc f.magnitude = m * 2 ^ e := heq
    _ ≤ 2 ^ 53 * 2 ^ (971 : ℤ) := mul_le_mul hm' hpow (zpow_nonneg (by norm_num) e) (by norm_num)
    _ = 2 ^ 1024 := (pow_add 2 53 971).symm
    _ < 10 ^ 309 := by exact_mod_cast hlt

theorem den_scaled {m k : ℕ} {e : ℤ} (he : -(k : ℤ) ≤ e) : ((m : ℚ) * 2 ^ e).den ∣ 2 ^ k := by
  have hscaled : (m : ℚ) * 2 ^ e
      = Rat.divInt ((m * 2 ^ (e + k).toNat : ℕ) : ℤ) ((2 ^ k : ℕ) : ℤ) := by
    have hexp : ((e + k).toNat : ℤ) = e + k := Int.toNat_of_nonneg (by omega)
    have hpow : (2 : ℚ) ^ k ≠ 0 := pow_ne_zero _ (by norm_num)
    rw [Rat.divInt_eq_div]
    push_cast
    rw [eq_div_iff hpow, mul_assoc, ← zpow_natCast 2 (e + k).toNat, hexp,
      zpow_add₀ (by norm_num), zpow_natCast]
  rw [hscaled]
  exact Int.natCast_dvd_natCast.mp (Rat.den_dvd _ _)

theorem den_eq : ∃ k ≤ 1074, f.magnitude.den = 2 ^ k := by
  obtain ⟨m, e, _, he, _, heq⟩ := f.finite
  rw [heq]
  exact (Nat.dvd_prime_pow Nat.prime_two).mp (den_scaled he)

/-- The number of places after the point. -/
def places (f : F64) : ℕ := f.magnitude.den.log2

theorem places_le : f.places ≤ 1074 := by
  obtain ⟨k, hk, hden⟩ := f.den_eq
  rw [places, hden, Nat.log2_two_pow]
  exact hk

def unscaled (f : F64) : ℕ := f.magnitude.num.toNat * 5 ^ f.places

theorem magnitude_eq : f.magnitude = f.unscaled / 10 ^ f.places := by
  obtain ⟨k, _, hden⟩ := f.den_eq
  have hplaces : f.places = k := by rw [places, hden, Nat.log2_two_pow]
  have hnum : ((f.magnitude.num.toNat : ℕ) : ℚ) = f.magnitude.num := by
    have htoNat : ((f.magnitude.num.toNat : ℕ) : ℤ) = f.magnitude.num :=
      Int.toNat_of_nonneg (Rat.num_nonneg.mpr f.magnitude_nonneg)
    exact_mod_cast congrArg (Int.cast (R := ℚ)) htoNat
  have hfive : (5 : ℚ) ^ k ≠ 0 := pow_ne_zero _ (by norm_num)
  have hten : (10 : ℚ) ^ k = 2 ^ k * 5 ^ k := by
    rw [← mul_pow]
    norm_num
  conv_lhs => rw [← Rat.num_div_den f.magnitude, hden]
  rw [unscaled, hplaces, hten]
  push_cast
  rw [hnum, mul_div_mul_right _ _ hfive]

/-- The digits of a number below `10 ^ width`, with zeros in front. -/
def pad (width n : ℕ) : List Char :=
  List.replicate (width - (Decimal.write n).length) '0' ++ Decimal.write n

theorem digits_pad (width n : ℕ) : Decimal.Digits (pad width n) := by
  rw [pad, Decimal.digits_append]
  refine ⟨fun c hc => ?_, fun c hc => (Decimal.mem_write hc).1⟩
  rw [List.eq_of_mem_replicate hc]
  decide

theorem nat_pad (width n : ℕ) : Decimal.nat (pad width n) = n := by
  rw [pad, Decimal.nat_append, Decimal.nat_replicate, Nat.zero_mul, Nat.zero_add,
    Numeral.nat_write]

theorem length_pad {width : ℕ} (h : n < 10 ^ width) (hwidth : 0 < width) :
    (pad width n).length = width := by
  have hlength := Decimal.length_write h hwidth
  rw [pad, List.length_append, List.length_replicate]
  omega

def expansion (f : F64) : Numeral where
  negative := f.negative
  whole := Decimal.write (f.unscaled / 10 ^ f.places)
  fraction := some (pad (max 1 f.places) (f.unscaled % 10 ^ f.places))
  exponent := none
  whole_ne := Decimal.write_ne_nil _
  whole_digits _ h := (Decimal.mem_write h).1
  fraction_digits _ h := Option.some.inj h ▸ digits_pad _ _
  exponent_digits := Numeral.no_exponent

theorem fraction_lt : f.unscaled % 10 ^ f.places < 10 ^ max 1 f.places := by
  have hmod : f.unscaled % 10 ^ f.places < 10 ^ f.places := Nat.mod_lt _ (by positivity)
  exact hmod.trans_le (Nat.pow_le_pow_right (by decide) (Nat.le_max_right 1 _))

theorem expansion_length : f.expansion.text.length ≤ 2000 := by
  have hwhole : (f.expansion.whole).length ≤ 309 := by
    refine Decimal.length_write ?_ (by decide)
    have hlt := f.magnitude_lt
    rw [magnitude_eq, div_lt_iff₀ (by positivity)] at hlt
    exact Nat.div_lt_of_lt_mul (by rw [Nat.mul_comm]; exact_mod_cast hlt)
  have hfraction := length_pad f.fraction_lt (Nat.lt_of_lt_of_le Nat.one_pos (Nat.le_max_left _ _))
  have hplaces := f.places_le
  have hsign : (Numeral.sign f.negative).length ≤ 1 := by
    cases f.negative with
    | true => decide
    | false => decide
  rw [Numeral.text, Numeral.unsigned, Numeral.mantissa]
  change (Numeral.sign f.negative ++ ((f.expansion.whole ++ '.' :: pad _ _) ++ [])).length ≤ 2000
  rw [List.append_nil, List.length_append, List.length_append, List.length_cons, hfraction]
  omega

theorem expansion_value : f.expansion.value = f.value := by
  have hlength := length_pad f.fraction_lt (Nat.lt_of_lt_of_le Nat.one_pos (Nat.le_max_left _ _))
  have hscale : f.expansion.scale = -(max 1 f.places : ℕ) := by
    rw [Numeral.scale]
    change (0 : ℤ) - ((pad _ _).length : ℤ) = _
    rw [hlength]
    omega
  have hdigits : Decimal.nat f.expansion.digits
      = f.unscaled / 10 ^ f.places * 10 ^ (max 1 f.places) + f.unscaled % 10 ^ f.places := by
    rw [Numeral.digits, Decimal.nat_append]
    change Decimal.nat (Decimal.write _) * 10 ^ (pad _ _).length + Decimal.nat (pad _ _) = _
    rw [hlength, Numeral.nat_write, nat_pad]
  have hvalue : (Decimal.nat f.expansion.digits : ℚ) * 10 ^ f.expansion.scale = f.magnitude := by
    rw [hdigits, hscale, magnitude_eq]
    by_cases hplaces : f.places = 0
    · rw [hplaces, pow_zero, Nat.mod_one]
      norm_num [mul_assoc]
    · have hmax : max 1 f.places = f.places := Nat.max_eq_right (by omega)
      rw [hmax, Nat.div_add_mod', zpow_neg, zpow_natCast]
      rfl
  rw [Numeral.value, scaled, hvalue, value]
  change (if f.negative then (-1 : ℚ) else 1) * f.magnitude = _
  split
  · ring
  · ring

end F64

end Appcall
