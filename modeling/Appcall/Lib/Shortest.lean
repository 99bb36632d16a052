/-
The double nearest to a number, and the shortest decimal that reads back as a double.

Halves are rounded to the even of the two neighbours. The printer tries the decimals of one
digit, of two, and so on, the two on either side of the double; the first that is nearest to
the double is its text.
-/
import Appcall.Lib.Double
import Mathlib.Data.Int.Log
import Mathlib.Data.Rat.Floor

set_option autoImplicit false

namespace Appcall

namespace F64

/-! ## Rounding -/

/-- The whole number nearest to `y`, the even one of two. -/
def round_even (y : ℚ) : ℕ :=
  let n := ⌊y⌋₊
  if y - n < 1 / 2 ∨ (y - n = 1 / 2 ∧ n % 2 = 0) then n else n + 1

/-- The exponent of the last place of the doubles about `x`. -/
def last_place (x : ℚ) : ℤ := max (-1074) (Int.log 2 x - 52)

/-- The double nearest to a magnitude, were there no largest one. -/
def nearest (x : ℚ) : ℚ := round_even (x / 2 ^ last_place x) * 2 ^ last_place x

theorem round_even_nat (n : ℕ) : round_even n = n := by
  rw [round_even, Nat.floor_natCast, sub_self, if_pos (.inl (by norm_num))]

theorem round_even_le (y : ℚ) : round_even y ≤ ⌊y⌋₊ + 1 := by
  rw [round_even]
  split <;> omega

theorem le_round_even (y : ℚ) : ⌊y⌋₊ ≤ round_even y := by
  rw [round_even]
  split <;> omega

theorem nearest_self {x : ℚ} (h : Representable x) : nearest x = x := by
  obtain ⟨m, e, hm, hlow, hhigh, rfl⟩ := h
  by_cases hzero : m = 0
  · subst hzero
    rw [nearest, Nat.cast_zero, zero_mul, zero_div, ← Nat.cast_zero, round_even_nat,
      Nat.cast_zero, zero_mul]
  · -- the last place is no higher than the exponent
    have hlog : Int.log 2 ((m : ℚ) * 2 ^ e) < 53 + e := by
      have hpos : 0 < (m : ℚ) * 2 ^ e := by positivity
      rw [← Int.lt_zpow_iff_log_lt (by decide) hpos, zpow_add₀ (by norm_num)]
      have hcast : (m : ℚ) < 2 ^ (53 : ℤ) := by exact_mod_cast hm
      exact mul_lt_mul_of_pos_right (by exact_mod_cast hcast) (by positivity)
    have hplace : last_place ((m : ℚ) * 2 ^ e) ≤ e := by
      rw [last_place]
      omega
    obtain ⟨k, hk⟩ := Int.le.dest hplace
    have hdiv : (m : ℚ) * 2 ^ e / 2 ^ last_place ((m : ℚ) * 2 ^ e) = (m * 2 ^ k : ℕ) := by
      rw [mul_div_assoc, ← zpow_sub₀ (by norm_num), show e - last_place _ = k by omega,
        zpow_natCast]
      push_cast
      rfl
    rw [nearest, hdiv, round_even_nat, ← hdiv, div_mul_cancel₀ _ (by positivity)]

theorem floor_lt (x : ℚ) (hx : 0 ≤ x) : ⌊x / 2 ^ last_place x⌋₊ < 2 ^ 53 := by
  have hpos : (0 : ℚ) < 2 ^ last_place x := by positivity
  rw [Nat.floor_lt (by positivity), Nat.cast_pow, Nat.cast_ofNat, div_lt_iff₀ hpos,
    ← zpow_natCast, ← zpow_add₀ (by norm_num)]
  refine (Int.lt_zpow_succ_log_self (b := 2) (by decide) x).trans_le ?_
  refine zpow_le_zpow_right₀ (by norm_num) ?_
  rw [last_place]
  omega

theorem le_floor {x : ℚ} (hx : 0 ≤ x) (h : 0 < last_place x) :
    2 ^ 52 ≤ ⌊x / 2 ^ last_place x⌋₊ := by
  have hlog : Int.log 2 x = last_place x + 52 := by
    rw [last_place] at h ⊢
    omega
  have hpos : 0 < x := by
    refine lt_of_le_of_ne hx fun hzero => ?_
    rw [← hzero, last_place, Int.log_zero_right] at h
    omega
  have hle := Int.zpow_log_le_self (b := 2) (by decide) hpos
  refine Nat.le_floor ?_
  rw [le_div_iff₀ (by positivity)]
  refine le_trans (le_of_eq ?_) hle
  rw [hlog, zpow_add₀ (by norm_num)]
  push_cast
  ring

theorem representable_nearest {x : ℚ} (hx : 0 ≤ x) (h : nearest x < 2 ^ (1024 : ℤ)) :
    Representable (nearest x) := by
  have hfloor := floor_lt x hx
  have hround := round_even_le (x / 2 ^ last_place x)
  have hround' := le_round_even (x / 2 ^ last_place x)
  have hnormal := le_floor hx
  rw [nearest] at h ⊢
  have hlow : -1074 ≤ last_place x := le_max_left _ _
  generalize last_place x = e at *
  generalize round_even (x / 2 ^ e) = m at *
  -- an exponent that is too high makes the number too large
  have hhigh : 2 ^ 52 ≤ m → e < 972 := by
    intro hle
    by_contra hge
    have hcast : (2 : ℚ) ^ (52 : ℤ) ≤ m := by exact_mod_cast hle
    have hmul : (2 : ℚ) ^ (52 : ℤ) * 2 ^ (972 : ℤ) ≤ m * 2 ^ e :=
      mul_le_mul hcast (zpow_le_zpow_right₀ (by norm_num) (by omega))
        (zpow_nonneg (by norm_num) _) (Nat.cast_nonneg m)
    rw [← zpow_add₀ (by norm_num), show (52 : ℤ) + 972 = 1024 by norm_num] at hmul
    exact (hmul.trans_lt h).false
  by_cases hcarry : m = 2 ^ 53
  · have hlt : e ≠ 971 := by
      intro heq
      rw [hcarry, heq, Nat.cast_pow, Nat.cast_ofNat, ← zpow_natCast,
        ← zpow_add₀ (by norm_num), show ((53 : ℕ) : ℤ) + 971 = 1024 by norm_num] at h
      exact lt_irrefl _ h
    refine ⟨2 ^ 52, e + 1, by norm_num, by omega, by omega, ?_⟩
    rw [hcarry, zpow_add₀ (by norm_num)]
    push_cast
    ring
  · refine ⟨m, e, by omega, hlow, ?_, rfl⟩
    by_contra hge
    have := hnormal (by omega)
    omega

/-- The double that a numeral is read as: none if it is out of range. -/
def read (n : Numeral) : Option F64 :=
  if h : nearest |n.value| < 2 ^ (1024 : ℤ) then
    some ⟨n.negative, nearest |n.value|, representable_nearest (abs_nonneg _) h⟩
  else none

/-! ## Printing -/

/-- The decimals with `k` digits on either side of `x`, the nearer one first: digits, and the
exponent of the last one. -/
def candidates (x : ℚ) (k : ℕ) : List (ℕ × ℤ) :=
  let e := Int.log 10 x + 1 - k
  let y := x / 10 ^ e
  let low := ⌊y⌋₊
  if round_even y = low then [(low, e), (low + 1, e)] else [(low + 1, e), (low, e)]

/-- The shortest decimal that is nearest to a double. Seventeen digits are always enough. -/
def shortest (f : F64) : ℕ × ℤ :=
  (((List.range' 1 17).flatMap (candidates f.magnitude)).find?
    (fun d => decide (nearest (d.1 * 10 ^ d.2) = f.magnitude))).getD (f.unscaled, -f.places)

variable (f : F64)

theorem magnitude_lt_two : f.magnitude < 2 ^ (1024 : ℤ) := by
  obtain ⟨m, e, hm, -, he, heq⟩ := f.finite
  have hpow : (2 : ℚ) ^ e ≤ 2 ^ (971 : ℤ) := zpow_le_zpow_right₀ (by norm_num) he
  have hm' : (m : ℚ) < 2 ^ (53 : ℤ) := by exact_mod_cast hm
  have hpos : (0 : ℚ) < 2 ^ (971 : ℤ) := zpow_pos (by norm_num) _
  calc f.magnitude = m * 2 ^ e := heq
    _ ≤ m * 2 ^ (971 : ℤ) := mul_le_mul_of_nonneg_left hpow (Nat.cast_nonneg m)
    _ < 2 ^ (53 : ℤ) * 2 ^ (971 : ℤ) := mul_lt_mul_of_pos_right hm' hpos
    _ = 2 ^ (1024 : ℤ) := (zpow_add₀ (by norm_num) 53 971).symm

/-- **The shortest decimal is nearest to the double.** -/
theorem nearest_shortest : nearest (f.shortest.1 * 10 ^ f.shortest.2) = f.magnitude := by
  rw [shortest]
  cases h : ((List.range' 1 17).flatMap (candidates f.magnitude)).find?
      (fun d => decide (nearest (d.1 * 10 ^ d.2) = f.magnitude)) with
  | some d => exact of_decide_eq_true (List.find?_some (p := fun d : ℕ × ℤ =>
      decide (nearest (d.1 * 10 ^ d.2) = f.magnitude)) h)
  | none =>
    rw [Option.getD_none, zpow_neg, zpow_natCast, ← div_eq_mul_inv, ← magnitude_eq]
    exact nearest_self f.finite

/-- The digits and the exponent of a shortest decimal are few. -/
structure Few (d : ℕ × ℤ) : Prop where
  digits : (Decimal.write d.1).length ≤ 1400
  low : -1100 ≤ d.2
  high : d.2 ≤ 310

theorem le_log (hzero : f.magnitude ≠ 0) : -1074 ≤ Int.log 10 f.magnitude := by
  have hpos : 0 < f.magnitude := lt_of_le_of_ne f.magnitude_nonneg (Ne.symm hzero)
  rw [← Int.zpow_le_iff_le_log (by decide) hpos]
  obtain ⟨m, e, -, he, -, heq⟩ := f.finite
  have hm : (1 : ℚ) ≤ m := by
    rcases Nat.eq_zero_or_pos m with rfl | hm
    · rw [heq, Nat.cast_zero, zero_mul] at hpos
      exact absurd hpos (lt_irrefl _)
    · exact_mod_cast hm
  rw [Nat.cast_ofNat]
  calc (10 : ℚ) ^ (-1074 : ℤ) ≤ 2 ^ (-1074 : ℤ) := by
        rw [zpow_neg, zpow_neg]
        exact inv_anti₀ (zpow_pos (by norm_num) _)
          (zpow_le_zpow_left₀ (by norm_num) (by norm_num) (by norm_num))
    _ ≤ 2 ^ e := zpow_le_zpow_right₀ (by norm_num) he
    _ ≤ m * 2 ^ e := le_mul_of_one_le_left (zpow_nonneg (by norm_num) _) hm
    _ = f.magnitude := heq.symm

theorem few_candidates {f : F64} (hzero : f.magnitude ≠ 0) {k : ℕ} (hk : k ≤ 17) {d : ℕ × ℤ}
    (hd : d ∈ candidates f.magnitude k) : Few d := by
  have hpos : 0 < f.magnitude := lt_of_le_of_ne f.magnitude_nonneg (Ne.symm hzero)
  have hlow := f.le_log hzero
  have hhigh : Int.log 10 f.magnitude < 309 := by
    rw [← Int.lt_zpow_iff_log_lt (by decide) hpos]
    exact_mod_cast f.magnitude_lt
  have hfloor : ⌊f.magnitude / 10 ^ (Int.log 10 f.magnitude + 1 - k)⌋₊ < 10 ^ k := by
    have hlt := Int.lt_zpow_succ_log_self (b := 10) (by decide) f.magnitude
    rw [Nat.floor_lt (by positivity), div_lt_iff₀ (by positivity)]
    refine hlt.trans_le (le_of_eq ?_)
    rw [Nat.cast_pow, ← zpow_natCast, Nat.cast_ofNat, ← zpow_add₀ (by norm_num)]
    congr 1
    omega
  have hpow : (10 : ℕ) ^ k ≤ 10 ^ 17 := Nat.pow_le_pow_right (by decide) hk
  have hcases : d.1 ≤ ⌊f.magnitude / 10 ^ (Int.log 10 f.magnitude + 1 - k)⌋₊ + 1
      ∧ d.2 = Int.log 10 f.magnitude + 1 - k := by
    rw [candidates] at hd
    split at hd
    · rcases List.mem_pair.mp hd with rfl | rfl
      · exact ⟨Nat.le_succ _, rfl⟩
      · exact ⟨le_rfl, rfl⟩
    · rcases List.mem_pair.mp hd with rfl | rfl
      · exact ⟨le_rfl, rfl⟩
      · exact ⟨Nat.le_succ _, rfl⟩
  obtain ⟨hdigits, hexponent⟩ := hcases
  have hlength := Decimal.length_write (n := d.1) (k := 18) (by omega) (by decide)
  exact ⟨by omega, by omega, by omega⟩

theorem few_shortest (hzero : f.magnitude ≠ 0) : Few f.shortest := by
  rw [shortest]
  cases h : ((List.range' 1 17).flatMap (candidates f.magnitude)).find?
      (fun d => decide (nearest (d.1 * 10 ^ d.2) = f.magnitude)) with
  | some d =>
    obtain ⟨k, hk, hd⟩ := List.mem_flatMap.mp (List.mem_of_find?_eq_some h)
    rw [List.mem_range'_1] at hk
    exact few_candidates hzero (by omega) hd
  | none =>
    have hplaces := f.places_le
    have hlt : f.unscaled < 10 ^ (309 + f.places) := by
      have hlt := f.magnitude_lt
      rw [magnitude_eq, div_lt_iff₀ (by positivity), ← pow_add] at hlt
      exact_mod_cast hlt
    have hlength := Decimal.length_write hlt (by omega)
    refine ⟨hlength.trans (by omega), ?_, ?_⟩
    · change -1100 ≤ -(f.places : ℤ)
      omega
    · change -(f.places : ℤ) ≤ 310
      omega

theorem read_eq {f : F64} {n : Numeral} (hsign : n.negative = f.negative)
    (hnearest : nearest |n.value| = f.magnitude) : read n = some f := by
  have hlt : nearest |n.value| < 2 ^ (1024 : ℤ) := by
    rw [hnearest]
    exact f.magnitude_lt_two
  rw [read, dif_pos hlt, Option.some.injEq, ← same_iff, same, hsign, beq_self_eq_true,
    Bool.true_and, decide_eq_true_iff]
  exact hnearest

end F64

/-! ## Texts of a decimal -/

namespace Numeral

open Decimal (Digits nat write)

variable {digits : List Char}

/-- Digits without an exponent, the first `point` of them before the point. -/
def positional (negative : Bool) (digits : List Char) (point : ℤ) (hne : digits ≠ [])
    (hdigits : Digits digits) : Numeral where
  negative := negative
  whole :=
    if point ≤ 0 then ['0']
    else if point.toNat < digits.length then digits.take point.toNat
    else digits ++ List.replicate (point.toNat - digits.length) '0'
  fraction :=
    if point ≤ 0 then some (List.replicate (-point).toNat '0' ++ digits)
    else if point.toNat < digits.length then some (digits.drop point.toNat)
    else none
  exponent := none
  whole_ne := by
    split_ifs with hlow hinside
    · decide
    · rw [Ne, List.take_eq_nil_iff]
      rintro (h | h)
      · omega
      · exact hne h
    · exact List.append_ne_nil_of_left_ne_nil hne _
  whole_digits := by
    split_ifs with hlow hinside
    · exact Decimal.digits_cons.mpr ⟨rfl, Digits.nil⟩
    · exact fun c hc => hdigits c (List.mem_of_mem_take hc)
    · exact Decimal.digits_append.mpr ⟨hdigits, fun c hc => List.eq_of_mem_replicate hc ▸ rfl⟩
  fraction_digits := by
    intro f hf
    split_ifs at hf with hlow hinside
    · cases hf
      exact Decimal.digits_append.mpr ⟨fun c hc => List.eq_of_mem_replicate hc ▸ rfl, hdigits⟩
    · cases hf
      exact fun c hc => hdigits c (List.mem_of_mem_drop hc)
  exponent_digits := no_exponent

variable (negative : Bool)

theorem positional_value (point : ℤ) (hne : digits ≠ []) (hdigits : Digits digits) :
    (positional negative digits point hne hdigits).value
      = scaled negative (nat digits) (point - digits.length) := by
  rw [value, scale, Numeral.digits, positional]
  dsimp only
  split_ifs with hlow hinside
  · -- zeros in front of the digits
    rw [Option.getD_some, List.length_append, List.length_replicate, Decimal.nat_append,
      Decimal.nat_append, Decimal.nat_replicate, Decimal.nat_singleton]
    have hzero : Decimal.value '0' = 0 := rfl
    rw [hzero, Nat.zero_mul, Nat.zero_mul, Nat.zero_add, Nat.zero_add]
    congr 1
    omega
  · rw [Option.getD_some, List.take_append_drop, List.length_drop]
    congr 1
    omega
  · -- zeros behind them
    rw [Option.getD_none, List.append_nil, Decimal.nat_append, Decimal.nat_replicate,
      List.length_replicate, Nat.add_zero, scaled_mul, List.length_nil]
    congr 1
    omega

theorem positional_length (point : ℤ) (hne : digits ≠ []) (hdigits : Digits digits) :
    (positional negative digits point hne hdigits).unsigned.length
      ≤ digits.length + point.natAbs + 2 := by
  rw [unsigned, mantissa, positional]
  dsimp only
  split_ifs with hlow hinside
  · simp only [List.append_nil, List.length_append, List.length_cons, List.length_nil,
      List.length_replicate]
    omega
  · simp only [List.append_nil, List.length_append, List.length_cons, List.length_take,
      List.length_drop]
    omega
  · simp only [List.append_nil, List.length_append, List.length_replicate]
    omega

/-- A digit, the other ones behind a point, and an exponent. -/
def scientific (negative : Bool) (c : Char) (rest : List Char) (exponent : ℤ)
    (hdigits : Digits (c :: rest)) : Numeral where
  negative := negative
  whole := [c]
  fraction := if rest = [] then none else some rest
  exponent := some (decide (exponent < 0), write exponent.natAbs)
  whole_ne := List.cons_ne_nil _ _
  whole_digits := fun d hd => hdigits d (List.mem_cons.mpr (.inl (List.mem_singleton.mp hd)))
  fraction_digits := by
    intro f hf
    split_ifs at hf
    cases hf
    exact (Decimal.digits_cons.mp hdigits).2
  exponent_digits := by
    rintro s e h
    cases h
    exact ⟨Decimal.write_ne_nil _, fun c hc => (Decimal.mem_write hc).1⟩

theorem scientific_value (c : Char) (rest : List Char) (exponent : ℤ)
    (hdigits : Digits (c :: rest)) :
    (scientific negative c rest exponent hdigits).value
      = scaled negative (nat (c :: rest)) (exponent - rest.length) := by
  rw [value, scale, Numeral.digits, scientific]
  dsimp only
  have hexponent : (if decide (exponent < 0) = true then -(nat (write exponent.natAbs) : ℤ)
      else nat (write exponent.natAbs)) = exponent := by
    rw [nat_write]
    by_cases h : exponent < 0
    · rw [if_pos (decide_eq_true h)]
      omega
    · rw [if_neg (by rw [decide_eq_true_iff]; exact h)]
      omega
  rw [hexponent]
  by_cases h : rest = []
  · rw [if_pos h, h]
    rfl
  · rw [if_neg h]
    rfl

end Numeral

namespace F64

open Decimal (Digits nat write)

/-- The digits of a double, without zeros at the end, and the place of its point. -/
def key (f : F64) : Key := Key.of f.negative (write f.shortest.1) f.shortest.2

variable (f : F64)

theorem digits_key : f.key.digits ≠ [] ∧ Digits f.key.digits := by
  have hwrite : Digits (write f.shortest.1) := fun c hc => (Decimal.mem_write hc).1
  rcases Key.normal_of hwrite f.negative f.shortest.2 with h | h
  · rw [key, h]
    exact ⟨List.cons_ne_nil _ _, Decimal.digits_cons.mpr ⟨rfl, Digits.nil⟩⟩
  · exact ⟨h.ne_nil, h.digits⟩

/-- `{}`: the digits of the shortest decimal, without an exponent. -/
def to_string (f : F64) : Numeral :=
  .positional f.negative f.key.digits f.key.magnitude f.digits_key.1 f.digits_key.2

theorem key_value : f.key.value = scaled f.negative f.shortest.1 f.shortest.2 := by
  rw [key, Key.value_of, Numeral.nat_write]

theorem key_sign : f.key.value = scaled f.negative (nat f.key.digits) f.key.exponent := by
  rw [key, Key.of]
  split_ifs
  · exact (scaled_zero _ _).trans (scaled_zero _ _).symm
  · rfl

theorem value_to_string : f.to_string.value = f.key.value := by
  rw [to_string, Numeral.positional_value, key_sign, Key.magnitude]
  congr 1
  omega

theorem abs_scaled (negative : Bool) (n : ℕ) (e : ℤ) : |scaled negative n e| = n * 10 ^ e := by
  have hnonneg : 0 ≤ (n : ℚ) * 10 ^ e := by positivity
  rw [scaled, abs_mul, abs_of_nonneg hnonneg]
  cases negative with
  | true => rw [if_pos rfl, abs_neg, abs_one, one_mul]
  | false => rw [if_neg (by decide), abs_one, one_mul]

/-- **A numeral of the shortest decimal, with the sign of the double, is read as it.** -/
theorem read_of_key {f : F64} {n : Numeral} (hsign : n.negative = f.negative)
    (hvalue : |n.value| = |f.key.value|) : read n = some f := by
  refine read_eq hsign ?_
  rw [hvalue, key_value, abs_scaled]
  exact nearest_shortest f

theorem key_proper {f : F64} (hzero : f.magnitude ≠ 0) : f.key.Proper := by
  have hwrite : Digits (write f.shortest.1) := fun c hc => (Decimal.mem_write hc).1
  refine (Key.normal_of hwrite f.negative f.shortest.2).resolve_left fun h => hzero ?_
  have hvalue := f.key_value
  rw [key, h, Key.value_zero, eq_comm, ← abs_eq_zero, abs_scaled] at hvalue
  rw [← nearest_shortest f, hvalue]
  exact nearest_self ⟨0, 0, by decide, by decide, by decide, by norm_num⟩

theorem key_to_string : f.to_string.key = f.key := by
  have hwrite : Digits (write f.shortest.1) := fun c hc => (Decimal.mem_write hc).1
  have hnormal : f.key.Normal := Key.normal_of hwrite f.negative f.shortest.2
  rw [f.to_string.key_normal.eq_iff hnormal, Numeral.key_value, value_to_string]

theorem trim_to_string {f : F64} (hzero : f.magnitude ≠ 0) :
    Decimal.trim_start f.to_string.digits ≠ [] := by
  intro h
  have hkey := f.key_to_string
  rw [Numeral.key, Key.of, if_pos h] at hkey
  exact (key_proper hzero).head [] (hkey ▸ rfl)

theorem to_string_length {f : F64} (hzero : f.magnitude ≠ 0) :
    f.to_string.unsigned.length ≤ 10000 ∧ f.key.magnitude.natAbs ≤ 5000 := by
  obtain ⟨hdigits, hlow, hhigh⟩ := few_shortest f hzero
  have hkey : f.key.digits.length ≤ 1401 ∧ f.key.magnitude.natAbs ≤ 5000 := by
    rw [key, Key.of]
    have hstart := (List.dropWhile_sublist (· == '0') (l := write f.shortest.1)).length_le
    have hend := congrArg List.length
      (Decimal.trim_end_append (Decimal.trim_start (write f.shortest.1)))
    rw [List.length_append] at hend
    change (Decimal.trim_start (write f.shortest.1)).length ≤ _ at hstart
    split_ifs
    · exact ⟨by decide, by decide⟩
    · rw [Key.magnitude]
      dsimp only
      omega
  have hlength := Numeral.positional_length f.negative f.key.magnitude f.digits_key.1
    f.digits_key.2
  rw [to_string]
  omega

end F64

end Appcall
