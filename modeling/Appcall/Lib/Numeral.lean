/-
Numbers in decimal notation: a sign, digits, a fraction and an exponent.

A numeral denotes a rational. Its key is the sign, the digits without the zeros at
either end, and the exponent of the last digit; numerals of the same value have the
same key (`Key.eq_iff`), and keys are compared as their values by the place of the first
digit and then digit by digit (`Key.cmp_eq`).
-/
import Appcall.Lib.Decimal
import Mathlib.Algebra.Order.Field.Rat
import Mathlib.Algebra.Order.Field.Power
import Mathlib.Data.List.TakeWhile
import Mathlib.Order.Compare
import Mathlib.Tactic.FieldSimp
import Mathlib.Tactic.Linarith
import Mathlib.Tactic.NormNum
import Mathlib.Tactic.Positivity
import Mathlib.Tactic.Ring

set_option autoImplicit false

namespace Appcall.Decimal

/-! ## Digits -/

def nat (l : List Char) : ℕ := l.foldl (fun n c => 10 * n + value c) 0

def Digits (l : List Char) : Prop := ∀ c ∈ l, c.isDigit = true

variable {l l' : List Char} {c : Char}

theorem Digits.nil : Digits [] := fun _ h => nomatch h

theorem digits_cons : Digits (c :: l) ↔ c.isDigit = true ∧ Digits l := List.forall_mem_cons

theorem digits_append : Digits (l ++ l') ↔ Digits l ∧ Digits l' := List.forall_mem_append

theorem value_lt (h : c.isDigit = true) : value c < 10 := by
  rw [Char.isDigit, Bool.and_eq_true, decide_eq_true_iff, decide_eq_true_iff] at h
  have hle : c.toNat ≤ 57 := h.2
  rw [value]
  omega

theorem value_inj {d : Char} (h : c.isDigit = true) (h' : d.isDigit = true)
    (hvalue : value c = value d) : c = d := by
  rw [Char.isDigit, Bool.and_eq_true, decide_eq_true_iff, decide_eq_true_iff] at h h'
  have hc : 48 ≤ c.toNat := h.1
  have hd : 48 ≤ d.toNat := h'.1
  rw [value, value] at hvalue
  exact Char.toNat_inj.mp (by omega)

theorem value_eq_zero (h : c.isDigit = true) : value c = 0 ↔ c = '0' := by
  refine ⟨fun hvalue => value_inj h (by decide) hvalue, fun hc => ?_⟩
  rw [hc]
  rfl

theorem nat_foldl (l : List Char) (n : ℕ) :
    l.foldl (fun n c => 10 * n + value c) n = n * 10 ^ l.length + nat l := by
  induction l generalizing n with
  | nil => simp [nat]
  | cons c l ih =>
    rw [nat, List.foldl_cons, List.foldl_cons, ih, ih (10 * 0 + value c), List.length_cons]
    ring

theorem nat_append (l l' : List Char) : nat (l ++ l') = nat l * 10 ^ l'.length + nat l' := by
  rw [nat, List.foldl_append, nat_foldl]
  rfl

theorem nat_singleton (c : Char) : nat [c] = value c := by
  rw [nat, List.foldl_cons, List.foldl_nil, Nat.mul_zero, Nat.zero_add]

theorem nat_cons (c : Char) (l : List Char) :
    nat (c :: l) = value c * 10 ^ l.length + nat l := by
  rw [← List.singleton_append, nat_append, nat_singleton]

theorem nat_replicate (n : ℕ) : nat (List.replicate n '0') = 0 := by
  induction n with
  | zero => rfl
  | succ n ih =>
    rw [List.replicate_succ, nat_cons, ih]
    exact Nat.zero_mul _

theorem nat_lt (h : Digits l) : nat l < 10 ^ l.length := by
  induction l with
  | nil => decide
  | cons c l ih =>
    rw [digits_cons] at h
    have hc := value_lt h.1
    have hl := ih h.2
    rw [nat_cons, List.length_cons, Nat.pow_succ]
    nlinarith

theorem le_nat (h : Digits (c :: l)) (hc : c ≠ '0') : 10 ^ l.length ≤ nat (c :: l) := by
  have hpos : value c ≠ 0 := fun hzero => hc ((value_eq_zero (digits_cons.mp h).1).mp hzero)
  rw [nat_cons]
  have hone := Nat.one_le_iff_ne_zero.mpr hpos
  nlinarith [Nat.one_le_pow l.length 10 (by decide)]

theorem compareLex_eq (h : Digits l) (h' : Digits l') (hlength : l.length = l'.length) :
    List.compareLex (fun c d => compare c.toNat d.toNat) l l' = compare (nat l) (nat l') := by
  induction l generalizing l' with
  | nil =>
    rw [List.length_nil, eq_comm, List.length_eq_zero_iff] at hlength
    rw [hlength]
    rfl
  | cons c l ih =>
    cases l' with
    | nil => cases hlength
    | cons d l' =>
      rw [List.length_cons, List.length_cons, Nat.succ_inj] at hlength
      rw [digits_cons] at h h'
      have hl := nat_lt h.2
      have hl' := nat_lt h'.2
      rw [List.compareLex, nat_cons, nat_cons, ← hlength, ih h.2 h'.2 hlength]
      rw [← hlength] at hl'
      have hcd : compare c.toNat d.toNat = compare (value c) (value d) := by
        have hc := h.1
        have hd := h'.1
        rw [Char.isDigit, Bool.and_eq_true, decide_eq_true_iff, decide_eq_true_iff] at hc hd
        have hc' : 48 ≤ c.toNat := hc.1
        have hd' : 48 ≤ d.toNat := hd.1
        rw [value, value]
        rcases Nat.lt_trichotomy c.toNat d.toNat with hlt | heq | hgt
        · rw [Nat.compare_eq_lt.mpr hlt, Nat.compare_eq_lt.mpr (by omega)]
        · rw [Nat.compare_eq_eq.mpr heq, Nat.compare_eq_eq.mpr (by omega)]
        · rw [Nat.compare_eq_gt.mpr hgt, Nat.compare_eq_gt.mpr (by omega)]
      rw [hcd]
      rcases Nat.lt_trichotomy (value c) (value d) with hlt | heq | hgt
      · rw [Nat.compare_eq_lt.mpr hlt]
        exact (Nat.compare_eq_lt.mpr (by nlinarith)).symm
      · rw [heq, Nat.compare_eq_eq.mpr rfl]
        dsimp only
        rcases Nat.lt_trichotomy (nat l) (nat l') with hlt | heq | hgt
        · rw [Nat.compare_eq_lt.mpr hlt, Nat.compare_eq_lt.mpr (by omega)]
        · rw [Nat.compare_eq_eq.mpr heq, Nat.compare_eq_eq.mpr (by omega)]
        · rw [Nat.compare_eq_gt.mpr hgt, Nat.compare_eq_gt.mpr (by omega)]
      · rw [Nat.compare_eq_gt.mpr hgt]
        exact (Nat.compare_eq_gt.mpr (by nlinarith)).symm

theorem nat_inj (h : Digits l) (h' : Digits l') (hlength : l.length = l'.length)
    (hnat : nat l = nat l') : l = l' := by
  induction l generalizing l' with
  | nil =>
    rw [List.length_nil, eq_comm, List.length_eq_zero_iff] at hlength
    exact hlength.symm
  | cons c l ih =>
    cases l' with
    | nil => cases hlength
    | cons d l' =>
      rw [List.length_cons, List.length_cons, Nat.succ_inj] at hlength
      rw [digits_cons] at h h'
      rw [nat_cons, nat_cons, ← hlength] at hnat
      have hl := nat_lt h.2
      have hl' := nat_lt h'.2
      rw [← hlength] at hl'
      have hcd : value c = value d := by
        rcases Nat.lt_trichotomy (value c) (value d) with hlt | heq | hgt
        · nlinarith
        · exact heq
        · nlinarith
      rw [hcd, Nat.add_left_cancel_iff] at hnat
      rw [value_inj h.1 h'.1 hcd, ih h.2 h'.2 hlength hnat]

/-! ## Zeros at either end -/

/-- The digits without the zeros in front. -/
def trim_start (l : List Char) : List Char := l.dropWhile (· == '0')

/-- The digits without the zeros at the end. -/
def trim_end (l : List Char) : List Char := (l.reverse.dropWhile (· == '0')).reverse

theorem digits_trim_start (h : Digits l) : Digits (trim_start l) :=
  fun c hc => h c ((List.dropWhile_sublist _).subset hc)

theorem trim_end_append (l : List Char) :
    trim_end l ++ List.replicate (l.length - (trim_end l).length) '0' = l := by
  have hsplit := List.takeWhile_append_dropWhile (p := (· == '0')) (l := l.reverse)
  have hzeros : l.reverse.takeWhile (· == '0')
      = List.replicate (l.reverse.takeWhile (· == '0')).length '0' := by
    refine List.eq_replicate_of_mem fun c hc => ?_
    exact beq_iff_eq.mp (List.mem_takeWhile_imp (p := (· == '0')) hc)
  have hlength : (l.reverse.takeWhile (· == '0')).length = l.length - (trim_end l).length := by
    have hsum := congrArg List.length hsplit
    rw [List.length_append, List.length_reverse] at hsum
    rw [trim_end, List.length_reverse]
    omega
  have hback := congrArg List.reverse hsplit
  rw [List.reverse_append, List.reverse_reverse, hzeros, List.reverse_replicate, hlength] at hback
  exact hback

theorem digits_trim_end (h : Digits l) : Digits (trim_end l) := by
  rw [← trim_end_append l, digits_append] at h
  exact h.1

theorem nat_trim_start (l : List Char) : nat (trim_start l) = nat l := by
  induction l with
  | nil => rfl
  | cons c l ih =>
    rw [trim_start, List.dropWhile_cons]
    split
    next hc =>
      rw [beq_iff_eq.mp hc, nat_cons, ← ih]
      exact (Nat.zero_add _).symm.trans (congrArg (· + _) (Nat.zero_mul _).symm)
    next => rfl

theorem trim_start_ne (l : List Char) (t : List Char) : trim_start l ≠ '0' :: t := by
  intro h
  have hhead := List.head?_dropWhile_not (· == '0') l
  rw [trim_start] at h
  rw [h] at hhead
  cases hhead

theorem nat_trim_end (l : List Char) :
    nat (trim_end l) * 10 ^ (l.length - (trim_end l).length) = nat l := by
  conv_rhs => rw [← trim_end_append l]
  rw [nat_append, nat_replicate, List.length_replicate, Nat.add_zero]

theorem trim_end_ne (l t : List Char) : trim_end l ≠ t ++ ['0'] := by
  intro h
  rw [trim_end, List.reverse_eq_iff, List.reverse_append] at h
  exact trim_start_ne l.reverse _ h

end Appcall.Decimal

namespace Appcall

open Decimal

/-! ## Scaled numbers -/

/-- A sign, a number and a power of ten. -/
def scaled (negative : Bool) (n : ℕ) (exponent : ℤ) : ℚ :=
  (if negative then -1 else 1) * (n * 10 ^ exponent)

theorem scaled_zero (negative : Bool) (exponent : ℤ) : scaled negative 0 exponent = 0 := by
  rw [scaled]
  simp

theorem scaled_mul (negative : Bool) (n k : ℕ) (exponent : ℤ) :
    scaled negative (n * 10 ^ k) exponent = scaled negative n (exponent + k) := by
  rw [scaled, scaled, zpow_add₀ (by norm_num), zpow_natCast]
  push_cast
  ring

/-- What stands for a number: its sign, its digits without the zeros at either end, and
the exponent of the last one. -/
structure Key where
  negative : Bool
  digits : List Char
  exponent : ℤ
  deriving DecidableEq

namespace Key

def value (k : Key) : ℚ := scaled k.negative (nat k.digits) k.exponent

def zero : Key := ⟨false, ['0'], 0⟩

/-- The digits are not those of zero, and there is no zero at either end. -/
structure Proper (k : Key) : Prop where
  ne_nil : k.digits ≠ []
  digits : Digits k.digits
  head : ∀ t, k.digits ≠ '0' :: t
  last : ∀ t, k.digits ≠ t ++ ['0']

def Normal (k : Key) : Prop := k = zero ∨ k.Proper

/-- The key of digits with an exponent. -/
def of (negative : Bool) (digits : List Char) (exponent : ℤ) : Key :=
  let digits := trim_start digits
  if digits = [] then zero
  else ⟨negative, trim_end digits, exponent + (digits.length - (trim_end digits).length : ℕ)⟩

/-- **The key denotes what the digits denote.** -/
theorem value_of (negative : Bool) (digits : List Char) (exponent : ℤ) :
    (of negative digits exponent).value = scaled negative (nat digits) exponent := by
  rw [of]
  split
  next h =>
    rw [← nat_trim_start digits, h]
    exact (scaled_zero _ _).trans (scaled_zero _ _).symm
  next => rw [value, ← scaled_mul, nat_trim_end, nat_trim_start]

theorem normal_of {digits : List Char} (h : Digits digits) (negative : Bool) (exponent : ℤ) :
    (of negative digits exponent).Normal := by
  rw [of]
  split
  next => exact .inl rfl
  next hne =>
    have happend := trim_end_append (trim_start digits)
    refine .inr ⟨?_, digits_trim_end (digits_trim_start h), fun t ht => ?_, trim_end_ne _⟩
    · -- digits of which only zeros are trimmed are zeros, and start with one
      intro hnil
      dsimp only at hnil
      rw [hnil, List.nil_append, List.length_nil, Nat.sub_zero] at happend
      cases hlength : (trim_start digits).length with
      | zero => exact hne (List.length_eq_zero_iff.mp hlength)
      | succ n =>
        rw [hlength, List.replicate_succ] at happend
        exact trim_start_ne digits _ happend.symm
    · dsimp only at ht
      rw [ht, List.cons_append] at happend
      exact trim_start_ne digits _ happend.symm

variable {a b : Key}

theorem value_zero : zero.value = 0 := scaled_zero _ _

theorem Proper.nat_pos (h : a.Proper) : 0 < nat a.digits := by
  cases hd : a.digits with
  | nil => exact absurd hd h.ne_nil
  | cons c l =>
    have hc : c ≠ '0' := fun hc => h.head l (by rw [hd, hc])
    have hdigits := h.digits
    rw [hd] at hdigits
    exact Nat.lt_of_lt_of_le (Nat.one_le_pow _ _ (by decide)) (le_nat hdigits hc)

def abs (k : Key) : ℚ := nat k.digits * 10 ^ k.exponent

theorem value_eq (k : Key) : k.value = if k.negative then -k.abs else k.abs := by
  rw [value, scaled, abs]
  split
  · ring
  · ring

theorem value_positive (h : a.negative = false) : a.value = a.abs := by
  rw [value_eq, h, if_neg Bool.false_ne_true]

theorem value_negative (h : a.negative = true) : a.value = -a.abs := by
  rw [value_eq, h, if_pos rfl]

theorem Proper.abs_pos (h : a.Proper) : 0 < a.abs := by
  have hnat : (0 : ℚ) < nat a.digits := by exact_mod_cast h.nat_pos
  exact mul_pos hnat (zpow_pos (by norm_num) _)

theorem Proper.value_ne (h : a.Proper) : a.value ≠ 0 := by
  have hpos := h.abs_pos
  rw [value_eq]
  split
  · exact (neg_lt_zero.mpr hpos).ne
  · exact hpos.ne'

def magnitude (k : Key) : ℤ := k.digits.length + k.exponent

theorem Proper.abs_bounds (h : a.Proper) :
    (10 : ℚ) ^ (a.magnitude - 1) ≤ a.abs ∧ a.abs < 10 ^ a.magnitude := by
  have hten : (0 : ℚ) < 10 ^ a.exponent := zpow_pos (by norm_num) _
  have hlt := nat_lt h.digits
  cases hd : a.digits with
  | nil => exact absurd hd h.ne_nil
  | cons c l =>
    have hc : c ≠ '0' := fun hc => h.head l (by rw [hd, hc])
    have hdigits := h.digits
    rw [hd] at hdigits hlt
    have hle := le_nat hdigits hc
    rw [magnitude, abs, hd, List.length_cons]
    constructor
    · have hexp : ((l.length + 1 : ℕ) : ℤ) + a.exponent - 1 = l.length + a.exponent := by
        push_cast
        ring
      rw [hexp, zpow_add₀ (by norm_num), zpow_natCast]
      have hcast : (10 : ℚ) ^ l.length ≤ nat (c :: l) := by exact_mod_cast hle
      exact mul_le_mul_of_nonneg_right hcast hten.le
    · rw [zpow_add₀ (by norm_num), zpow_natCast]
      rw [List.length_cons] at hlt
      have hcast : (nat (c :: l) : ℚ) < 10 ^ (l.length + 1) := by exact_mod_cast hlt
      exact mul_lt_mul_of_pos_right hcast hten

theorem Proper.abs_lt (ha : a.Proper) (hb : b.Proper) (h : a.magnitude < b.magnitude) :
    a.abs < b.abs := by
  calc a.abs < 10 ^ a.magnitude := ha.abs_bounds.2
    _ ≤ 10 ^ (b.magnitude - 1) := zpow_le_zpow_right₀ (by norm_num) (by omega)
    _ ≤ b.abs := hb.abs_bounds.1

/-- The digits, with zeros at the end up to a width. -/
def padded (k : Key) (width : ℕ) : List Char :=
  (k.digits ++ List.replicate (width - k.digits.length) '0').take width

variable {width : ℕ}

theorem padded_eq (h : a.digits.length ≤ width) :
    a.padded width = a.digits ++ List.replicate (width - a.digits.length) '0' := by
  rw [padded, List.take_of_length_le]
  rw [List.length_append, List.length_replicate]
  omega

theorem abs_padded (h : a.digits.length ≤ width) :
    a.abs = nat (a.padded width) * 10 ^ (a.magnitude - width) := by
  rw [padded_eq h, nat_append, nat_replicate, List.length_replicate, Nat.add_zero, abs, magnitude]
  push_cast
  rw [mul_assoc, ← zpow_natCast, ← zpow_add₀ (by norm_num), Nat.cast_sub h]
  congr 2
  ring

theorem length_padded (h : a.digits.length ≤ width) : (a.padded width).length = width := by
  rw [padded, List.length_take, List.length_append, List.length_replicate]
  omega

theorem digits_padded (h : a.Proper) (width : ℕ) : Digits (a.padded width) := by
  intro c hc
  rcases List.mem_append.mp (List.mem_of_mem_take hc) with hc | hc
  · exact h.digits c hc
  · rw [(List.mem_replicate.mp hc).2]
    decide

/-- The order of the absolute values: by the place of the first digit, and then digit by
digit. -/
def cmp_abs (a b : Key) : Ordering :=
  (compare a.magnitude b.magnitude).then
    (let width := max a.digits.length b.digits.length
    List.compareLex (fun c d => compare c.toNat d.toNat) (a.padded width) (b.padded width))

theorem cmp_abs_eq (ha : a.Proper) (hb : b.Proper) : cmp_abs a b = compare a.abs b.abs := by
  rw [cmp_abs]
  rcases lt_trichotomy a.magnitude b.magnitude with hlt | heq | hgt
  · rw [compare_lt_iff_lt.mpr hlt, compare_lt_iff_lt.mpr (ha.abs_lt hb hlt)]
    rfl
  · set width := max a.digits.length b.digits.length with hwidth
    have hla : a.digits.length ≤ width := Nat.le_max_left _ _
    have hlb : b.digits.length ≤ width := Nat.le_max_right _ _
    have hpow : (0 : ℚ) < 10 ^ (b.magnitude - width) := zpow_pos (by norm_num) _
    rw [compare_eq_iff_eq.mpr heq, Ordering.eq_then,
      compareLex_eq (digits_padded ha _) (digits_padded hb _)
        ((length_padded hla).trans (length_padded hlb).symm),
      abs_padded hla, abs_padded hlb, heq]
    rcases Nat.lt_trichotomy (nat (a.padded width)) (nat (b.padded width)) with hlt | heq | hgt
    · rw [Nat.compare_eq_lt.mpr hlt, eq_comm, compare_lt_iff_lt]
      exact mul_lt_mul_of_pos_right (by exact_mod_cast hlt) hpow
    · rw [Nat.compare_eq_eq.mpr heq, eq_comm, compare_eq_iff_eq, heq]
    · rw [Nat.compare_eq_gt.mpr hgt, eq_comm, compare_gt_iff_gt]
      exact mul_lt_mul_of_pos_right (by exact_mod_cast hgt) hpow
  · rw [compare_gt_iff_gt.mpr hgt, compare_gt_iff_gt.mpr (hb.abs_lt ha hgt)]
    rfl

theorem Proper.not_padded (hb : b.Proper) (h : a.digits.length < b.digits.length) :
    a.padded b.digits.length ≠ b.padded b.digits.length := by
  intro heq
  obtain ⟨n, hn⟩ : ∃ n, b.digits.length - a.digits.length = n + 1 :=
    ⟨b.digits.length - a.digits.length - 1, by omega⟩
  rw [padded_eq h.le, padded_eq le_rfl, Nat.sub_self, List.replicate_zero, List.append_nil, hn,
    List.replicate_succ', ← List.append_assoc] at heq
  exact hb.last _ heq.symm

theorem Proper.eq_of_abs (ha : a.Proper) (hb : b.Proper) (hsign : a.negative = b.negative)
    (habs : a.abs = b.abs) : a = b := by
  have hmagnitude : a.magnitude = b.magnitude := by
    rcases lt_trichotomy a.magnitude b.magnitude with hlt | heq | hgt
    · exact absurd habs (ha.abs_lt hb hlt).ne
    · exact heq
    · exact absurd habs (hb.abs_lt ha hgt).ne'
  set width := max a.digits.length b.digits.length with hwidth
  have hla : a.digits.length ≤ width := Nat.le_max_left _ _
  have hlb : b.digits.length ≤ width := Nat.le_max_right _ _
  have hpow : (10 : ℚ) ^ (b.magnitude - width) ≠ 0 := (zpow_pos (by norm_num) _).ne'
  rw [abs_padded hla, abs_padded hlb, hmagnitude] at habs
  have hnat : nat (a.padded width) = nat (b.padded width) := by
    exact_mod_cast mul_right_cancel₀ hpow habs
  have hpadded := nat_inj (digits_padded ha _) (digits_padded hb _)
    ((length_padded hla).trans (length_padded hlb).symm) hnat
  have hlength : a.digits.length = b.digits.length := by
    rcases Nat.lt_trichotomy a.digits.length b.digits.length with hlt | heq | hgt
    · rw [hwidth, Nat.max_eq_right hlt.le] at hpadded
      exact absurd hpadded (hb.not_padded hlt)
    · exact heq
    · rw [hwidth, Nat.max_eq_left hgt.le] at hpadded
      exact absurd hpadded.symm (ha.not_padded hgt)
  have hdigits : a.digits = b.digits := by
    rw [hwidth, hlength, Nat.max_self, padded_eq hlength.le, padded_eq le_rfl, hlength,
      Nat.sub_self, List.replicate_zero, List.append_nil, List.append_nil] at hpadded
    exact hpadded
  have hexponent : a.exponent = b.exponent := by
    rw [magnitude, magnitude, hlength] at hmagnitude
    omega
  cases a
  cases b
  cases hsign
  cases hdigits
  cases hexponent
  rfl

/-- **Normal keys of the same value are the same key.** -/
theorem Normal.eq_iff (ha : a.Normal) (hb : b.Normal) : a = b ↔ a.value = b.value := by
  refine ⟨fun h => by rw [h], fun h => ?_⟩
  rcases ha with rfl | ha
  · rcases hb with rfl | hb
    · rfl
    · exact absurd (h.symm.trans value_zero) hb.value_ne
  · rcases hb with rfl | hb
    · exact absurd (h.trans value_zero) ha.value_ne
    · have hpa := ha.abs_pos
      have hpb := hb.abs_pos
      cases hna : a.negative with
      | false =>
        cases hnb : b.negative with
        | false =>
          rw [value_positive hna, value_positive hnb] at h
          exact ha.eq_of_abs hb (hna.trans hnb.symm) h
        | true =>
          rw [value_positive hna, value_negative hnb] at h
          linarith
      | true =>
        cases hnb : b.negative with
        | false =>
          rw [value_negative hna, value_positive hnb] at h
          linarith
        | true =>
          rw [value_negative hna, value_negative hnb] at h
          exact ha.eq_of_abs hb (hna.trans hnb.symm) (neg_injective h)

end Key

/-! ## Numerals -/

/-- A number as it is written: a sign, digits, perhaps a fraction and perhaps an exponent
with its sign. -/
structure Numeral where
  negative : Bool
  whole : List Char
  fraction : Option (List Char)
  exponent : Option (Bool × List Char)
  whole_ne : whole ≠ []
  whole_digits : Digits whole
  fraction_digits : ∀ f, fraction = some f → Digits f
  exponent_digits : ∀ s e, exponent = some (s, e) → e ≠ [] ∧ Digits e

namespace Numeral

def sign (negative : Bool) : List Char := if negative then ['-'] else []

def mantissa (n : Numeral) : List Char :=
  n.whole ++ match n.fraction with
    | none => []
    | some f => '.' :: f

def unsigned (n : Numeral) : List Char :=
  n.mantissa ++ match n.exponent with
    | none => []
    | some (s, e) => 'e' :: (sign s ++ e)

def text (n : Numeral) : List Char := sign n.negative ++ n.unsigned

/-- All the digits before the exponent. -/
def digits (n : Numeral) : List Char := n.whole ++ n.fraction.getD []

/-- The exponent of the last of the digits. -/
def scale (n : Numeral) : ℤ :=
  (match n.exponent with
    | none => 0
    | some (s, e) => if s then -(nat e : ℤ) else nat e) - ((n.fraction.getD []).length : ℤ)

def value (n : Numeral) : ℚ := scaled n.negative (nat n.digits) n.scale

def key (n : Numeral) : Key := Key.of n.negative n.digits n.scale

variable {n m : Numeral}

theorem digits_digits (n : Numeral) : Digits n.digits := by
  rw [digits, digits_append]
  refine ⟨n.whole_digits, ?_⟩
  cases h : n.fraction with
  | none => exact Digits.nil
  | some f => exact n.fraction_digits f h

theorem key_normal (n : Numeral) : n.key.Normal := Key.normal_of n.digits_digits _ _

@[simp] theorem key_value (n : Numeral) : n.key.value = n.value := Key.value_of _ _ _

/-- **Numerals have the same key exactly when they denote the same number.** -/
theorem key_eq_iff : n.key = m.key ↔ n.value = m.value := by
  rw [n.key_normal.eq_iff m.key_normal, key_value, key_value]

theorem no_fraction : ∀ f, (none : Option (List Char)) = some f → Digits f :=
  fun _ h => nomatch h

theorem no_exponent : ∀ s e, (none : Option (Bool × List Char)) = some (s, e) → e ≠ [] ∧ Digits e :=
  fun _ _ h => nomatch h

def of_nat (negative : Bool) (n : ℕ) : Numeral where
  negative := negative
  whole := write n
  fraction := none
  exponent := none
  whole_ne := write_ne_nil n
  whole_digits _ h := (mem_write h).1
  fraction_digits := no_fraction
  exponent_digits := no_exponent

theorem nat_write (n : ℕ) : nat (write n) = n := by
  have hread := read_write n
  rw [Decimal.read.eq_def] at hread
  split at hread
  · cases hread
  · exact Option.some.inj hread

theorem value_of_nat (negative : Bool) (n : ℕ) :
    (of_nat negative n).value = if negative then -(n : ℚ) else n := by
  have hdigits : (of_nat negative n).digits = write n := List.append_nil _
  rw [value, hdigits, nat_write, scaled]
  have hscale : (of_nat negative n).scale = 0 := rfl
  rw [hscale, zpow_zero, mul_one]
  change (if negative then (-1 : ℚ) else 1) * n = _
  split
  · ring
  · ring

end Numeral

end Appcall
