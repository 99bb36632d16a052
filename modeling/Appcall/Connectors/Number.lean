/-
Numbers of JSON and their comparison: `decimal_key`, `compare_numbers` and `equal_json`
of `crates/appcall-connectors/src/schema.rs`.

Numbers are compared by the decimal text they are written as, never as doubles. How a
double is written is the business of a crate, of which only the form of the text is
assumed. The arithmetic on lengths and exponents is that of `i32`: `none` stands for an
overflow or a panic, and `decimal_key_eq` and `compare_numbers_eq` say that there is none.
-/
import Appcall.Lib.Alike
import Appcall.Lib.Chars
import Appcall.Lib.Double
import Appcall.Lib.Numeral

set_option autoImplicit false

namespace Appcall.Connectors

open Decimal
open Chars (split_once split_once_none split_once_append)

/-- How the crate writes a double. It writes 24 characters at most, with an exponent of
three digits; less is assumed. -/
structure Ryu where
  format : F64 → Numeral
  short : ∀ f, (format f).text.length ≤ 2000
  small : ∀ f s e, (format f).exponent = some (s, e) → nat e ≤ 2000

/-- A way to write doubles: all their digits, without an exponent. -/
def Ryu.exact : Ryu where
  format := F64.expansion
  short := F64.expansion_length
  small _ _ _ h := nomatch h

/-- `serde_json::Number`: an integer of `u64`, the integer `-1 - n` of `i64`, or a finite
double. -/
inductive Number
  | pos_int (n : UInt64)
  | neg_int (n : Fin (2 ^ 63))
  | float (f : F64)

/-- `Number::to_string` -/
def Number.to_numeral (ryu : Ryu) : Number → Numeral
  | .pos_int n => .of_nat false n.toNat
  | .neg_int n => .of_nat true (n + 1)
  | .float f => ryu.format f

/-- The rational that the decimal text of a number denotes. -/
def Number.value (ryu : Ryu) (n : Number) : ℚ := (n.to_numeral ryu).value

/-- An `i32`, unless the operation overflows. -/
def i32 (x : ℤ) : Option ℤ := if -2147483648 ≤ x ∧ x < 2147483648 then some x else none

/-- `as i32` -/
def as_i32 (n : ℕ) : ℤ := Int.bmod n 4294967296

/-- `str::parse::<i32>` -/
def parse_i32 (text : List Char) : Option ℤ :=
  let (negative, digits) :=
    match text with
    | '-' :: digits => (true, digits)
    | '+' :: digits => (false, digits)
    | digits => (false, digits)
  (Decimal.read digits).bind (fun n => i32 (if negative then -(n : ℤ) else n))

/-- The rest of `decimal_key`, once the sign and the exponent are split off. -/
def mantissa_key (negative : Bool) (mantissa : List Char) (exponent : ℤ) : Option Key :=
  let fraction := match split_once (· == '.') mantissa with
    | none => 0
    | some (_, f) => f.length
  let digits := trim_start (mantissa.filter (· != '.'))
  if digits = [] then some Key.zero
  else
    let significant := trim_end digits
    (i32 (exponent - as_i32 fraction)).bind (fun scale =>
      (i32 (scale + as_i32 (digits.length - significant.length))).map (fun exponent =>
        ⟨negative, significant, exponent⟩))

def decimal_key (ryu : Ryu) (number : Number) : Option Key :=
  let text := (number.to_numeral ryu).text
  let (negative, unsigned) :=
    match text with
    | '-' :: unsigned => (true, unsigned)
    | _ => (false, text)
  match split_once (fun c => c == 'e' || c == 'E') unsigned with
  | none => mantissa_key negative unsigned 0
  | some (m, e) => (parse_i32 e).bind (mantissa_key negative m)

/-- `ErrorCode`, of which validation uses these. -/
inductive ErrorCode
  | InvalidInput
  | InvalidOutput
  | UnsupportedSchema
  deriving DecidableEq

/-- What a computation without a result has come to: an error, or a panic. -/
inductive Stop
  | error (code : ErrorCode)
  | panicked

/-- The comparison of `compare_numbers`, on keys. -/
def compare_keys (a b : Key) : Except Stop Ordering :=
  if a.negative != b.negative then .ok (if a.negative then .lt else .gt)
  else
    let a_zero := decide (a.digits = ['0'])
    let b_zero := decide (b.digits = ['0'])
    if a_zero || b_zero then
      match a_zero, b_zero, a.negative with
      | true, true, _ => .ok .eq
      | true, false, false => .ok .lt
      | false, true, false => .ok .gt
      | true, false, true => .ok .gt
      | false, true, true => .ok .lt
      | false, false, _ => .error .panicked
    else
      match i32 (as_i32 a.digits.length + a.exponent), i32 (as_i32 b.digits.length + b.exponent)
        with
      | some a_magnitude, some b_magnitude =>
        let absolute := (compare a_magnitude b_magnitude).then
          (let width := max a.digits.length b.digits.length
          List.compareLex (fun c d => compare c.toNat d.toNat) (a.padded width) (b.padded width))
        .ok (if a.negative then absolute.swap else absolute)
      | _, _ => .error .panicked

def compare_numbers (ryu : Ryu) : Value Number → Value Number → Except Stop Ordering
  | .number a, .number b =>
    match decimal_key ryu a, decimal_key ryu b with
    | some a, some b => compare_keys a b
    | _, _ => .error .panicked
  | _, _ => .error (.error .UnsupportedSchema)

/-- `equal_json`. `decimal_key_eq` says that no key is missing. -/
def equal_json (ryu : Ryu) : Value Number → Value Number → Bool :=
  Value.alike (fun a b => decide (decimal_key ryu a = decimal_key ryu b))

/-! ## The key of a number -/

variable {ryu : Ryu} {n : Numeral}

theorem digit_plain {c : Char} (h : c.isDigit = true) :
    c ≠ '-' ∧ c ≠ '+' ∧ c ≠ '.' ∧ c ≠ 'e' ∧ c ≠ 'E' := by
  refine ⟨?_, ?_, ?_, ?_, ?_⟩
  all_goals
    rintro rfl
    revert h
    decide

theorem as_i32_small {n : ℕ} (h : n < 2147483648) : as_i32 n = n :=
  Int.bmod_eq_of_le (by omega) (by omega)

theorem i32_small {x : ℤ} (h : -2147483648 ≤ x) (h' : x < 2147483648) : i32 x = some x := by
  rw [i32, if_pos ⟨h, h'⟩]

theorem read_digits {e : List Char} (hne : e ≠ []) (he : Digits e) :
    Decimal.read e = some (nat e) := by
  rw [Decimal.read.eq_def, if_neg]
  · rfl
  · rw [Bool.or_eq_true, not_or, Bool.not_eq_true, Bool.not_eq_true, Bool.not_eq_false',
      List.isEmpty_eq_false_iff]
    exact ⟨hne, List.all_eq_true.mpr he⟩

theorem parse_i32_sign {s : Bool} {e : List Char} (hne : e ≠ []) (he : Digits e)
    (hsmall : nat e ≤ 2000) :
    parse_i32 (Numeral.sign s ++ e) = some (if s then -(nat e : ℤ) else nat e) := by
  have hread := read_digits hne he
  cases s with
  | true =>
    rw [Numeral.sign, if_pos rfl, List.singleton_append]
    change (Decimal.read e).bind (fun n => i32 (-(n : ℤ))) = _
    rw [hread]
    exact i32_small (by omega) (by omega)
  | false =>
    cases e with
    | nil => exact absurd rfl hne
    | cons c e =>
      obtain ⟨hminus, hplus, -⟩ := digit_plain (digits_cons.mp he).1
      rw [Numeral.sign, if_neg (by decide), List.nil_append, parse_i32.eq_def]
      split
      next negative digits heq =>
        split at heq
        next rest h =>
          cases h
          exact absurd rfl hminus
        next rest h =>
          cases h
          exact absurd rfl hplus
        next =>
          cases heq
          rw [hread, Option.bind_some, if_neg (by decide)]
          exact i32_small (by omega) (by omega)

theorem unsigned_ne (n : Numeral) (t : List Char) : n.unsigned ≠ '-' :: t := by
  intro h
  rw [Numeral.unsigned, Numeral.mantissa] at h
  have hwhole := n.whole_digits
  cases hw : n.whole with
  | nil => exact n.whole_ne hw
  | cons c l =>
    rw [hw] at h hwhole
    rw [List.cons_append, List.cons_append, List.cons.injEq] at h
    exact (digit_plain (digits_cons.mp hwhole).1).1 h.1

theorem mantissa_plain (n : Numeral) : ∀ c ∈ n.mantissa, (c == 'e' || c == 'E') = false := by
  have hdigits : ∀ {l : List Char}, Digits l → ∀ c ∈ l, (c == 'e' || c == 'E') = false := by
    intro l hl c hc
    obtain ⟨-, -, -, he, hE⟩ := digit_plain (hl c hc)
    rw [Bool.or_eq_false_iff, beq_eq_false_iff_ne, beq_eq_false_iff_ne]
    exact ⟨he, hE⟩
  intro c hc
  rw [Numeral.mantissa, List.mem_append] at hc
  rcases hc with hc | hc
  · exact hdigits n.whole_digits c hc
  · cases hf : n.fraction with
    | none =>
      rw [hf] at hc
      cases hc
    | some f =>
      rw [hf] at hc
      rcases List.mem_cons.mp hc with rfl | hc
      · decide
      · exact hdigits (n.fraction_digits f hf) c hc

theorem mantissa_digits (n : Numeral) :
    n.mantissa.filter (· != '.') = n.digits
      ∧ (match split_once (· == '.') n.mantissa with
        | none => 0
        | some (_, f) => f.length) = (n.fraction.getD []).length := by
  have hplain : ∀ {l : List Char}, Digits l → ∀ c ∈ l, (c == '.') = false := fun hl c hc =>
    beq_eq_false_iff_ne.mpr (digit_plain (hl c hc)).2.2.1
  have hfilter : ∀ {l : List Char}, Digits l → l.filter (· != '.') = l := fun hl =>
    List.filter_eq_self.mpr fun c hc => by rw [bne, hplain hl c hc]; rfl
  rw [Numeral.mantissa, Numeral.digits]
  cases hf : n.fraction with
  | none =>
    rw [Option.getD_none, List.append_nil, hfilter n.whole_digits,
      split_once_none (hplain n.whole_digits)]
    exact ⟨rfl, rfl⟩
  | some f =>
    rw [Option.getD_some, List.filter_append, hfilter n.whole_digits,
      List.filter_cons_of_neg (by decide), hfilter (n.fraction_digits f hf),
      split_once_append (hplain n.whole_digits) (by decide)]
    exact ⟨rfl, rfl⟩

theorem mantissa_key_eq (hlength : n.text.length ≤ 2000) (negative : Bool) {exponent : ℤ}
    (hexponent : -2000 ≤ exponent ∧ exponent ≤ 2000) :
    mantissa_key negative n.mantissa exponent
      = some (Key.of negative n.digits (exponent - (n.fraction.getD []).length)) := by
  obtain ⟨hdigits, hfraction⟩ := mantissa_digits n
  have hlong : n.mantissa.length ≤ 2000 := by
    rw [Numeral.text, Numeral.unsigned, List.length_append, List.length_append] at hlength
    omega
  have hdigits_le : n.digits.length ≤ 2000 := by
    rw [← hdigits]
    exact (List.length_filter_le _ _).trans hlong
  have hfraction_le : (n.fraction.getD []).length ≤ 2000 := by
    rw [Numeral.digits, List.length_append] at hdigits_le
    omega
  have htrim : (trim_start n.digits).length ≤ 2000 :=
    (List.dropWhile_sublist _).length_le.trans hdigits_le
  rw [mantissa_key, hdigits, hfraction, Key.of]
  dsimp only
  split
  · rfl
  · rw [as_i32_small (by omega), i32_small (by omega) (by omega), Option.bind_some,
      as_i32_small (by omega), i32_small (by omega) (by omega)]
    rfl

/-- **`decimal_key` gives the key of the number**, and neither overflows nor panics. -/
theorem decimal_key_numeral (hlength : n.text.length ≤ 2000)
    (hsmall : ∀ s e, n.exponent = some (s, e) → nat e ≤ 2000) {number : Number}
    (hn : number.to_numeral ryu = n) : decimal_key ryu number = some n.key := by
  have hsign : (match n.text with
      | '-' :: unsigned => (true, unsigned)
      | _ => (false, n.text)) = (n.negative, n.unsigned) := by
    rw [Numeral.text]
    cases n.negative with
    | true => rfl
    | false =>
      rw [Numeral.sign, if_neg (by decide), List.nil_append]
      split
      next t h => exact absurd h (unsigned_ne n t)
      next => rfl
  rw [decimal_key, hn]
  dsimp only
  rw [hsign]
  dsimp only
  rw [Numeral.key, Numeral.scale]
  cases he : n.exponent with
  | none =>
    have hunsigned : n.unsigned = n.mantissa := by
      rw [Numeral.unsigned, he, List.append_nil]
    rw [hunsigned, split_once_none (mantissa_plain n)]
    exact mantissa_key_eq hlength _ (by omega)
  | some e =>
    obtain ⟨s, e⟩ := e
    have hunsigned : n.unsigned = n.mantissa ++ 'e' :: (Numeral.sign s ++ e) := by
      rw [Numeral.unsigned, he]
    obtain ⟨hne, hdigits⟩ := n.exponent_digits s e he
    have hle := hsmall s e he
    rw [hunsigned, split_once_append (mantissa_plain n) (by decide)]
    dsimp only
    rw [parse_i32_sign hne hdigits hle, Option.bind_some]
    refine mantissa_key_eq hlength _ ?_
    split
    · omega
    · omega

theorem of_nat_short (negative : Bool) {n : ℕ} (h : n < 10 ^ 20) :
    (Numeral.of_nat negative n).text.length ≤ 2000 := by
  have hlength := length_write h (by decide)
  have hsign : (Numeral.sign negative).length ≤ 1 := by
    cases negative with
    | true => decide
    | false => decide
  rw [Numeral.text, Numeral.unsigned, Numeral.mantissa, List.length_append, List.length_append,
    List.length_append]
  change (Numeral.sign negative).length + ((write n).length + 0 + 0) ≤ 2000
  omega

/-- **`decimal_key` gives the key of the number's text**: no operation overflows. -/
theorem decimal_key_eq (ryu : Ryu) (number : Number) :
    decimal_key ryu number = some (number.to_numeral ryu).key := by
  cases number with
  | pos_int n =>
    have hlt := n.toNat_lt
    exact decimal_key_numeral (of_nat_short false (by omega)) (fun s e h => nomatch h) rfl
  | neg_int n =>
    have hlt := n.isLt
    exact decimal_key_numeral (of_nat_short true (by omega)) (fun s e h => nomatch h) rfl
  | float f => exact decimal_key_numeral (ryu.short f) (ryu.small f) rfl

/-! ## The comparison -/

/-- Lengths and exponents that leave the arithmetic of `i32` alone. -/
structure Small (k : Key) : Prop where
  digits : k.digits.length ≤ 2000
  low : -10000 ≤ k.exponent
  high : k.exponent ≤ 10000

theorem compare_swap (x y : ℚ) : (compare x y).swap = compare (-x) (-y) := by
  rcases lt_trichotomy x y with h | h | h
  · rw [compare_lt_iff_lt.mpr h, compare_gt_iff_gt.mpr (neg_lt_neg h)]
    rfl
  · rw [compare_eq_iff_eq.mpr h, compare_eq_iff_eq.mpr (congrArg _ h)]
    rfl
  · rw [compare_gt_iff_gt.mpr h, compare_lt_iff_lt.mpr (neg_lt_neg h)]
    rfl

theorem zero_digits {k : Key} (h : k.Normal) : k.digits = ['0'] ↔ k = Key.zero := by
  refine ⟨fun hk => ?_, fun hk => by rw [hk]; rfl⟩
  rcases h with h | h
  · exact h
  · exact absurd hk (h.head [])

theorem compare_keys_proper {a b : Key} (ha : a.Proper) (hb : b.Proper) (hsa : Small a)
    (hsb : Small b) (hsign : a.negative = b.negative) :
    compare_keys a b = .ok (compare a.value b.value) := by
  obtain ⟨hla, hlowa, hhigha⟩ := hsa
  obtain ⟨hlb, hlowb, hhighb⟩ := hsb
  have hda : decide (a.digits = ['0']) = false := decide_eq_false (ha.head [])
  have hdb : decide (b.digits = ['0']) = false := decide_eq_false (hb.head [])
  have hma : i32 (as_i32 a.digits.length + a.exponent) = some a.magnitude := by
    rw [as_i32_small (by omega), i32_small (by omega) (by omega), Key.magnitude]
  have hmb : i32 (as_i32 b.digits.length + b.exponent) = some b.magnitude := by
    rw [as_i32_small (by omega), i32_small (by omega) (by omega), Key.magnitude]
  have habs := Key.cmp_abs_eq ha hb
  rw [Key.cmp_abs] at habs
  unfold compare_keys
  rw [if_neg (by rw [hsign, bne_self_eq_false]; exact Bool.false_ne_true)]
  simp only [hda, hdb, Bool.or_self, Bool.false_eq_true, if_false, hma, hmb, habs]
  split
  next hna =>
    rw [Key.value_negative hna, Key.value_negative (hsign ▸ hna), compare_swap]
  next hna =>
    rw [Bool.not_eq_true] at hna
    rw [Key.value_positive hna, Key.value_positive (hsign ▸ hna)]

/-- **The comparison of keys is the order of their values.** -/
theorem compare_keys_eq {a b : Key} (ha : a.Normal) (hb : b.Normal) (hsa : Small a)
    (hsb : Small b) : compare_keys a b = .ok (compare a.value b.value) := by
  have hproper : ∀ {k : Key}, k.Normal → k ≠ Key.zero → k.Proper := fun h hne =>
    h.resolve_left hne
  by_cases hsign : (a.negative != b.negative) = true
  · rw [compare_keys, if_pos hsign]
    -- a key with a minus is proper, and below every key without one
    rw [bne_iff_ne] at hsign
    cases hna : a.negative with
    | true =>
      have hnb : b.negative = false := by
        rw [hna] at hsign
        exact Bool.eq_false_of_not_eq_true (Ne.symm hsign)
      have hpa := (hproper ha fun h => by rw [h] at hna; cases hna).abs_pos
      have hvb : 0 ≤ b.value := by
        rcases hb with rfl | hb
        · exact Key.value_zero.ge
        · rw [Key.value_positive hnb]
          exact hb.abs_pos.le
      have hlt : a.value < b.value := by
        rw [Key.value_negative hna]
        linarith
      rw [if_pos rfl, compare_lt_iff_lt.mpr hlt]
    | false =>
      have hnb : b.negative = true := by
        rw [hna] at hsign
        exact Bool.eq_true_of_not_eq_false (Ne.symm hsign)
      have hpb := (hproper hb fun h => by rw [h] at hnb; cases hnb).abs_pos
      have hva : 0 ≤ a.value := by
        rcases ha with rfl | ha
        · exact Key.value_zero.ge
        · rw [Key.value_positive hna]
          exact ha.abs_pos.le
      have hgt : b.value < a.value := by
        rw [Key.value_negative hnb]
        linarith
      rw [if_neg Bool.false_ne_true, compare_gt_iff_gt.mpr hgt]
  · have hsame := hsign
    rw [Bool.not_eq_true, bne_eq_false_iff_eq] at hsign
    by_cases hza : a = Key.zero
    · have hda : decide (a.digits = ['0']) = true := decide_eq_true ((zero_digits ha).mpr hza)
      have hna : a.negative = false := by rw [hza]; rfl
      unfold compare_keys
      rw [if_neg hsame]
      simp only [hda, Bool.true_or, if_true, hna]
      by_cases hzb : b = Key.zero
      · have hdb : decide (b.digits = ['0']) = true := decide_eq_true ((zero_digits hb).mpr hzb)
        rw [hdb, hza, hzb, compare_eq_iff_eq.mpr rfl]
      · have hdb : decide (b.digits = ['0']) = false :=
          decide_eq_false fun h => hzb ((zero_digits hb).mp h)
        have hlt : a.value < b.value := by
          rw [hza, Key.value_zero, Key.value_positive (hsign ▸ hna)]
          exact (hproper hb hzb).abs_pos
        rw [hdb, compare_lt_iff_lt.mpr hlt]
    · have hda : decide (a.digits = ['0']) = false :=
        decide_eq_false fun h => hza ((zero_digits ha).mp h)
      have hpa := hproper ha hza
      by_cases hzb : b = Key.zero
      · have hdb : decide (b.digits = ['0']) = true := decide_eq_true ((zero_digits hb).mpr hzb)
        have hna : a.negative = false := by rw [hsign, hzb]; rfl
        have hgt : b.value < a.value := by
          rw [hzb, Key.value_zero, Key.value_positive hna]
          exact hpa.abs_pos
        unfold compare_keys
        rw [if_neg hsame]
        simp only [hda, hdb, Bool.false_or, if_true, hna]
        rw [compare_gt_iff_gt.mpr hgt]
      · exact compare_keys_proper hpa (hproper hb hzb) hsa hsb hsign

theorem numeral_small (hlength : n.text.length ≤ 2000)
    (hsmall : ∀ s e, n.exponent = some (s, e) → nat e ≤ 2000) : Small n.key := by
  have hdigits : n.digits.length ≤ 2000 := by
    rw [← (mantissa_digits n).1]
    refine (List.length_filter_le _ _).trans ?_
    rw [Numeral.text, Numeral.unsigned, List.length_append, List.length_append] at hlength
    omega
  have hfraction : (n.fraction.getD []).length ≤ 2000 := by
    rw [Numeral.digits, List.length_append] at hdigits
    omega
  have htrim : (trim_start n.digits).length ≤ 2000 :=
    (List.dropWhile_sublist _).length_le.trans hdigits
  have hend : (trim_end (trim_start n.digits)).length ≤ 2000 := by
    have happend := congrArg List.length (trim_end_append (trim_start n.digits))
    rw [List.length_append] at happend
    omega
  have hscale : -4000 ≤ n.scale ∧ n.scale ≤ 2000 := by
    rw [Numeral.scale]
    cases he : n.exponent with
    | none => exact ⟨by dsimp only; omega, by dsimp only; omega⟩
    | some e =>
      obtain ⟨s, e⟩ := e
      have hle := hsmall s e he
      dsimp only
      split
      · omega
      · omega
  rw [Numeral.key, Key.of]
  split
  · exact ⟨by decide, by decide, by decide⟩
  · exact ⟨hend, by dsimp only; omega, by dsimp only; omega⟩

theorem number_small (ryu : Ryu) (number : Number) : Small (number.to_numeral ryu).key := by
  cases number with
  | pos_int n =>
    have hlt := n.toNat_lt
    exact numeral_small (of_nat_short false (by omega)) fun s e h => nomatch h
  | neg_int n =>
    have hlt := n.isLt
    exact numeral_small (of_nat_short true (by omega)) fun s e h => nomatch h
  | float f => exact numeral_small (ryu.short f) (ryu.small f)

theorem compare_numbers_eq (ryu : Ryu) (a b : Number) :
    compare_numbers ryu (.number a) (.number b)
      = .ok (compare (a.value ryu) (b.value ryu)) := by
  rw [compare_numbers, decimal_key_eq, decimal_key_eq]
  dsimp only
  rw [compare_keys_eq (Numeral.key_normal _) (Numeral.key_normal _) (number_small ryu a)
    (number_small ryu b), Numeral.key_value, Numeral.key_value]
  rfl

theorem decimal_key_eq_iff (ryu : Ryu) (a b : Number) :
    decimal_key ryu a = decimal_key ryu b ↔ a.value ryu = b.value ryu := by
  rw [decimal_key_eq, decimal_key_eq, Option.some.injEq, Numeral.key_eq_iff]
  rfl

/-- A JSON document: the names of the fields of an object are distinct. -/
abbrev Json : Type := { v : Value Number // v.Distinct }

theorem equal_json_number (ryu : Ryu) (a b : Number) :
    equal_json ryu (.number a) (.number b) = true ↔ a.value ryu = b.value ryu := by
  rw [equal_json, Value.alike, decide_eq_true_iff, decimal_key_eq_iff]

/-- **Numbers are compared exactly**, and equality of documents is an equivalence that
agrees with the comparison. Neither `decimal_key` nor `compare_numbers` overflows or
panics. -/
theorem numbers_compared_exactly (ryu : Ryu) :
    (∀ a b : Number,
      compare_numbers ryu (.number a) (.number b) = .ok (compare (a.value ryu) (b.value ryu))
        ∧ (∃ key, decimal_key ryu a = some key ∧ key.value = a.value ryu)
        ∧ (decimal_key ryu a = decimal_key ryu b ↔ a.value ryu = b.value ryu)
        ∧ (equal_json ryu (.number a) (.number b) = true
          ↔ compare_numbers ryu (.number a) (.number b) = .ok .eq))
    ∧ Equivalence (fun v w : Json => equal_json ryu v.val w.val = true) := by
  refine ⟨fun a b => ⟨compare_numbers_eq ryu a b, ⟨_, decimal_key_eq ryu a, ?_⟩,
    decimal_key_eq_iff ryu a b, ?_⟩, ⟨fun v => ?_, fun {v w} h => ?_, fun {u v w} h h' => ?_⟩⟩
  · exact Numeral.key_value _
  · rw [equal_json_number, compare_numbers_eq, Except.ok.injEq, compare_eq_iff_eq]
  · have hrefl : ∀ n : Number, decide (decimal_key ryu n = decimal_key ryu n) = true :=
      fun _ => decide_eq_true rfl
    exact Value.alike_refl hrefl v.property
  · rw [equal_json] at h ⊢
    refine Value.alike_symm (fun m n h => ?_) v.property w.property h
    exact decide_eq_true (of_decide_eq_true h).symm
  · rw [equal_json] at h h' ⊢
    refine Value.alike_trans (fun m n o h h' => ?_) h h'
    exact decide_eq_true ((of_decide_eq_true h).trans (of_decide_eq_true h'))

end Appcall.Connectors
