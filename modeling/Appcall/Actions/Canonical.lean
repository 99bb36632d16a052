/-
The canonical text of an input, and its hash: `crates/appcall-actions/src/canonical.rs`.

The digest is a parameter: all that is ever asked of it is that the texts at hand do not
collide. The names of an object are distinct, as in the map the source has, and the fields
are sorted after they are written instead of before.
-/
import Appcall.Connectors.Number
import Appcall.Lib.Document
import Appcall.Lib.Hex
import Appcall.Lib.Shortest
import Appcall.Lib.Sorted

set_option autoImplicit false

namespace Appcall.Connectors

def Number.as_f64 : Number → F64
  | .pos_int n => F64.of_nat false n.toNat n.toNat_lt
  | .neg_int n => F64.of_nat true (n + 1) (Nat.lt_of_le_of_lt n.isLt (by decide))
  | .float f => f

def Number.exact : Number → ℚ
  | .pos_int n => n.toNat
  | .neg_int n => -(n + 1)
  | .float f => f.value

def Number.is_negative_zero : Number → Bool
  | .float f => f.is_negative_zero
  | _ => false

/-- One number, however it is spelled; zero and negative zero are two. -/
def Number.same (m n : Number) : Bool :=
  decide (m.exact = n.exact) && m.is_negative_zero == n.is_negative_zero

end Appcall.Connectors

namespace Appcall.Actions.Canonical

open Chars (split_once)
open Connectors (Number parse_i32 i32 as_i32)
open Decimal (Digits nat)

/-- What stops the canonical form: an error, or a panic. -/
inductive Fault
  | INVALID_ACTION_INPUT
  | panicked
  deriving DecidableEq

/-! ## Strings -/

/-- `str::replace`, of a character. -/
def replace (c : Char) (by_ text : List Char) : List Char :=
  text.flatMap (fun d => if d = c then by_ else [d])

def line_separator : Char := Char.ofNat 0x2028

def paragraph_separator : Char := Char.ofNat 0x2029

def string (value : List Char) : List Char :=
  replace paragraph_separator ['\\', 'u', '2', '0', '2', '9']
    (replace line_separator ['\\', 'u', '2', '0', '2', '8']
      (replace '&' ['\\', 'u', '0', '0', '2', '6']
        (replace '>' ['\\', 'u', '0', '0', '3', 'e']
          (replace '<' ['\\', 'u', '0', '0', '3', 'c'] (Json.quote value)))))

/-! ## Numbers -/

/-- `while digits.len() > 1 && digits.ends_with('0')`, on the digits in reverse. -/
def pop_zeros : List Char → List Char
  | '0' :: c :: digits => pop_zeros (c :: digits)
  | digits => digits

/-- A value of `i32`, or the panic of an overflow. -/
def checked (x : ℤ) : Except Fault ℤ :=
  match i32 x with
  | some x => .ok x
  | none => .error .panicked

/-- The digits of a mantissa, without the zeros at either end, and the place of its point. -/
def mantissa_digits (mantissa : List Char) (exponent : ℤ) : Except Fault (List Char × ℤ) :=
  let point := as_i32 ((mantissa.findIdx? (· == '.')).getD mantissa.length)
  let digits := mantissa.filter (· != '.')
  let leading := (digits.takeWhile (· == '0')).length
  (checked (point + exponent)).bind (fun decimal =>
    (checked (decimal - as_i32 leading)).map (fun decimal =>
      ((pop_zeros (digits.drop leading).reverse).reverse, decimal)))

/-- The digits of a text and the place of its point. -/
def digits_of (repr : List Char) : Except Fault (List Char × ℤ) :=
  match split_once (fun c => c == 'e' || c == 'E') repr with
  | none => mantissa_digits repr 0
  | some (m, e) =>
    match parse_i32 e with
    | none => .error .INVALID_ACTION_INPUT
    | some e => mantissa_digits m e

/-- `i32::to_string` -/
def write_i32 (x : ℤ) : List Char :=
  Numeral.sign (decide (x < 0)) ++ Decimal.write x.natAbs

/-- The text of digits: with an exponent if the number is very small or very large. -/
def layout (negative : Bool) (abs : ℚ) (digits : List Char) (decimal : ℤ) :
    Except Fault (List Char) :=
  if ¬(F64.nearest (1 / 10 ^ 6) ≤ abs ∧ abs < 10 ^ 21) then
    (checked (decimal - 1)).map (fun exp =>
      Numeral.sign negative ++ (digits.take 1
        ++ ((if 1 < digits.length then '.' :: digits.drop 1 else [])
        ++ 'e' :: ((if 0 ≤ exp then ['+'] else []) ++ write_i32 exp))))
  else if decimal ≤ 0 then
    .ok (Numeral.sign negative
      ++ '0' :: '.' :: (List.replicate (-decimal).toNat '0' ++ digits))
  else if digits.length ≤ decimal.toNat then
    .ok (Numeral.sign negative
      ++ (digits ++ List.replicate (decimal.toNat - digits.length) '0'))
  else
    .ok (Numeral.sign negative
      ++ (digits.take decimal.toNat ++ '.' :: digits.drop decimal.toNat))

/-- `number`, of a double that is finite. -/
def number (value : F64) : Except Fault (List Char) :=
  if value.magnitude = 0 then .ok (if value.negative then ['-', '0'] else ['0'])
  else
    (digits_of (F64.to_string { value with negative := false }).text).bind (fun d =>
      layout value.negative value.magnitude d.1 d.2)

/-! ## Values -/

def unsafe_integer : Number → Bool
  | .pos_int n => decide (9007199254740992 < n.toNat)
  | .neg_int n => decide (9007199254740992 < n.val + 1)
  | .float _ => false

mutual

def canonical : Value Number → Except Fault (List Char)
  | .null => .ok ['n', 'u', 'l', 'l']
  | .bool v => .ok (if v then ['t', 'r', 'u', 'e'] else ['f', 'a', 'l', 's', 'e'])
  | .string v => .ok (string v.toList)
  | .number v => if unsafe_integer v then .error .INVALID_ACTION_INPUT else number v.as_f64
  | .array values => (canonical_items values).map (fun texts =>
    '[' :: (List.intercalate [','] texts ++ [']']))
  | .object values => (canonical_fields values).map (fun fields =>
    '\x7b' :: (List.intercalate [','] ((by_name fields).map Prod.snd) ++ ['\x7d']))
termination_by structural v => v

def canonical_items : List (Value Number) → Except Fault (List (List Char))
  | [] => .ok []
  | v :: values => (canonical v).bind (fun text =>
    (canonical_items values).map (text :: ·))
termination_by structural values => values

def canonical_fields :
    List (String × Value Number) → Except Fault (List (String × List Char))
  | [] => .ok []
  | (k, v) :: values => (canonical v).bind (fun text =>
    (canonical_fields values).map ((k, string k.toList ++ ':' :: text) :: ·))
termination_by structural values => values

end

section Hash

variable (sha256 : List UInt8 → List UInt8)

/-- `{:x}` of the digest of a text. -/
def digest (raw : List Char) : List Char := Hex.write (sha256 (Json.bytes raw))

/-- `[brand, hash]` -/
def scope (brand : String) (hash : List Char) : Value Number :=
  .array [.string brand, .string (String.ofList hash)]

def scoped_input_hash (input : Value Number) (brand : String) : Except Fault (List Char) := do
  let raw ← canonical input
  let hash := digest sha256 raw
  if brand.isEmpty then .ok hash
  else do
    let scope ← canonical (scope brand hash)
    .ok ("scope-v1:".toList ++ digest sha256 scope)

end Hash

/-! ## Strings are read back -/

/-- How a character is written in the end. -/
def escape (c : Char) : List Char :=
  if c = '<' then ['\\', 'u', '0', '0', '3', 'c']
  else if c = '>' then ['\\', 'u', '0', '0', '3', 'e']
  else if c = '&' then ['\\', 'u', '0', '0', '2', '6']
  else if c = line_separator then ['\\', 'u', '2', '0', '2', '8']
  else if c = paragraph_separator then ['\\', 'u', '2', '0', '2', '9']
  else Json.escape_char c

theorem replace_none {c : Char} {by_ text : List Char} (h : c ∉ text) :
    replace c by_ text = text := by
  induction text with
  | nil => rfl
  | cons d text ih =>
    rw [List.mem_cons, not_or] at h
    rw [replace, List.flatMap_cons, if_neg (Ne.symm h.1)]
    exact congrArg (d :: ·) (ih h.2)

theorem replace_quoted {c : Char} (by_ s : List Char) (f : Char → List Char) (h : c ≠ '"') :
    replace c by_ ('"' :: s.flatMap f ++ ['"'])
      = '"' :: s.flatMap (fun d => replace c by_ (f d)) ++ ['"'] := by
  rw [replace, List.flatMap_append, List.flatMap_cons, if_neg (Ne.symm h), List.flatMap_assoc,
    List.flatMap_singleton, if_neg (Ne.symm h)]
  rfl

theorem escape_char_plain {c d : Char} (hd : d ∈ Json.escape_char c) (hne : d ≠ c) :
    d ∉ ['<', '>', '&', line_separator, paragraph_separator] := by
  have hall : Json.escape_alphabet.all
      (fun d => d ∉ ['<', '>', '&', line_separator, paragraph_separator]) = true := by
    decide
  exact of_decide_eq_true (List.all_eq_true.mp hall d ((Json.mem_escape_char hd).resolve_left hne))

theorem replace_escape_char (c : Char) :
    replace paragraph_separator ['\\', 'u', '2', '0', '2', '9']
      (replace line_separator ['\\', 'u', '2', '0', '2', '8']
        (replace '&' ['\\', 'u', '0', '0', '2', '6']
          (replace '>' ['\\', 'u', '0', '0', '3', 'e']
            (replace '<' ['\\', 'u', '0', '0', '3', 'c'] (Json.escape_char c))))) = escape c := by
  rw [escape]
  split_ifs with hlt hgt hamp hline hparagraph
  · subst hlt
    rfl
  · subst hgt
    rfl
  · subst hamp
    rfl
  · subst hline
    rfl
  · subst hparagraph
    rfl
  · have hplain : ∀ d ∈ ['<', '>', '&', line_separator, paragraph_separator],
        d ∉ Json.escape_char c := by
      intro d hd hmem
      by_cases heq : d = c
      · subst heq
        simp only [List.mem_cons, List.not_mem_nil, or_false] at hd
        tauto
      · exact escape_char_plain hmem heq hd
    rw [replace_none (hplain _ (by simp)), replace_none (hplain _ (by simp)),
      replace_none (hplain _ (by simp)), replace_none (hplain _ (by simp)),
      replace_none (hplain _ (by simp))]

/-- **The replacements amount to another escape of each character.** -/
theorem string_eq (value : List Char) : string value = Document.write_string escape value := by
  rw [string, Json.quote, replace_quoted _ _ _ (by decide), replace_quoted _ _ _ (by decide),
    replace_quoted _ _ _ (by decide), replace_quoted _ _ _ (by decide),
    replace_quoted _ _ _ (by decide)]
  simp only [replace_escape_char]
  rfl

theorem hex_digit_hex {n : ℕ} (h : n < 16) : Chars.hex_digit (Json.hex n) = some n := by
  have hall : ∀ n : Fin 16, Chars.hex_digit (Json.hex n) = some n.val := by decide
  exact hall ⟨n, h⟩

theorem read_escape_char (c : Char) (rest : List Char) :
    Document.read_char (Json.escape_char c ++ rest) = some (c, rest) := by
  rcases Json.escape_char_cases c with ⟨d, hd, hshort, heq⟩ | ⟨hcontrol, heq⟩ |
    ⟨hquote, hslash, hplain, heq⟩
  all_goals rw [heq]
  · simp only [List.mem_cons, List.not_mem_nil, or_false] at hd
    rcases hd with rfl | rfl | rfl | rfl | rfl | rfl | rfl
    all_goals
      cases hshort
      rfl
  · -- a control character in four digits
    have hunit : Document.read_unit
        ('0' :: '0' :: Json.hex (c.toNat / 16) :: Json.hex (c.toNat % 16) :: rest)
          = some (c.toNat, rest) := by
      have hzero : Chars.hex_digit '0' = some 0 := rfl
      have hvalue : ((0 * 16 + 0) * 16 + c.toNat / 16) * 16 + c.toNat % 16 = c.toNat := by omega
      rw [Document.read_unit, hzero, hex_digit_hex (by omega), hex_digit_hex (by omega)]
      exact congrArg (fun n => some (n, rest)) hvalue
    simp only [List.cons_append, List.nil_append]
    rw [Document.read_char, if_pos rfl, if_pos rfl, Document.read_unicode, hunit, Option.bind_some,
      if_neg (by omega), if_neg (by omega), Char.ofNat_toNat]
  · simp only [List.cons_append, List.nil_append]
    rw [Document.read_char.eq_def]
    dsimp only
    rw [if_neg hslash, if_neg (by
      rintro (h | h)
      · exact absurd h (not_lt.mpr hplain)
      · exact hquote h)]

theorem read_escape (c : Char) (rest : List Char) :
    Document.read_char (escape c ++ rest) = some (c, rest) := by
  rw [escape]
  split_ifs with hlt hgt hamp hline hparagraph
  · subst hlt
    rfl
  · subst hgt
    rfl
  · subst hamp
    rfl
  · subst hline
    rfl
  · subst hparagraph
    rfl
  · exact read_escape_char c rest

/-! ## Numbers are read back -/

theorem pop_zeros_eq {l : List Char} (h : ∃ c ∈ l, c ≠ '0') :
    pop_zeros l = l.dropWhile (· == '0') := by
  fun_induction pop_zeros l with
  | case1 c l ih =>
    rw [List.dropWhile_cons_of_pos (by decide)]
    refine ih ?_
    obtain ⟨d, hd, hne⟩ := h
    rcases List.mem_cons.mp hd with rfl | hd
    · exact absurd rfl hne
    · exact ⟨d, hd, hne⟩
  | case2 l hl =>
    obtain ⟨d, hd, hne⟩ := h
    cases l with
    | nil => cases hd
    | cons c l =>
      have hc : c ≠ '0' := by
        rintro rfl
        cases l with
        | nil => exact hne (List.mem_singleton.mp hd)
        | cons e l => exact hl e l rfl
      rw [List.dropWhile_cons_of_neg (by rw [beq_iff_eq]; exact hc)]

/-- **The digits and the point of a plain text are those of its key.** -/
theorem digits_of_text {n : Numeral} (hsign : n.negative = false) (hexponent : n.exponent = none)
    (hlength : n.unsigned.length ≤ 10000) (hne : Decimal.trim_start n.digits ≠ []) :
    digits_of n.text = .ok (n.key.digits, n.key.magnitude) := by
  have htext : n.text = n.mantissa := by
    rw [Numeral.text, Numeral.unsigned, hsign, hexponent, List.append_nil]
    rfl
  have hmantissa : n.mantissa.length ≤ 10000 := by
    rw [Numeral.unsigned, List.length_append] at hlength
    omega
  obtain ⟨hdigits, -⟩ := Connectors.mantissa_digits n
  -- the point follows the whole digits
  have hpoint : (n.mantissa.findIdx? (· == '.')).getD n.mantissa.length = n.whole.length := by
    have hwhole : n.whole.findIdx? (· == '.') = none := by
      rw [List.findIdx?_eq_none_iff]
      exact fun c hc => beq_eq_false_iff_ne.mpr (Connectors.digit_plain (n.whole_digits c hc)).2.2.1
    rw [Numeral.mantissa, List.findIdx?_append, hwhole]
    cases n.fraction with
    | none => simp
    | some f => simp [List.findIdx?_cons]
  have hwhole : n.whole.length ≤ n.mantissa.length := by
    rw [Numeral.mantissa, List.length_append]
    omega
  have hsplit := List.takeWhile_append_dropWhile (p := (· == '0')) (l := n.digits)
  have hdrop : n.digits.drop (n.digits.takeWhile (· == '0')).length
      = Decimal.trim_start n.digits := by
    have hleft : (n.digits.takeWhile (· == '0') ++ n.digits.dropWhile (· == '0')).drop
        (n.digits.takeWhile (· == '0')).length = n.digits.dropWhile (· == '0') := List.drop_left
    rwa [hsplit] at hleft
  have hlead := congrArg List.length hsplit
  rw [List.length_append] at hlead
  change _ + (Decimal.trim_start n.digits).length = _ at hlead
  have hcount : n.digits.length = n.whole.length + (n.fraction.getD []).length :=
    List.length_append
  have hend := congrArg List.length (Decimal.trim_end_append (Decimal.trim_start n.digits))
  rw [List.length_append, List.length_replicate] at hend
  have hle : n.digits.length ≤ 10000 := by
    rw [← hdigits]
    exact (List.length_filter_le _ _).trans hmantissa
  -- some digit is not zero, so that the zeros at the end stop there
  have hpop : (pop_zeros (Decimal.trim_start n.digits).reverse).reverse
      = Decimal.trim_end (Decimal.trim_start n.digits) := by
    rw [Decimal.trim_end, pop_zeros_eq]
    cases hstart : Decimal.trim_start n.digits with
    | nil => exact absurd hstart hne
    | cons c l =>
      refine ⟨c, List.mem_reverse.mpr List.mem_cons_self, ?_⟩
      rintro rfl
      exact Decimal.trim_start_ne _ l hstart
  have hscale : n.scale = -((n.fraction.getD []).length : ℤ) := by
    rw [Numeral.scale, hexponent]
    exact zero_sub _
  have hmagnitude : (n.whole.length : ℤ) - (n.digits.takeWhile (· == '0')).length
      = n.key.magnitude := by
    rw [Numeral.key, Key.of, if_neg hne, Key.magnitude, hscale]
    dsimp only
    omega
  have hkey : n.key.digits = Decimal.trim_end (Decimal.trim_start n.digits) := by
    rw [Numeral.key, Key.of, if_neg hne]
  have hsmall : ∀ x : ℤ, -10000 ≤ x ∧ x ≤ 10000 → checked x = .ok x := by
    intro x hx
    rw [checked, Connectors.i32_small (by omega) (by omega)]
  rw [digits_of, htext, Chars.split_once_none (Connectors.mantissa_plain n)]
  dsimp only
  rw [mantissa_digits, hpoint, hdigits, Connectors.as_i32_small (by omega),
    Connectors.as_i32_small (by omega), hsmall _ (by omega), Int.add_zero]
  change (checked _).map _ = _
  rw [hsmall _ (by omega), hdrop, hpop, hmagnitude, hkey]
  rfl

/-- **The layout of digits is a numeral of their value.** -/
theorem layout_eq (negative : Bool) (abs : ℚ) {digits : List Char} {point : ℤ}
    (hne : digits ≠ []) (hdigits : Digits digits) (hhead : ∀ t, digits ≠ '0' :: t)
    (hpoint : point.natAbs ≤ 5000) : ∃ n : Numeral, Document.Plain n ∧ n.negative = negative
      ∧ n.value = scaled negative (nat digits) (point - digits.length)
      ∧ layout negative abs digits point = .ok (Document.signed_text n) := by
  rw [layout]
  by_cases hfixed : ¬(F64.nearest (1 / 10 ^ 6) ≤ abs ∧ abs < 10 ^ 21)
  · cases digits with
    | nil => exact absurd rfl hne
    | cons c rest =>
      have hchecked : checked (point - 1) = .ok (point - 1) := by
        rw [checked, Connectors.i32_small (by omega) (by omega)]
      rw [if_pos hfixed, hchecked]
      refine ⟨.scientific negative c rest (point - 1) hdigits, ⟨fun _ => rfl, ?_⟩, rfl, ?_, ?_⟩
      · change (if rest = [] then none else some rest) ≠ some []
        split
        next => exact (Option.some_ne_none _).symm
        next hrest => exact fun h => hrest (Option.some.inj h)
      · rw [Numeral.scientific_value, List.length_cons]
        congr 1
        omega
      · have hexponent : (if 0 ≤ point - 1 then ['+'] else []) ++ write_i32 (point - 1)
            = (if decide (point - 1 < 0) = true then '-' else '+')
              :: Decimal.write (point - 1).natAbs := by
          rw [write_i32, Numeral.sign]
          by_cases hsign : point - 1 < 0
          · rw [decide_eq_true hsign, if_neg (by omega)]
            rfl
          · rw [decide_eq_false hsign, if_pos (by omega)]
            rfl
        simp only [Except.map]
        rw [hexponent]
        cases rest with
        | nil => rfl
        | cons d rest => rfl
  · -- without an exponent, the first digit only is a zero
    have hfirst : digits.head? ≠ some '0' := by
      cases digits with
      | nil => exact absurd rfl hne
      | cons c rest => exact fun hzero => hhead rest (Option.some.inj hzero ▸ rfl)
    rw [if_neg hfixed]
    refine ⟨.positional negative digits point hne hdigits, ⟨?_, ?_⟩, rfl,
      Numeral.positional_value _ _ _ _, ?_⟩
    · rw [Numeral.positional]
      dsimp only
      split_ifs with hlow hinside
      · exact fun _ => rfl
      · rw [List.head?_take, if_neg (by omega)]
        exact fun hzero => absurd hzero hfirst
      · rw [List.head?_append_of_ne_nil _ hne]
        exact fun hzero => absurd hzero hfirst
    · rw [Numeral.positional]
      dsimp only
      split_ifs with hlow hinside
      · rw [Ne, Option.some.injEq]
        exact List.append_ne_nil_of_right_ne_nil _ hne
      · rw [Ne, Option.some.injEq, List.drop_eq_nil_iff]
        omega
      · exact (Option.some_ne_none _).symm
    · rw [Document.signed_text, Numeral.positional]
      dsimp only
      split_ifs with hlow hinside hinside'
      · rw [List.append_nil]
        rfl
      · omega
      · simp only [List.append_nil]
      · rw [List.append_nil]
      · omega

/-- **The text of a double is a numeral that is read as the double.** -/
theorem number_eq (f : F64) : ∃ n : Numeral, Document.Plain n ∧ F64.read n = some f
    ∧ number f = .ok (Document.signed_text n) := by
  by_cases hzero : f.magnitude = 0
  · have hdigits : Digits ['0'] := Decimal.digits_cons.mpr ⟨rfl, Digits.nil⟩
    refine ⟨.positional f.negative ['0'] 1 (by decide) hdigits, ⟨fun _ => rfl, ?_⟩, ?_, ?_⟩
    · exact (Option.some_ne_none _).symm
    · refine F64.read_eq rfl ?_
      rw [Numeral.positional_value]
      have hnat : nat ['0'] = 0 := rfl
      rw [hnat, scaled_zero, abs_zero, ← hzero]
      exact F64.nearest_self f.finite
    · rw [number, if_pos hzero]
      cases hsign : f.negative with
      | true => rfl
      | false => rfl
  · -- the text is that of the number without its sign
    have habs : ({ f with negative := false } : F64).magnitude ≠ 0 := hzero
    have hproper := F64.key_proper habs
    obtain ⟨hlength, hpoint⟩ := F64.to_string_length habs
    obtain ⟨n, hplain, hsign, hvalue, hlayout⟩ := layout_eq f.negative f.magnitude hproper.ne_nil
      hproper.digits hproper.head hpoint
    rw [number, if_neg hzero, digits_of_text rfl rfl hlength (F64.trim_to_string habs),
      F64.key_to_string]
    refine ⟨n, hplain, F64.read_of_key hsign ?_, hlayout⟩
    have hkey : |f.key.value| = |({ f with negative := false } : F64).key.value| := by
      rw [F64.key_value, F64.key_value, F64.abs_scaled, F64.abs_scaled]
      rfl
    rw [hvalue, hkey, F64.key_sign, F64.abs_scaled, F64.abs_scaled, Key.magnitude,
      add_sub_cancel_left]

def number_text (f : F64) : List Char :=
  match number f with
  | .ok text => text
  | .error _ => []

theorem number_ok (f : F64) : number f = .ok (number_text f) := by
  obtain ⟨n, -, -, h⟩ := number_eq f
  rw [number_text, h]

/-- **Everything that is written is read back.** -/
theorem readable : Document.Readable escape number_text F64.read where
  reads_char := read_escape
  char_begins c := by
    have hescape := read_escape c []
    cases h : escape c with
    | nil =>
      rw [h] at hescape
      cases hescape
    | cons d l =>
      refine ⟨d, l, rfl, ?_⟩
      rintro rfl
      rw [h, List.cons_append, Document.read_char.eq_def] at hescape
      dsimp only at hescape
      rw [if_neg (by decide), if_pos (.inr rfl)] at hescape
      cases hescape
  reads_number f rest hrest := by
    obtain ⟨n, hplain, hread, htext⟩ := number_eq f
    refine ⟨n, ?_, hread⟩
    rw [number_text, htext]
    exact Document.read_numeral_text hplain hrest
  number_begins f := by
    obtain ⟨n, -, -, htext⟩ := number_eq f
    rw [number_text, htext]
    dsimp only
    rw [Document.signed_text]
    cases n.negative with
    | true => exact ⟨_, _, rfl, .inl rfl⟩
    | false =>
      cases hwhole : n.whole with
      | nil => exact absurd hwhole n.whole_ne
      | cons c l =>
        exact ⟨c, _, rfl, .inr (n.whole_digits c (hwhole ▸ List.mem_cons_self))⟩

/-! ## The canonical text -/

/-- No number in the value is an integer that a double may not hold. -/
def Safe (v : Value Number) : Prop :=
  ∀ n, Value.Part v (.number n) → unsafe_integer n = false

/-- The value as it is hashed: its numbers are doubles, and its fields in order. -/
def normal (v : Value Number) : Value F64 := (v.map Number.as_f64).sorted

def text (v : Value Number) : List Char := Document.write escape number_text (normal v)

theorem text_array (values : List (Value Number)) : text (.array values)
    = '[' :: (List.intercalate [','] (values.map text) ++ [']']) := by
  rw [text, normal, Value.map, Value.sorted, Document.write, Document.write_items_eq,
    Value.sorted_items_eq, Value.map_items_eq, List.map_map, List.map_map]
  rfl

theorem text_object (values : List (String × Value Number)) : text (.object values)
    = '\x7b' :: (List.intercalate [','] ((by_name (values.map (fun f =>
      (f.1, string f.1.toList ++ ':' :: text f.2)))).map Prod.snd) ++ ['\x7d']) := by
  have hfields : values.map (fun f => (f.1, string f.1.toList ++ ':' :: text f.2))
      = ((values.map (fun f => (f.1, normal f.2))).map (fun f => (f.1,
        string f.1.toList ++ ':' :: Document.write escape number_text f.2))) := by
    rw [List.map_map]
    rfl
  rw [hfields, by_name_map (fun name v => string name.toList
    ++ ':' :: Document.write escape number_text v), text, normal, Value.map, Value.sorted,
    Document.write, Document.write_fields_eq, Value.sorted_fields_eq, Value.map_fields_eq,
    List.map_map, List.map_map]
  simp only [string_eq]
  rfl

theorem canonical_items_ok {values : List (Value Number)}
    (h : ∀ v ∈ values, canonical v = .ok (text v)) :
    canonical_items values = .ok (values.map text) := by
  induction values with
  | nil => rfl
  | cons v values ih =>
    rw [canonical_items, h v List.mem_cons_self, ih fun w hw => h w (List.mem_cons_of_mem _ hw)]
    rfl

variable {values : List (String × Value Number)}

theorem canonical_fields_ok (h : ∀ f ∈ values, canonical f.2 = .ok (text f.2)) :
    canonical_fields values
      = .ok (values.map (fun f => (f.1, string f.1.toList ++ ':' :: text f.2))) := by
  induction values with
  | nil => rfl
  | cons f values ih =>
    obtain ⟨k, v⟩ := f
    have hv : canonical v = .ok (text v) := h (k, v) List.mem_cons_self
    rw [canonical_fields, hv, ih fun w hw => h w (List.mem_cons_of_mem _ hw)]
    rfl

/-- **A value without unsafe integers has the text of its normal form.** -/
theorem canonical_safe {v : Value Number} (h : Safe v) : canonical v = .ok (text v) := by
  induction v using Value.induct with
  | null => rfl
  | bool b => cases b <;> rfl
  | string s => exact congrArg Except.ok (string_eq s.toList)
  | number n =>
    rw [canonical, h n .refl, if_neg (by decide), number_ok]
    rfl
  | array values ih =>
    rw [canonical, canonical_items_ok fun v hv =>
      ih v hv fun n hn => h n ((Value.Part.refl.item hv).trans hn), text_array]
    rfl
  | object values ih =>
    rw [canonical, canonical_fields_ok fun f hf =>
      ih f hf fun n hn => h n ((Value.Part.refl.field hf).trans hn), text_object]
    rfl

theorem canonical_items_inv {values : List (Value Number)} {texts : List (List Char)}
    (h : canonical_items values = .ok texts) : ∀ v ∈ values, ∃ t, canonical v = .ok t := by
  induction values generalizing texts with
  | nil => exact fun v hv => nomatch hv
  | cons v values ih =>
    rw [canonical_items] at h
    cases hv : canonical v with
    | error e =>
      rw [hv] at h
      cases h
    | ok t =>
      rw [hv] at h
      cases hvalues : canonical_items values with
      | error e =>
        simp only [Except.bind, hvalues] at h
        cases h
      | ok ts =>
        exact List.forall_mem_cons.mpr ⟨⟨t, hv⟩, ih hvalues⟩

theorem canonical_fields_inv {fields : List (String × List Char)}
    (h : canonical_fields values = .ok fields) : ∀ f ∈ values, ∃ t, canonical f.2 = .ok t := by
  induction values generalizing fields with
  | nil => exact fun v hv => nomatch hv
  | cons f values ih =>
    obtain ⟨k, v⟩ := f
    rw [canonical_fields] at h
    cases hv : canonical v with
    | error e =>
      rw [hv] at h
      cases h
    | ok t =>
      rw [hv] at h
      cases hvalues : canonical_fields values with
      | error e =>
        simp only [Except.bind, hvalues] at h
        cases h
      | ok ts =>
        exact List.forall_mem_cons.mpr ⟨⟨t, hv⟩, ih hvalues⟩

theorem safe_of_ok {v : Value Number} {t : List Char} (h : canonical v = .ok t) : Safe v := by
  induction v using Value.induct generalizing t with
  | null =>
    exact fun n hn => nomatch Value.part_leaf (by simp) (by simp) hn
  | bool b =>
    exact fun n hn => nomatch Value.part_leaf (by simp) (by simp) hn
  | string s =>
    exact fun n hn => nomatch Value.part_leaf (by simp) (by simp) hn
  | number m =>
    intro n hn
    cases Value.part_leaf (by simp) (by simp) hn
    rw [canonical] at h
    cases hunsafe : unsafe_integer m with
    | false => rfl
    | true =>
      rw [if_pos hunsafe] at h
      cases h
  | array values ih =>
    intro n hn
    rw [canonical] at h
    cases hitems : canonical_items values with
    | error e =>
      rw [hitems] at h
      cases h
    | ok texts =>
      rcases Value.part_array hn with heq | ⟨v, hv, hn⟩
      · cases heq
      · obtain ⟨t, ht⟩ := canonical_items_inv hitems v hv
        exact ih v hv ht n hn
  | object values ih =>
    intro n hn
    rw [canonical] at h
    cases hfields : canonical_fields values with
    | error e =>
      rw [hfields] at h
      cases h
    | ok fields =>
      rcases Value.part_object hn with heq | ⟨f, hf, hn⟩
      · cases heq
      · obtain ⟨t, ht⟩ := canonical_fields_inv hfields f hf
        exact ih f hf ht n hn

/-! ## Numbers that are the same -/

theorem of_nat_exact {negative : Bool} {n : ℕ} (h : n < 2 ^ 64) (hn : n ≤ 9007199254740992) :
    (F64.of_nat negative n h).magnitude = n := by
  rcases hn.lt_or_eq with hlt | rfl
  · exact F64.of_nat_small h hlt
  · have hexact : F64.significand 9007199254740992 * 2 ^ F64.excess 9007199254740992
        = 9007199254740992 := by
      decide
    change (F64.significand 9007199254740992 * 2 ^ F64.excess 9007199254740992 : ℚ)
      = (9007199254740992 : ℕ)
    exact_mod_cast hexact

theorem as_f64_exact {n : Number} (h : unsafe_integer n = false) :
    n.as_f64.value = n.exact ∧ n.as_f64.is_negative_zero = n.is_negative_zero := by
  cases n with
  | pos_int n =>
    rw [unsafe_integer, decide_eq_false_iff_not] at h
    refine ⟨?_, rfl⟩
    change (F64.of_nat false n.toNat n.toNat_lt).magnitude = n.toNat
    exact of_nat_exact _ (by omega)
  | neg_int n =>
    rw [unsafe_integer, decide_eq_false_iff_not] at h
    have hmagnitude := @of_nat_exact true (n + 1)
      (Nat.lt_of_le_of_lt n.isLt (by decide)) (by omega)
    refine ⟨?_, ?_⟩
    · change -(F64.of_nat true (n + 1) (Nat.lt_of_le_of_lt n.isLt (by decide))).magnitude
        = -((n : ℚ) + 1)
      rw [hmagnitude]
      push_cast
      rfl
    · have hne : ¬((n.val + 1 : ℕ) : ℚ) = 0 := by exact_mod_cast Nat.succ_ne_zero n.val
      rw [Number.as_f64, F64.is_negative_zero, hmagnitude, decide_eq_false hne, Bool.and_false]
      rfl
  | float f => exact ⟨rfl, rfl⟩

theorem same_iff {m n : Number} (hm : unsafe_integer m = false) (hn : unsafe_integer n = false) :
    m.same n = true ↔ F64.same m.as_f64 n.as_f64 = true := by
  obtain ⟨hvalue, hzero⟩ := as_f64_exact hm
  obtain ⟨hvalue', hzero'⟩ := as_f64_exact hn
  rw [Number.same, Bool.and_eq_true, decide_eq_true_iff, beq_iff_eq, ← hvalue, ← hvalue',
    ← hzero, ← hzero', F64.same_iff]
  constructor
  · rintro ⟨hsame, hsign⟩
    cases h : m.as_f64.is_negative_zero with
    | false => exact F64.eq_of_value h (hsign ▸ h) hsame
    | true =>
      have h' : n.as_f64.is_negative_zero = true := hsign ▸ h
      rw [F64.is_negative_zero, Bool.and_eq_true, decide_eq_true_iff] at h h'
      rw [← F64.same_iff, F64.same, h.1, h'.1, h.2, h'.2]
      rfl
  · intro heq
    rw [heq]
    exact ⟨rfl, rfl⟩

section Identity

variable {v w : Value Number}

theorem alike_iff (hv : Safe v) (hw : Safe w) : v.alike Number.same w = true
    ↔ (v.map Number.as_f64).alike F64.same (w.map Number.as_f64) = true := by
  rw [Value.alike_map]
  constructor
  · exact Value.alike_mono fun m n hm hn => (same_iff (hv m hm) (hw n hn)).mp
  · exact Value.alike_mono fun m n hm hn => (same_iff (hv m hm) (hw n hn)).mpr

theorem alike_iff_normal (hv : v.Distinct) (hw : w.Distinct) (hsv : Safe v) (hsw : Safe w) :
    v.alike Number.same w = true ↔ normal v = normal w := by
  rw [alike_iff hsv hsw, Value.alike_iff_sorted (fun _ _ => F64.same_iff) (hv.map _)
    (hw.map _), normal, normal]

/-- **A text is the text of one normal form.** -/
theorem text_inj (h : text v = text w) : normal v = normal w := by
  have hv := Document.parse_write readable (normal v)
  rw [text, text] at h
  rw [h, Document.parse_write readable (normal w)] at hv
  exact (Option.some.inj hv).symm

end Identity

/-! ## The hash -/

section Scoped

variable (sha256 : List UInt8 → List UInt8)

/-- What is hashed for an input and a brand. -/
def hashed (input : Value Number) (brand : String) : List (List UInt8) :=
  match canonical input with
  | .error _ => []
  | .ok raw =>
    Json.bytes raw :: if brand.isEmpty then [] else
      match canonical (scope brand (digest sha256 raw)) with
      | .error _ => []
      | .ok scope => [Json.bytes scope]

/-- None of the one texts collides with one of the others. -/
def CollisionFree (xs ys : List (List UInt8)) : Prop :=
  ∀ x ∈ xs, ∀ y ∈ ys, sha256 x = sha256 y → x = y

variable {sha256}

theorem canonical_scope (brand : String) (hash : List Char) :
    canonical (scope brand hash) = .ok (text (scope brand hash)) := by
  refine canonical_safe fun n hn => ?_
  rcases Value.part_array hn with h | ⟨v, hv, hn⟩
  · cases h
  · rcases List.mem_pair.mp hv with rfl | rfl
    · exact nomatch Value.part_leaf (by simp) (by simp) hn
    · exact nomatch Value.part_leaf (by simp) (by simp) hn

theorem digest_inj {a b : List Char} (h : digest sha256 a = digest sha256 b)
    (hfree : sha256 (Json.bytes a) = sha256 (Json.bytes b) → Json.bytes a = Json.bytes b) :
    a = b := by
  have ha := Hex.read_write (sha256 (Json.bytes a))
  rw [digest, digest] at h
  rw [h, Hex.read_write] at ha
  exact Json.bytes_inj (hfree (Option.some.inj ha).symm)

theorem digest_ne (a b : List Char) : digest sha256 a ≠ "scope-v1:".toList ++ b := by
  have hhex : ∀ n : Fin 16, Json.hex n ≠ 's' := by decide
  intro h
  rw [digest] at h
  cases hbytes : sha256 (Json.bytes a) with
  | nil =>
    rw [hbytes] at h
    cases h
  | cons x bytes =>
    rw [hbytes, Hex.write, List.flatMap_cons, Hex.write_byte] at h
    have hlt := x.toNat_lt
    exact hhex ⟨x.toNat / 16, by omega⟩ (List.cons.inj h).1

theorem scope_inj {b c : String} {h h' : List Char}
    (heq : text (scope b h) = text (scope c h')) : b = c ∧ h = h' := by
  have hnormal := text_inj heq
  rw [normal, normal, scope, scope, Value.map, Value.map, Value.sorted, Value.sorted,
    Value.map_items_eq, Value.map_items_eq, Value.sorted_items_eq, Value.sorted_items_eq] at hnormal
  simp only [List.map_cons, List.map_nil, Value.map, Value.sorted, Value.array.injEq,
    List.cons.injEq, Value.string.injEq, and_true] at hnormal
  exact ⟨hnormal.1, by simpa using congrArg String.toList hnormal.2⟩

/-- **Equal hashes come from one brand and one text.** -/
theorem hash_inj {v w : Value Number} {b c : String} {s t : List Char} (hs : canonical v = .ok s)
    (ht : canonical w = .ok t)
    (hfree : CollisionFree sha256 (hashed sha256 v b) (hashed sha256 w c))
    (h : scoped_input_hash sha256 v b = scoped_input_hash sha256 w c) : b = c ∧ s = t := by
  rw [hashed, hashed, hs, ht] at hfree
  rw [scoped_input_hash, scoped_input_hash, hs, ht] at h
  dsimp only [canonical_scope] at hfree
  change (if b.isEmpty then Except.ok (digest sha256 s) else
    (canonical (scope b (digest sha256 s))).bind (fun scope =>
      .ok ("scope-v1:".toList ++ digest sha256 scope)) : Except Fault (List Char))
    = (if c.isEmpty then Except.ok (digest sha256 t) else
      (canonical (scope c (digest sha256 t))).bind (fun scope =>
        .ok ("scope-v1:".toList ++ digest sha256 scope))) at h
  rw [canonical_scope, canonical_scope] at h hfree
  have hraw := hfree _ List.mem_cons_self _ List.mem_cons_self
  by_cases hb : b.isEmpty
  · by_cases hc : c.isEmpty
    · rw [if_pos hb, if_pos hc, Except.ok.injEq] at h
      rw [String.isEmpty_iff] at hb hc
      exact ⟨hb.trans hc.symm, digest_inj h hraw⟩
    · rw [if_pos hb, if_neg hc] at h
      exact absurd (Except.ok.inj h) (digest_ne _ _)
  · by_cases hc : c.isEmpty
    · rw [if_neg hb, if_pos hc] at h
      exact absurd (Except.ok.inj h).symm (digest_ne _ _)
    · rw [if_neg hb, if_neg hc] at h
      have hscope := hfree (Json.bytes (text (scope b (digest sha256 s))))
        (by rw [if_neg hb]; simp) (Json.bytes (text (scope c (digest sha256 t))))
        (by rw [if_neg hc]; simp)
      obtain ⟨hbrand, hhash⟩ := scope_inj
        (digest_inj (List.append_cancel_left (Except.ok.inj h)) hscope)
      exact ⟨hbrand, digest_inj hhash hraw⟩

end Scoped

/-- **The canonical form identifies inputs.** The texts of two values are equal exactly when
the values are, up to the order of fields and the spelling of numbers; each is JSON, and read
as its value with the same doubles; and hashes without a collision are of one brand and one
value. -/
theorem canonical_identifies {v w : Value Number} (hv : v.Distinct) (hw : w.Distinct)
    {s t : List Char} (hs : canonical v = .ok s) (ht : canonical w = .ok t) :
    (s = t ↔ v.alike Number.same w = true)
      ∧ (∃ u, Document.parse F64.read s = some u
        ∧ u.alike F64.same (v.map Number.as_f64) = true)
      ∧ ∀ sha256 b c, CollisionFree sha256 (hashed sha256 v b) (hashed sha256 w c) →
        scoped_input_hash sha256 v b = scoped_input_hash sha256 w c →
          b = c ∧ v.alike Number.same w = true := by
  have hsv := safe_of_ok hs
  have hsw := safe_of_ok ht
  have hiff : s = t ↔ v.alike Number.same w = true := by
    rw [canonical_safe hsv, Except.ok.injEq] at hs
    rw [canonical_safe hsw, Except.ok.injEq] at ht
    rw [alike_iff_normal hv hw hsv hsw, ← hs, ← ht]
    exact ⟨text_inj, congrArg (Document.write escape number_text)⟩
  refine ⟨hiff, ⟨normal v, ?_, ?_⟩, fun sha256 b c hfree hhash => ?_⟩
  · rw [canonical_safe hsv, Except.ok.injEq] at hs
    rw [← hs]
    exact Document.parse_write readable (normal v)
  · exact Value.sorted_alike (fun f => F64.same_iff.mpr rfl) (hv.map _)
  · obtain ⟨hbrand, htext⟩ := hash_inj hs ht hfree hhash
    exact ⟨hbrand, hiff.mp htext⟩

namespace Sample

/-- An input, and the same with its fields and one of its numbers written otherwise. -/
def spelled : Value Number :=
  .object [("a", .number (.pos_int 1)),
    ("b", .array [.number (.float (F64.of_nat true 0 (by decide)))])]

def respelled : Value Number :=
  .object [("b", .array [.number (.float (F64.of_nat true 0 (by decide)))]),
    ("a", .number (.float (F64.of_nat false 1 (by decide))))]

end Sample

open Sample in
/-- Two spellings of one input have one identity. -/
theorem spellings_identified : spelled.alike Number.same respelled = true
    ∧ ∀ b c, scoped_input_hash id spelled b = scoped_input_hash id respelled c → b = c := by
  have hspelled : spelled.Distinct := .object (by decide) (by
    simp only [List.forall_mem_cons, List.not_mem_nil, IsEmpty.forall_iff, implies_true, and_true]
    exact ⟨.number _, .array (by simp [Value.Distinct.number])⟩)
  have hrespelled : respelled.Distinct := .object (by decide) (by
    simp only [List.forall_mem_cons, List.not_mem_nil, IsEmpty.forall_iff, implies_true, and_true]
    exact ⟨.array (by simp [Value.Distinct.number]), .number _⟩)
  have hs : canonical spelled = .ok "\x7b\"a\":1,\"b\":[-0]\x7d".toList := by decide +kernel
  have ht : canonical respelled = .ok "\x7b\"a\":1,\"b\":[-0]\x7d".toList := by decide +kernel
  obtain ⟨hsame, -, hhash⟩ := canonical_identifies hspelled hrespelled hs ht
  exact ⟨hsame.mp rfl, fun b c h => (hhash id b c (fun _ _ _ _ heq => heq) h).1⟩

end Appcall.Actions.Canonical
