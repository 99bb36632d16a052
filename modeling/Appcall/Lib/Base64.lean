/-
Base64 with the URL-safe alphabet and without padding.

Three bytes are four digits of six bits; one or two bytes at the end are two or three
digits, whose last bits are zero. What is decoded is read strictly: a digit outside the
alphabet, a single digit at the end or a last digit with bits left over is refused.
-/
import Mathlib.Data.List.Basic
import Mathlib.Tactic.Cases

set_option autoImplicit false

namespace Appcall.Base64

/-- `A-Z`, `a-z`, `0-9`, `-`, `_` -/
def alphabet : List Char :=
  "ABCDEFGHIJKLMNOPQRSTUVWXYZabcdefghijklmnopqrstuvwxyz0123456789-_".toList

def digit (n : ℕ) : Char := alphabet.getD n 'A'

def value (c : Char) : Option ℕ := alphabet.findIdx? (fun d => d == c)

def encode : List UInt8 → List Char
  | [] => []
  | [a] => [digit (a.toNat / 4), digit (a.toNat % 4 * 16)]
  | [a, b] =>
    [digit (a.toNat / 4), digit (a.toNat % 4 * 16 + b.toNat / 16), digit (b.toNat % 16 * 4)]
  | a :: b :: c :: rest =>
    digit (a.toNat / 4) :: digit (a.toNat % 4 * 16 + b.toNat / 16)
      :: digit (b.toNat % 16 * 4 + c.toNat / 64) :: digit (c.toNat % 64) :: encode rest

variable (a : UInt8) (bytes : List UInt8)

theorem encode_one : encode [a] = [digit (a.toNat / 4), digit (a.toNat % 4 * 16)] := rfl

theorem encode_two (b : UInt8) : encode [a, b] =
    [digit (a.toNat / 4), digit (a.toNat % 4 * 16 + b.toNat / 16),
      digit (b.toNat % 16 * 4)] := rfl

theorem encode_three (b c : UInt8) (rest : List UInt8) : encode (a :: b :: c :: rest) =
    digit (a.toNat / 4) :: digit (a.toNat % 4 * 16 + b.toNat / 16)
      :: digit (b.toNat % 16 * 4 + c.toNat / 64) :: digit (c.toNat % 64) :: encode rest := rfl

theorem encode_induction {P : List UInt8 → Prop} (nil : P []) (one : ∀ a, P [a])
    (two : ∀ a b, P [a, b]) (three : ∀ a b c rest, P rest → P (a :: b :: c :: rest))
    (bytes : List UInt8) : P bytes :=
  encode.induct P nil one two three bytes

def decode : List Char → Option (List UInt8)
  | [] => some []
  | [_] => none
  | [w, x] => do
    let w ← value w
    let x ← value x
    if x % 16 = 0 then some [UInt8.ofNat (w * 4 + x / 16)] else none
  | [w, x, y] => do
    let w ← value w
    let x ← value x
    let y ← value y
    if y % 4 = 0 then some [UInt8.ofNat (w * 4 + x / 16), UInt8.ofNat (x % 16 * 16 + y / 4)]
    else none
  | w :: x :: y :: z :: rest => do
    let w ← value w
    let x ← value x
    let y ← value y
    let z ← value z
    let bytes ← decode rest
    some (UInt8.ofNat (w * 4 + x / 16) :: UInt8.ofNat (x % 16 * 16 + y / 4)
      :: UInt8.ofNat (y % 4 * 64 + z) :: bytes)

theorem value_digit {n : ℕ} (h : n < 64) : value (digit n) = some n := by
  have hall : ∀ n : Fin 64, value (digit n) = some n.val := by decide +kernel
  exact hall ⟨n, h⟩

theorem digit_mem (n : ℕ) : digit n ∈ alphabet := by
  rw [digit, List.getD_eq_getElem?_getD]
  cases h : alphabet[n]? with
  | none => decide
  | some c => exact List.mem_of_getElem? h

theorem decode_encode : decode (encode bytes) = some bytes := by
  induction bytes using encode_induction with
  | nil => rfl
  | one a =>
    have ha := a.toNat_lt
    rw [encode_one, decode, value_digit (by omega), value_digit (by omega)]
    have hbyte : a.toNat / 4 * 4 + a.toNat % 4 * 16 / 16 = a.toNat := by omega
    dsimp only [bind, Option.bind]
    rw [if_pos (by omega), hbyte, UInt8.ofNat_toNat]
  | two a b =>
    have ha := a.toNat_lt
    have hb := b.toNat_lt
    rw [encode_two, decode, value_digit (by omega), value_digit (by omega), value_digit (by omega)]
    have hfirst : a.toNat / 4 * 4 + (a.toNat % 4 * 16 + b.toNat / 16) / 16 = a.toNat := by omega
    have hsecond : (a.toNat % 4 * 16 + b.toNat / 16) % 16 * 16 + b.toNat % 16 * 4 / 4
        = b.toNat := by omega
    dsimp only [bind, Option.bind]
    rw [if_pos (by omega), hfirst, hsecond, UInt8.ofNat_toNat, UInt8.ofNat_toNat]
  | three a b c rest ih =>
    have ha := a.toNat_lt
    have hb := b.toNat_lt
    have hc := c.toNat_lt
    rw [encode_three, decode, value_digit (by omega), value_digit (by omega),
      value_digit (by omega), value_digit (by omega), ih]
    have hfirst : a.toNat / 4 * 4 + (a.toNat % 4 * 16 + b.toNat / 16) / 16 = a.toNat := by omega
    have hsecond : (a.toNat % 4 * 16 + b.toNat / 16) % 16 * 16
        + (b.toNat % 16 * 4 + c.toNat / 64) / 4 = b.toNat := by omega
    have hthird : (b.toNat % 16 * 4 + c.toNat / 64) % 4 * 64 + c.toNat % 64 = c.toNat := by
      omega
    dsimp only [bind, Option.bind]
    rw [hfirst, hsecond, hthird, UInt8.ofNat_toNat, UInt8.ofNat_toNat, UInt8.ofNat_toNat]

theorem length_encode : (encode bytes).length = (4 * bytes.length + 2) / 3 := by
  induction bytes using encode_induction with
  | nil => rfl
  | one a => rw [encode_one, List.length_cons, List.length_singleton, List.length_singleton]
  | two a b => rw [encode_two, List.length_cons, List.length_cons, List.length_cons,
    List.length_nil,
      List.length_cons, List.length_singleton]
  | three a b c rest ih =>
    rw [encode_three]
    simp only [List.length_cons, ih]
    omega

theorem mem_encode {bytes : List UInt8} {c : Char} (h : c ∈ encode bytes) : c ∈ alphabet := by
  induction bytes using encode_induction with
  | nil => cases h
  | one a =>
    simp only [encode_one, List.mem_cons, List.not_mem_nil, or_false] at h
    rcases h with rfl | rfl <;> exact digit_mem _
  | two a b =>
    simp only [encode_two, List.mem_cons, List.not_mem_nil, or_false] at h
    rcases h with rfl | rfl | rfl <;> exact digit_mem _
  | three a b c' rest ih =>
    simp only [encode_three, List.mem_cons] at h
    rcases h with rfl | rfl | rfl | rfl | h
    · exact digit_mem _
    · exact digit_mem _
    · exact digit_mem _
    · exact digit_mem _
    · exact ih h

theorem alphabet_plain {c : Char} (h : c ∈ alphabet) : c.utf8Size = 1 ∧ c ≠ Char.ofNat 0 := by
  have hall : alphabet.all (fun c => c.utf8Size == 1 && c != Char.ofNat 0) = true := by
    decide
  have hc := List.all_eq_true.mp hall c h
  rw [Bool.and_eq_true, beq_iff_eq, bne_iff_ne] at hc
  exact hc

end Appcall.Base64
