/-
Texts as sequences of 16-bit units.

A character beyond the first 65536 is a pair of surrogates. Not every sequence of units is the
text of characters: a surrogate without its other half stands for none.
-/
import Mathlib.Data.List.Basic
import Mathlib.Tactic.Common

set_option autoImplicit false

namespace Appcall.Utf16

def encode_char (c : Char) : List UInt16 :=
  if c.toNat < 65536 then [UInt16.ofNat c.toNat]
  else [UInt16.ofNat (55296 + (c.toNat - 65536) / 1024), UInt16.ofNat (56320 + c.toNat % 1024)]

def encode (text : List Char) : List UInt16 := text.flatMap encode_char

def is_high (u : UInt16) : Bool := decide (55296 ≤ u.toNat ∧ u.toNat < 56320)

def is_low (u : UInt16) : Bool := decide (56320 ≤ u.toNat ∧ u.toNat < 57344)

/-- The character of a pair of surrogates. -/
def pair (u v : UInt16) : Char :=
  Char.ofNat (65536 + 1024 * (u.toNat - 55296) + (v.toNat - 56320))

/-- The characters of a text, with nothing for a surrogate that stands alone. -/
def scalars : List UInt16 → List (Option Char)
  | [] => []
  | [u] => [if is_high u || is_low u then none else some (Char.ofNat u.toNat)]
  | u :: v :: rest =>
    if is_high u && is_low v then some (pair u v) :: scalars rest
    else (if is_high u || is_low u then none else some (Char.ofNat u.toNat)) :: scalars (v :: rest)

/-! ## Units of characters -/

theorem toNat_ofNat {n : ℕ} (h : n < 55296 ∨ (57343 < n ∧ n < 1114112)) :
    (Char.ofNat n).toNat = n := by
  have hvalid : n.isValidChar := h
  rw [Char.ofNat, dif_pos hvalid]
  rfl

theorem toNat_own {u : UInt16} (h : (is_high u || is_low u) = false) :
    (Char.ofNat u.toNat).toNat = u.toNat := by
  have hlt := u.toNat_lt
  rw [Bool.or_eq_false_iff, is_high, is_low, decide_eq_false_iff_not, decide_eq_false_iff_not] at h
  exact toNat_ofNat (by omega)

theorem toNat_pair {u v : UInt16} (hu : is_high u = true) (hv : is_low v = true) :
    65536 ≤ (pair u v).toNat := by
  rw [is_high, decide_eq_true_iff] at hu
  rw [is_low, decide_eq_true_iff] at hv
  rw [pair, toNat_ofNat (by omega)]
  omega

theorem mem_encode {c : Char} (hc : c.toNat < 128) {text : List Char}
    (h : UInt16.ofNat c.toNat ∈ encode text) : c ∈ text := by
  obtain ⟨d, hd, h⟩ := List.mem_flatMap.mp h
  have hunit : (UInt16.ofNat c.toNat).toNat = c.toNat := by
    rw [UInt16.toNat_ofNat']
    omega
  rw [encode_char] at h
  split at h
  next hsmall =>
    rw [List.mem_singleton] at h
    have heq : c.toNat = d.toNat := by
      rw [← hunit, h, UInt16.toNat_ofNat']
      omega
    rwa [Char.toNat_inj.mp heq]
  next hlarge =>
    -- a surrogate is no ASCII unit
    have hmax : d.toNat < 1114112 := by
      rcases d.valid with hvalid | ⟨-, hvalid⟩
      · exact Nat.lt_of_lt_of_le hvalid (by decide)
      · exact hvalid
    rcases List.mem_pair.mp h with h | h
    all_goals
      rw [h, UInt16.toNat_ofNat'] at hunit
      omega

theorem map_encode {text : List Char} (h : ∀ c ∈ text, c.toNat < 128) :
    (encode text).map (fun u => Char.ofNat u.toNat) = text := by
  induction text with
  | nil => rfl
  | cons c text ih =>
    obtain ⟨hc, hrest⟩ := List.forall_mem_cons.mp h
    have hunit : (UInt16.ofNat c.toNat).toNat = c.toNat := by
      rw [UInt16.toNat_ofNat']
      omega
    rw [encode, List.flatMap_cons, encode_char, if_pos (by omega), List.map_append]
    exact congrArg₂ List.cons ((congrArg Char.ofNat hunit).trans (Char.ofNat_toNat c)) (ih hrest)

theorem encode_append (a b : List Char) : encode (a ++ b) = encode a ++ encode b :=
  List.flatMap_append

end Appcall.Utf16
