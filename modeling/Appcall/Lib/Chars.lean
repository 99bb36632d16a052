/-
Characters: their classes, their digits and where they split a text.

The classes are those the Rust crates (`char::is_control`) and the JavaScript of the runner
(`\s`) share. A byte has two hexadecimal digits, which are read in either case. A text is split
at the first character of a kind: what stands before it holds none of that kind, and together
with the character and the rest it is the text.
-/
import Mathlib.Data.List.Basic
import Mathlib.Tactic.Cases

set_option autoImplicit false

namespace Appcall.Chars

/-- `char::is_control` -/
def is_control (c : Char) : Bool :=
  decide (c.toNat < 32) || (decide (127 ≤ c.toNat) && decide (c.toNat < 160))

/-- `\s`, of a code point or of a unit of sixteen bits. -/
def space (n : ℕ) : Bool :=
  decide ((9 ≤ n ∧ n ≤ 13) ∨ (8192 ≤ n ∧ n ≤ 8202)
    ∨ n ∈ [32, 160, 5760, 8232, 8233, 8239, 8287, 12288, 65279])

/-- `\s` -/
def is_space (c : Char) : Bool := space c.toNat

/-! ## Hexadecimal digits -/

def hex_upper (n : ℕ) : Char := "0123456789ABCDEF".toList.getD n '0'

/-- A hexadecimal digit, in either case. -/
def hex_digit (c : Char) : Option ℕ :=
  if 48 ≤ c.toNat ∧ c.toNat ≤ 57 then some (c.toNat - 48)
  else if 97 ≤ c.toNat ∧ c.toNat ≤ 102 then some (c.toNat - 87)
  else if 65 ≤ c.toNat ∧ c.toNat ≤ 70 then some (c.toNat - 55)
  else none

/-- What holds of the 256 numbers holds of every byte. -/
theorem byte_cases {P : UInt8 → Prop} (h : ∀ n : Fin 256, P (UInt8.ofNat n)) (b : UInt8) : P b := by
  have hb := h ⟨b.toNat, b.toNat_lt⟩
  rwa [UInt8.ofNat_toNat] at hb

/-! ## A text in two -/

/-- `split_once`: what stands before the first character of a kind, and what follows it. -/
def split_once (at_ : Char → Bool) : List Char → Option (List Char × List Char)
  | [] => none
  | c :: l =>
    if at_ c then some ([], l)
    else (split_once at_ l).map (fun (before, after) => (c :: before, after))

variable {at_ : Char → Bool} {l l' : List Char}

theorem split_once_none (h : ∀ c ∈ l, at_ c = false) : split_once at_ l = none := by
  induction l with
  | nil => rfl
  | cons c l ih =>
    rw [split_once, h c List.mem_cons_self, if_neg (by decide),
      ih fun d hd => h d (List.mem_cons_of_mem _ hd)]
    rfl

theorem split_once_append {c : Char} (h : ∀ c ∈ l, at_ c = false) (hc : at_ c = true) :
    split_once at_ (l ++ c :: l') = some (l, l') := by
  induction l with
  | nil => rw [List.nil_append, split_once, if_pos hc]
  | cons d l ih =>
    rw [List.cons_append, split_once, h d List.mem_cons_self, if_neg (by decide),
      ih fun d hd => h d (List.mem_cons_of_mem _ hd)]
    rfl

/-- The two parts with the character between them are the text, and it is the first of its
kind. -/
theorem split_once_spec {text : List Char} (h : split_once at_ text = some (l, l')) :
    (∃ c, at_ c = true ∧ text = l ++ c :: l') ∧ ∀ d ∈ l, at_ d = false := by
  induction text generalizing l with
  | nil => cases h
  | cons c text ih =>
    rw [split_once] at h
    split at h
    next hc =>
      cases h
      exact ⟨⟨c, hc, rfl⟩, fun d hd => absurd hd List.not_mem_nil⟩
    next hc =>
      obtain ⟨⟨before, after⟩, hsplit, heq⟩ := Option.map_eq_some_iff.mp h
      cases heq
      obtain ⟨⟨e, he, htext⟩, hbefore⟩ := ih hsplit
      refine ⟨⟨e, he, by rw [htext, List.cons_append]⟩, fun d hd => ?_⟩
      rcases List.mem_cons.mp hd with rfl | hd
      · exact Bool.eq_false_iff.mpr hc
      · exact hbefore d hd

end Appcall.Chars
