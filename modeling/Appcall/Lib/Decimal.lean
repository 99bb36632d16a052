/-
Decimal numbers.

A number is written with its digits, the first one not zero, and read back from any
digits.
-/
import Mathlib.Data.Nat.Digits.Lemmas

set_option autoImplicit false

namespace Appcall.Decimal

def digit (d : ℕ) : Char := Char.ofNat (48 + d)

def value (c : Char) : ℕ := c.toNat - 48

/-- The digits of a number, the first one first. -/
def write (n : ℕ) : List Char :=
  if n = 0 then [digit 0] else (Nat.digits 10 n).reverse.map digit

/-- The digits of an integer, after its sign. -/
def write_int (n : ℤ) : List Char := if n < 0 then '-' :: write n.natAbs else write n.natAbs

def read (text : List Char) : Option ℕ :=
  if text.isEmpty || !text.all Char.isDigit then none
  else some (text.foldl (fun n c => 10 * n + value c) 0)

theorem digit_plain {d : ℕ} (h : d < 10) :
    (digit d).isDigit = true ∧ value (digit d) = d ∧ (digit d).utf8Size = 1 := by
  have hall : ∀ d : Fin 10, (digit d).isDigit = true ∧ value (digit d) = d.val
      ∧ (digit d).utf8Size = 1 := by decide
  exact hall ⟨d, h⟩

theorem mem_write {n : ℕ} {c : Char} (h : c ∈ write n) : c.isDigit = true ∧ c.utf8Size = 1 := by
  rw [write] at h
  split at h
  · rw [List.mem_singleton.mp h]
    exact ⟨(digit_plain (by omega)).1, (digit_plain (by omega)).2.2⟩
  · obtain ⟨d, hd, rfl⟩ := List.mem_map.mp h
    have hlt : d < 10 := Nat.digits_lt_base (by omega) (List.mem_reverse.mp hd)
    exact ⟨(digit_plain hlt).1, (digit_plain hlt).2.2⟩

theorem write_ne_nil (n : ℕ) : write n ≠ [] := by
  rw [write]
  split
  · exact List.cons_ne_nil _ _
  next h =>
    rw [Ne, List.map_eq_nil_iff, List.reverse_eq_nil_iff, Nat.digits_eq_nil_iff_eq_zero]
    exact h

theorem foldl_digits (l : List ℕ) (h : ∀ d ∈ l, d < 10) :
    (l.reverse.map digit).foldl (fun n c => 10 * n + value c) 0 = Nat.ofDigits 10 l := by
  induction l with
  | nil => rfl
  | cons d l ih =>
    rw [List.reverse_cons, List.map_append, List.foldl_append,
      ih (fun d hd => h d (List.mem_cons_of_mem _ hd)), List.map_singleton, List.foldl_cons,
      List.foldl_nil, (digit_plain (h d List.mem_cons_self)).2.1, Nat.ofDigits_cons]
    omega

/-- **A number that is written is read back.** -/
theorem read_write (n : ℕ) : read (write n) = some n := by
  have hall : (write n).all Char.isDigit = true :=
    List.all_eq_true.mpr fun c hc => (mem_write hc).1
  have hempty : (write n).isEmpty = false := by
    rw [List.isEmpty_eq_false_iff]
    exact write_ne_nil n
  rw [read, hall, hempty, if_neg (by decide), write]
  congr 1
  split
  next hzero =>
    rw [hzero]
    decide
  next =>
    rw [foldl_digits _ fun d hd => Nat.digits_lt_base (by omega) hd, Nat.ofDigits_digits]

theorem length_write {n k : ℕ} (h : n < 10 ^ k) (hk : 0 < k) : (write n).length ≤ k := by
  rw [write]
  split
  · exact hk
  · rw [List.length_map, List.length_reverse]
    exact (Nat.digits_length_le_iff (by omega) n).mpr h

end Appcall.Decimal
