/-
Counting the elements of a list of which one is replaced.
-/
import Mathlib.Data.List.Basic

set_option autoImplicit false

namespace Appcall

variable {α : Type*} {l : List α} {i : ℕ} {a b : α}

theorem countP_set_of_getElem? (h : l[i]? = some a) (p : α → Bool) :
    (l.set i b).countP p + (if p a then 1 else 0) = l.countP p + (if p b then 1 else 0) := by
  obtain ⟨hi, ha⟩ := List.getElem?_eq_some_iff.mp h
  rw [List.countP_set hi, ha]
  by_cases hp : p a = true
  · have hpos : 0 < l.countP p := List.countP_pos_iff.mpr ⟨a, List.mem_of_getElem? h, hp⟩
    rw [if_pos hp]
    omega
  · rw [if_neg hp]
    omega

theorem countP_set_add (h : l[i]? = some a) (p : α → Bool) (hb : p b = false) :
    (l.set i b).countP p + (if p a then 1 else 0) = l.countP p := by
  have hset := countP_set_of_getElem? (b := b) h p
  rwa [hb, if_neg Bool.false_ne_true] at hset

end Appcall
