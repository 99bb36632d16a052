/-
Queries and transactions over keyed tables.

A query selects the rows that meet a condition, in an order, up to a limit. A
transaction is a computation that may fail and gives a new state when it does not; a
failed one is rolled back.
-/
import Appcall.Lib.Table
import Mathlib.Data.List.Sort

set_option autoImplicit false

namespace Appcall

/-! ## Selections -/

namespace Table

variable {ρ κ : Type} {key : ρ → κ}

/-- `SELECT ... WHERE p ORDER BY le LIMIT limit`. -/
def select (t : Table key) (p : ρ → Bool) (le : ρ → ρ → Prop) [DecidableRel le]
    (limit : ℕ) : List ρ :=
  ((t.rows.filter p).insertionSort le).take limit

variable {t : Table key} {p : ρ → Bool} {le : ρ → ρ → Prop} [DecidableRel le]

variable {limit : ℕ}

theorem mem_select {r : ρ} (h : r ∈ t.select p le limit) : r ∈ t.rows ∧ p r = true := by
  have hsorted : r ∈ (t.rows.filter p).insertionSort le := List.mem_of_mem_take h
  rw [List.mem_insertionSort] at hsorted
  exact List.mem_filter.mp hsorted

theorem find_of_mem_select [DecidableEq κ] {r : ρ} (h : r ∈ t.select p le limit) :
    t.find (key r) = some r :=
  find_eq_some.mpr ⟨(mem_select h).1, rfl⟩

theorem select_congr {q : ρ → Bool} (h : ∀ r ∈ t.rows, p r = q r) :
    t.select p le limit = t.select q le limit := by
  rw [select, select, List.filter_congr h]

theorem take_select {n : ℕ} (h : n ≤ limit) : (t.select p le limit).take n = t.select p le n := by
  rw [select, select, List.take_take, Nat.min_eq_left h]

end Table

/-! ## Transactions -/

section Transactions

variable {ε α β σ : Type}

theorem bind_eq_ok {x : Except ε α} {f : α → Except ε β} {b : β} (h : x >>= f = .ok b) :
    ∃ a, x = .ok a ∧ f a = .ok b := by
  cases x with
  | error e => cases h
  | ok a => exact ⟨a, rfl, h⟩

theorem forM_ok {f : α → Except ε Unit} {l : List α} (h : l.forM f = .ok ()) :
    ∀ a ∈ l, f a = .ok () := by
  induction l with
  | nil => exact fun a ha => nomatch ha
  | cons a l ih =>
    obtain ⟨_, hfirst, hrest⟩ := bind_eq_ok (x := f a) (f := fun _ => l.forM f) h
    exact List.forall_mem_cons.mpr ⟨hfirst, ih hrest⟩

/-- What a transaction leaves behind: its writes, or nothing when it failed. -/
def commit (s : σ) : Except ε (α × σ) → σ
  | .ok (_, s') => s'
  | .error _ => s

theorem commit_keeps {I : σ → Prop} {s : σ} {r : Except ε (α × σ)} (h0 : I s)
    (hok : ∀ a s', r = .ok (a, s') → I s') : I (commit s r) := by
  cases r with
  | error e => exact h0
  | ok w => exact hok w.1 w.2 rfl

end Transactions

end Appcall
