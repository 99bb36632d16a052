/-
Machines that take one step at a time.

A machine is a function from a state and an operation to the next state; a run is a
list of operations. What a run keeps is proved from what one step keeps, for all
steps or for the steps that meet a condition in the state they are taken in.
-/
import Mathlib.Data.List.Basic
import Mathlib.Data.List.Induction
import Mathlib.Tactic.Cases

set_option autoImplicit false

namespace Appcall.Machine

variable {σ α : Type*} (step : σ → α → σ)

def run (s : σ) (ops : List α) : σ := ops.foldl step s

@[simp] theorem run_nil (s : σ) : run step s [] = s := rfl

@[simp] theorem run_cons (s : σ) (op : α) (ops : List α) :
    run step s (op :: ops) = run step (step s op) ops := rfl

@[simp] theorem run_append (s : σ) (ops ops' : List α) :
    run step s (ops ++ ops') = run step (run step s ops) ops' :=
  List.foldl_append

/-- Every step of the run meets the condition, in the state it is taken in. -/
def Meets (P : σ → α → Prop) : σ → List α → Prop
  | _, [] => True
  | s, op :: ops => P s op ∧ Meets P (step s op) ops

variable {step}

variable {P : σ → α → Prop} {s : σ} {ops : List α} {I : σ → Prop} {ε : Type*}
  {good : List ε → ε → Prop}

theorem meets_append {ops' : List α} : Meets step P s (ops ++ ops') ↔
      Meets step P s ops ∧ Meets step P (run step s ops) ops' := by
  induction ops generalizing s with
  | nil => exact ⟨fun h => ⟨trivial, h⟩, fun h => h.2⟩
  | cons op ops ih =>
    rw [List.cons_append, Meets, ih, Meets, run_cons, and_assoc]

theorem meets_of_forall {P : α → Prop} (h : ∀ op ∈ ops, P op) :
    Meets step (fun _ op => P op) s ops := by
  induction ops generalizing s with
  | nil => trivial
  | cons op ops ih =>
    exact ⟨h op List.mem_cons_self, ih (fun op hop => h op (List.mem_cons_of_mem _ hop))⟩

theorem Meets.imp {Q : σ → α → Prop} (h : Meets step P s ops) (hPQ : ∀ s op, P s op → Q s op) :
    Meets step Q s ops := by
  induction ops generalizing s with
  | nil => trivial
  | cons op ops ih => exact ⟨hPQ s op h.1, ih h.2⟩

/-- **The invariant rule.** What every step of the run keeps, the run keeps. -/
theorem Meets.keeps (hstep : ∀ s op, P s op → I s → I (step s op)) (h : Meets step P s ops)
    (h0 : I s) : I (run step s ops) := by
  induction ops generalizing s with
  | nil => exact h0
  | cons op ops ih => exact ih h.2 (hstep s op h.1 h0)

theorem run_keeps (hstep : ∀ s op, I s → I (step s op)) (h0 : I s) (ops : List α) :
    I (run step s ops) := by
  induction ops generalizing s with
  | nil => exact h0
  | cons op ops ih => exact ih (hstep s op h0)

theorem exists_step {P : σ → Prop} (h0 : ¬P s) (h : P (run step s ops)) :
    ∃ before op after, ops = before ++ op :: after
      ∧ ¬P (run step s before) ∧ P (step (run step s before) op) := by
  induction ops generalizing s with
  | nil => exact absurd h h0
  | cons op ops ih =>
    by_cases hop : P (step s op)
    · exact ⟨[], op, ops, rfl, h0, hop⟩
    · obtain ⟨before, op', after, heq, hbefore, hafter⟩ := ih hop h
      exact ⟨op :: before, op', after, by rw [heq, List.cons_append], hbefore, hafter⟩

/-! ## Steps that may fail -/

theorem foldlM_keeps {f : σ → α → Except ε σ} {s' : σ} (h : ops.foldlM f s = .ok s')
    (hstep : ∀ s op s', op ∈ ops → f s op = .ok s' → I s → I s') (h0 : I s) : I s' := by
  induction ops generalizing s with
  | nil =>
    cases h
    exact h0
  | cons op ops ih =>
    rw [List.foldlM_cons] at h
    cases hop : f s op with
    | error e =>
      rw [hop] at h
      cases h
    | ok t =>
      rw [hop] at h
      exact ih h (fun s op s' hmem => hstep s op s' (List.mem_cons_of_mem _ hmem))
        (hstep s op t List.mem_cons_self hop h0)

theorem foldl_keeps {f : σ → α → σ} (hstep : ∀ s op, op ∈ ops → I s → I (f s op)) (h0 : I s) :
    I (ops.foldl f s) := by
  induction ops generalizing s with
  | nil => exact h0
  | cons op ops ih =>
    exact ih (fun s op hmem => hstep s op (List.mem_cons_of_mem _ hmem))
      (hstep s op List.mem_cons_self h0)

/-! ## Counting steps -/

/-- The number of steps of the run that meet the condition, each in the state it is
taken in. -/
def tally (step : σ → α → σ) (P : σ → α → Prop) [∀ s op, Decidable (P s op)] :
    σ → List α → ℕ
  | _, [] => 0
  | s, op :: ops => (if P s op then 1 else 0) + tally step P (step s op) ops

theorem tally_append_singleton [∀ s op, Decidable (P s op)] (s : σ) (ops : List α) (op : α) :
    tally step P s (ops ++ [op])
      = tally step P s ops + if P (run step s ops) op then 1 else 0 := by
  induction ops generalizing s with
  | nil =>
    rw [List.nil_append, tally, tally, tally, run_nil, Nat.zero_add, Nat.add_zero]
  | cons op' ops ih =>
    rw [List.cons_append, tally, tally, ih, run_cons, Nat.add_assoc]

theorem tally_eq_zero [∀ s op, Decidable (P s op)] (h : Meets step (fun s op => ¬ P s op) s ops) :
    tally step P s ops = 0 := by
  induction ops generalizing s with
  | nil => rfl
  | cons op ops ih => rw [tally, if_neg h.1, ih h.2]

/-! ## Logs -/

/-- Every entry of a log is good after those before it. -/
def Logged {ε : Type*} (good : List ε → ε → Prop) (log : List ε) : Prop :=
  ∀ pre e post, log = pre ++ e :: post → good pre e

theorem logged_nil : Logged good [] := by
  intro pre e post h
  cases pre with
  | nil => cases h
  | cons e' pre => cases h

theorem logged_append_singleton {log : List ε} {e : ε} (h : Logged good log) (he : good log e) :
    Logged good (log ++ [e]) := by
  intro pre e' post hsplit
  induction post using List.reverseRecOn with
  | nil =>
    -- the entry is the last one
    obtain ⟨rfl, hlast⟩ := List.append_inj' hsplit rfl
    cases hlast
    exact he
  | append_singleton post e'' _ =>
    apply h pre e' post
    rw [← List.cons_append, ← List.append_assoc] at hsplit
    exact (List.append_inj' hsplit rfl).1

end Appcall.Machine
