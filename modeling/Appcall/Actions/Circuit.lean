/-
The circuit of a provider: `crates/appcall-actions/src/circuit.rs`, and the evidence of
a call in `evidence.rs`, which holds the admission of the call.

An admission outlives changes of the circuit: it is resolved, or dropped unresolved,
long after it was granted and in any order. It carries the generation it was granted
in, and acts on the circuit only in that generation. A generation is 64 bits wide and
wraps, so that what is exact is the number of changes and what the code compares is
that number modulo `2 ^ 64`.
-/
import Appcall.Lib.Machine
import Appcall.Runner.Evidence
import Mathlib.Algebra.Group.Nat.Defs

set_option autoImplicit false

namespace Appcall.Breaker

open Rpc (ActionDispatchOutcome combine)

/-- `u32::saturating_add` of one. -/
def saturating_succ (n : ℕ) : ℕ := min (n + 1) (2 ^ 32 - 1)

/-- `u64::wrapping_add` of one. -/
def wrapping_succ (n : ℕ) : ℕ := (n + 1) % 2 ^ 64

/-- `State` of `circuit.rs`; an instant is a number of nanoseconds. -/
structure CircuitState where
  generation : ℕ
  failures : ℕ
  open_until : Option ℕ
  probe : Bool
  deriving DecidableEq

def CircuitState.default : CircuitState := ⟨0, 0, none, false⟩

/-- `Circuit`: a threshold is a positive number of 32 bits. -/
structure Circuit where
  states : String → Option CircuitState
  threshold : ℕ
  cooldown : ℕ
  positive : 0 < threshold
  sized : threshold < 2 ^ 32

def Circuit.new (threshold : UInt32) (cooldown : ℕ) : Circuit where
  states _ := none
  threshold := max threshold.toNat 1
  cooldown := cooldown
  positive := Nat.lt_of_lt_of_le Nat.zero_lt_one (Nat.le_max_right _ _)
  sized := Nat.max_lt.mpr ⟨threshold.toNat_lt, by decide⟩

/-- The state of a key; the first admission of a key enters the default. -/
def Circuit.state (c : Circuit) (key : String) : CircuitState :=
  (c.states key).getD CircuitState.default

def Circuit.put (c : Circuit) (key : String) (state : CircuitState) : Circuit :=
  { c with states := Function.update c.states key (some state) }

/-- `states.get_mut(&key)` -/
def Circuit.modify (c : Circuit) (key : String) (f : CircuitState → CircuitState) : Circuit :=
  match c.states key with
  | some state => c.put key (f state)
  | none => c

structure Admission where
  key : String
  generation : ℕ
  probe : Bool
  resolved : Bool
  deriving DecidableEq

/-- `Circuit::admit` at an instant. -/
def Circuit.admit_key (c : Circuit) (key : String) (now : ℕ) : Circuit × Except String Admission :=
  let state := c.state key
  if state.probe || state.open_until.any (fun until_ => decide (now < until_)) then
    -- `entry(key).or_default()` has entered the state all the same
    (c.put key state, .error "CIRCUIT_OPEN")
  else
    let probe := state.open_until.isSome
    let state := if probe then { state with probe := true } else state
    (c.put key state, .ok { key, generation := state.generation, probe, resolved := false })

/-- `Drop for Admission` -/
def Admission.drop (a : Admission) (c : Circuit) : Circuit :=
  if !a.resolved && a.probe then
    c.modify a.key (fun state =>
      if state.generation = a.generation then { state with probe := false } else state)
  else c

/-- What `resolve` does to a state of the generation of the admission. -/
def CircuitState.settle (state : CircuitState) (threshold cooldown : ℕ)
    (transient_failure : Bool) (now : ℕ) : CircuitState :=
  let state := { state with probe := false }
  if transient_failure then
    let state := { state with failures := saturating_succ state.failures }
    if threshold ≤ state.failures then
      { state with
        open_until := some (now + cooldown), generation := wrapping_succ state.generation }
    else state
  else
    { state with
      failures := 0, open_until := none, generation := wrapping_succ state.generation }

/-- `Admission::resolve` at an instant; the admission is dropped at its end. -/
def Admission.resolve (a : Admission) (c : Circuit) (transient_failure : Bool) (now : ℕ) :
    Circuit :=
  let c := c.modify a.key (fun state =>
    if state.generation = a.generation then
      state.settle c.threshold c.cooldown transient_failure now
    else state)
  { a with resolved := true }.drop c

/-! ## The evidence of a call -/

/-- `DispatchEvidence`, without what is only reported. -/
structure DispatchEvidence where
  outcome : ActionDispatchOutcome
  admission : Option Admission
  runner_entered : Bool

/-- `DispatchEvidence::new` and `set_admission` -/
def DispatchEvidence.new (a : Admission) : DispatchEvidence := ⟨.NotDispatched, some a, false⟩

/-- `begin_attempt`; the second component is the evidence before. -/
def DispatchEvidence.begin_attempt (e : DispatchEvidence) :
    DispatchEvidence × ActionDispatchOutcome :=
  ({ e with outcome := .Unknown, runner_entered := true }, e.outcome)

/-- `finish_attempt`, with the outcome of the failure when there is one. -/
def DispatchEvidence.finish_attempt (e : DispatchEvidence) (prior : ActionDispatchOutcome)
    (failure : Option ActionDispatchOutcome) : DispatchEvidence :=
  { e with outcome := combine prior (failure.getD .ResponseReceived) }

def DispatchEvidence.resolve_admission (e : DispatchEvidence) (c : Circuit)
    (transient_failure : Bool) (now : ℕ) : DispatchEvidence × Circuit :=
  match e.admission with
  | some a => ({ e with admission := none }, a.resolve c transient_failure now)
  | none => (e, c)

/-- A deadline counts as a failure of the provider once the runner was entered, unless
the last attempt was not dispatched. -/
def DispatchEvidence.failed_late (e : DispatchEvidence) : Bool :=
  e.runner_entered && decide (e.outcome ≠ .NotDispatched)

def DispatchEvidence.resolve_deadline (e : DispatchEvidence) (c : Circuit) (now : ℕ) :
    DispatchEvidence × Circuit :=
  match e.admission with
  | some a =>
    ({ e with admission := none }, if e.failed_late then a.resolve c true now else a.drop c)
  | none => (e, c)

def DispatchEvidence.drop (e : DispatchEvidence) (c : Circuit) : DispatchEvidence × Circuit :=
  match e.admission with
  | some a => ({ e with admission := none }, a.drop c)
  | none => (e, c)

/-! ## What each operation does to the state of a key -/

variable {c : Circuit} {a : Admission} {key : String} {now : ℕ}

variable (state : CircuitState) {k : String} {f : CircuitState → CircuitState}

@[simp] theorem put_states_self :
    (c.put key state).states key = some state := Function.update_self _ _ _

@[simp] theorem put_states_other (h : k ≠ key) :
    (c.put key state).states k = c.states k := Function.update_of_ne h _ _

@[simp] theorem put_state_self : (c.put key state).state key = state := by
  rw [Circuit.state, put_states_self, Option.getD_some]

@[simp] theorem put_state_other (h : k ≠ key) : (c.put key state).state k = c.state k := by
  rw [Circuit.state, Circuit.state, put_states_other state h]

theorem put_states (h : (c.states k).isSome = true) :
    ((c.put key state).states k).isSome = true := by
  by_cases hk : k = key
  · rw [hk, put_states_self, Option.isSome_some]
  · rwa [put_states_other state hk]

theorem state_modify_self (h : (c.states key).isSome = true) :
    (c.modify key f).state key = f (c.state key) := by
  obtain ⟨state, hstate⟩ := Option.isSome_iff_exists.mp h
  have hview : c.state key = state := by rw [Circuit.state, hstate, Option.getD_some]
  rw [Circuit.modify, hstate, hview]
  exact put_state_self _

theorem state_modify_other (h : k ≠ key) : (c.modify key f).state k = c.state k := by
  rw [Circuit.modify]
  split
  · exact put_state_other _ h
  · rfl

theorem states_modify (f : CircuitState → CircuitState) (h : (c.states k).isSome = true) :
    ((c.modify key f).states k).isSome = true := by
  rw [Circuit.modify]
  split
  · exact put_states _ h
  · exact h

theorem modify_threshold (f : CircuitState → CircuitState) :
    (c.modify key f).threshold = c.threshold ∧ (c.modify key f).cooldown = c.cooldown := by
  rw [Circuit.modify]
  split
  · exact ⟨rfl, rfl⟩
  · exact ⟨rfl, rfl⟩

inductive Ending
  | resolve (transient_failure : Bool)
  | drop

def Admission.ended (a : Admission) (c : Circuit) (now : ℕ) : Ending → Circuit
  | .resolve transient_failure => a.resolve c transient_failure now
  | .drop => a.drop c

def CircuitState.ended (state : CircuitState) (threshold cooldown : ℕ) (probe : Bool)
    (now : ℕ) : Ending → CircuitState
  | .resolve transient_failure => state.settle threshold cooldown transient_failure now
  | .drop => if probe then { state with probe := false } else state

theorem resolve_eq (transient_failure : Bool) : a.resolve c transient_failure now
    = c.modify a.key (fun state =>
        if state.generation = a.generation then
          state.settle c.threshold c.cooldown transient_failure now
        else state) := by
  rw [Admission.resolve, Admission.drop]
  rfl

theorem ended_threshold (how : Ending) : (a.ended c now how).threshold = c.threshold
    ∧ (a.ended c now how).cooldown = c.cooldown := by
  cases how with
  | resolve transient_failure =>
    rw [Admission.ended, resolve_eq]
    exact modify_threshold _
  | drop =>
    rw [Admission.ended, Admission.drop]
    split
    · exact modify_threshold _
    · exact ⟨rfl, rfl⟩

theorem ended_states (how : Ending) (h : (c.states k).isSome = true) :
    ((a.ended c now how).states k).isSome = true := by
  cases how with
  | resolve transient_failure =>
    rw [Admission.ended, resolve_eq]
    exact states_modify _ h
  | drop =>
    rw [Admission.ended, Admission.drop]
    split
    · exact states_modify _ h
    · exact h

theorem ended_other (how : Ending) (h : k ≠ a.key) : (a.ended c now how).state k = c.state k := by
  cases how with
  | resolve transient_failure =>
    rw [Admission.ended, resolve_eq]
    exact state_modify_other h
  | drop =>
    rw [Admission.ended, Admission.drop]
    split
    · exact state_modify_other h
    · rfl

theorem ended_stale (how : Ending) (hsome : (c.states a.key).isSome = true)
    (h : (c.state a.key).generation ≠ a.generation) :
    (a.ended c now how).state a.key = c.state a.key := by
  cases how with
  | resolve transient_failure =>
    rw [Admission.ended, resolve_eq, state_modify_self hsome, if_neg h]
  | drop =>
    rw [Admission.ended, Admission.drop]
    split
    · rw [state_modify_self hsome, if_neg h]
    · rfl

theorem ended_current (now : ℕ) (how : Ending) (hsome : (c.states a.key).isSome = true)
    (hopen : a.resolved = false) (h : (c.state a.key).generation = a.generation) :
    (a.ended c now how).state a.key
      = (c.state a.key).ended c.threshold c.cooldown a.probe now how := by
  cases how with
  | resolve transient_failure =>
    rw [Admission.ended, resolve_eq, state_modify_self hsome, if_pos h]
    rfl
  | drop =>
    rw [Admission.ended, Admission.drop, hopen, CircuitState.ended]
    split
    next hprobe =>
      rw [state_modify_self hsome, if_pos h]
      rw [Bool.not_false, Bool.true_and] at hprobe
      rw [if_pos hprobe]
    next hprobe =>
      rw [Bool.not_false, Bool.true_and] at hprobe
      rw [if_neg hprobe]

theorem admit_key_cases (c : Circuit) (key : String) (now : ℕ) :
    (((c.state key).probe = true ∨ ∃ until_, (c.state key).open_until = some until_
        ∧ now < until_)
      ∧ (c.admit_key key now).2 = .error "CIRCUIT_OPEN"
      ∧ ∀ k, (c.admit_key key now).1.state k = c.state k)
    ∨ ((c.state key).probe = false
      ∧ (∀ until_, (c.state key).open_until = some until_ → until_ ≤ now)
      ∧ (c.admit_key key now).2 = .ok ⟨key, (c.state key).generation,
          (c.state key).open_until.isSome, false⟩
      ∧ (c.admit_key key now).1.state key
        = { c.state key with probe := (c.state key).open_until.isSome }
      ∧ ∀ k, k ≠ key → (c.admit_key key now).1.state k = c.state k) := by
  rw [Circuit.admit_key]
  split
  next h =>
    refine .inl ⟨?_, rfl, fun k => ?_⟩
    · rw [Bool.or_eq_true, Option.any_eq_true] at h
      rcases h with h | ⟨until_, huntil, hlt⟩
      · exact .inl h
      · exact .inr ⟨until_, huntil, of_decide_eq_true hlt⟩
    · by_cases hk : k = key
      · rw [hk]
        exact put_state_self _
      · exact put_state_other _ hk
  next h =>
    rw [Bool.or_eq_true, not_or, Bool.not_eq_true, Bool.not_eq_true, Option.any_eq_false] at h
    obtain ⟨hprobe, huntil⟩ := h
    refine .inr ⟨hprobe, fun until_ h => ?_, ?_, ?_, fun k hk => ?_⟩
    · exact Nat.le_of_not_lt (of_decide_eq_false (huntil until_ h))
    · dsimp only
      split
      · rfl
      · rfl
    · dsimp only
      rw [put_state_self]
      split
      next hopen => rw [hopen]
      next hopen => rw [Bool.eq_false_iff.mpr hopen, ← hprobe]
    · exact put_state_other _ hk

theorem admit_key_threshold (c : Circuit) (key : String) (now : ℕ) :
    (c.admit_key key now).1.threshold = c.threshold
      ∧ (c.admit_key key now).1.cooldown = c.cooldown := by
  rw [Circuit.admit_key]
  split
  · exact ⟨rfl, rfl⟩
  · exact ⟨rfl, rfl⟩

theorem admit_key_states (c : Circuit) (key : String) (now : ℕ) :
    ((c.admit_key key now).1.states key).isSome = true
      ∧ ∀ k, (c.states k).isSome = true → ((c.admit_key key now).1.states k).isSome = true := by
  rw [Circuit.admit_key]
  split
  · exact ⟨by rw [put_states_self, Option.isSome_some], fun k => put_states _⟩
  · exact ⟨by rw [put_states_self, Option.isSome_some], fun k => put_states _⟩

end Appcall.Breaker
