/-
The requests in flight: `InFlightEntry` and `InFlightRegistry` in
`crates/appcall-mcp/src/lib.rs`.

An entry is the shared state of one request: whoever runs it and whoever cancels it
agree there on whether the cancellation came before the dispatch. The registry holds
one entry for a key. An entry has an id, which stands for the `Arc` it lives in, so
`remove_if_same` takes out the entry it was given and no later one of the same key.
-/
import Appcall.Lib.Table
import Appcall.Mcp.Scope

set_option autoImplicit false

namespace Appcall.Mcp

/-! ## Entries -/

inductive CancelPhase
  | BeforeDispatch | AfterDispatch
  deriving DecidableEq

inductive InFlightState
  | Pending
  | Dispatched
  | Cancelled (phase : CancelPhase)
  | Completed
  deriving DecidableEq

/-- `InFlightEntryState` -/
structure InFlightEntry where
  lifecycle : InFlightState
  connection_id : Option String

namespace InFlightEntry

def new (connection_id : Option String) : InFlightEntry := ⟨.Pending, connection_id⟩

def is_cancelled (e : InFlightEntry) : Bool :=
  match e.lifecycle with
  | .Cancelled _ => true
  | _ => false

def set_connection (e : InFlightEntry) (connection_id : String) : InFlightEntry × Bool :=
  if e.lifecycle = .Pending then ({ e with connection_id := some connection_id }, true)
  else (e, false)

def begin_dispatch (e : InFlightEntry) : InFlightEntry × Bool :=
  if e.lifecycle = .Pending then ({ e with lifecycle := .Dispatched }, true) else (e, false)

def complete (e : InFlightEntry) : InFlightEntry × Bool :=
  if e.lifecycle = .Dispatched then ({ e with lifecycle := .Completed }, true) else (e, false)

def finish_execution (e : InFlightEntry) : InFlightEntry × Bool :=
  match e.lifecycle with
  | .Dispatched => ({ e with lifecycle := .Completed }, true)
  | .Cancelled .AfterDispatch => ({ e with lifecycle := .Completed }, false)
  | _ => (e, false)

def abort_execution (e : InFlightEntry) : InFlightEntry × Bool :=
  match e.lifecycle with
  | .Dispatched | .Cancelled .AfterDispatch => ({ e with lifecycle := .Completed }, true)
  | _ => (e, false)

def can_cleanup_on_drop (e : InFlightEntry) : Bool :=
  match e.lifecycle with
  | .Pending | .Cancelled .BeforeDispatch => true
  | _ => false

/-- The notification names another connection than the entry's. -/
def excludes (e : InFlightEntry) (requested : Option String) : Bool :=
  requested.any (fun requested => decide (e.connection_id ≠ some requested))

def cancel (e : InFlightEntry) (requested : Option String) :
    InFlightEntry × Option CancelPhase :=
  if e.excludes requested = true then (e, none)
  else match e.lifecycle with
    | .Pending => ({ e with lifecycle := .Cancelled .BeforeDispatch }, some .BeforeDispatch)
    | .Dispatched => ({ e with lifecycle := .Cancelled .AfterDispatch }, some .AfterDispatch)
    | .Cancelled phase => (e, some phase)
    | .Completed => (e, none)

def cancellation_phase (e : InFlightEntry) : Option CancelPhase :=
  match e.lifecycle with
  | .Cancelled phase => some phase
  | _ => none

end InFlightEntry

/-- `begin_dispatch` has succeeded. -/
def InFlightState.begun : InFlightState → Bool
  | .Dispatched | .Cancelled .AfterDispatch | .Completed => true
  | _ => false

/-- The execution has begun and has not been told to the entry yet. -/
def InFlightState.unfinished : InFlightState → Bool
  | .Dispatched | .Cancelled .AfterDispatch => true
  | _ => false

/-! ## The registry -/

inductive RegistrationError
  | Capacity | Duplicate
  deriving DecidableEq

/-- `InFlightRegistry`: which entry is registered under a key. -/
structure InFlightRegistry where
  entries : Table (Prod.fst : RequestKey × ℕ → RequestKey)
  capacity : ℕ

namespace InFlightRegistry

def new (capacity : ℕ) : InFlightRegistry := ⟨Table.empty, capacity⟩

def len (r : InFlightRegistry) : ℕ := r.entries.rows.length

def holds (r : InFlightRegistry) (id : ℕ) : Bool := r.entries.rows.any (fun row => row.2 == id)

/-- `register`, for the entry `id`. -/
def register (r : InFlightRegistry) (key : RequestKey) (id : ℕ) :
    Except RegistrationError InFlightRegistry :=
  match r.entries.insert (key, id) with
  | none => .error .Duplicate
  | some entries =>
    if r.capacity ≤ r.len then .error .Capacity else .ok { r with entries }

def remove_if_same (r : InFlightRegistry) (key : RequestKey) (id : ℕ) : InFlightRegistry :=
  if r.entries.find key = some (key, id) then
    { r with entries := r.entries.delete (fun row => decide (row.1 = key)) }
  else r

variable {r : InFlightRegistry}

theorem holds_iff {id : ℕ} : r.holds id = true ↔ ∃ key, (key, id) ∈ r.entries.rows := by
  rw [holds, List.any_eq_true]
  constructor
  · rintro ⟨⟨key, id'⟩, hrow, hid⟩
    cases beq_iff_eq.mp hid
    exact ⟨key, hrow⟩
  · rintro ⟨key, hrow⟩
    exact ⟨(key, id), hrow, beq_self_eq_true id⟩

theorem register_ok {r' : InFlightRegistry} {key : RequestKey} {id : ℕ}
    (h : r.register key id = .ok r') :
    r'.entries.rows = r.entries.rows ++ [(key, id)] ∧ r'.capacity = r.capacity
      ∧ r.len < r.capacity ∧ r.entries.find key = none := by
  rw [register] at h
  split at h
  next => cases h
  next entries hinsert =>
    split at h
    next => cases h
    next hroom =>
      cases h
      obtain ⟨hnone, hrows⟩ := Table.insert_eq_some hinsert
      exact ⟨hrows, rfl, Nat.lt_of_not_le hroom, hnone⟩

theorem mem_remove_if_same {key : RequestKey} {id : ℕ} {row : RequestKey × ℕ} :
    row ∈ (r.remove_if_same key id).entries.rows
      ↔ row ∈ r.entries.rows ∧ row ≠ (key, id) := by
  rw [remove_if_same]
  split
  next hfind =>
    rw [Table.delete, List.mem_filter]
    refine and_congr_right fun hrow => ?_
    rw [Bool.not_eq_true', decide_eq_false_iff_not]
    refine not_congr ⟨fun hkey => ?_, fun heq => by rw [heq]⟩
    have hrow' := Table.find_eq_some.mpr ⟨hrow, hkey⟩
    rw [hfind] at hrow'
    exact (Option.some.inj hrow').symm
  next hfind =>
    refine ⟨fun hrow => ⟨hrow, fun heq => hfind ?_⟩, And.left⟩
    rw [heq] at hrow
    exact Table.find_eq_some.mpr ⟨hrow, rfl⟩

theorem len_remove_if_same (r : InFlightRegistry) (key : RequestKey) (id : ℕ) :
    (r.remove_if_same key id).len ≤ r.len := by
  rw [remove_if_same]
  split
  next => exact List.length_filter_le _ _
  next => exact le_rfl

@[simp] theorem remove_if_same_capacity (r : InFlightRegistry) (key : RequestKey) (id : ℕ) :
    (r.remove_if_same key id).capacity = r.capacity := by
  rw [remove_if_same]
  split <;> rfl

end InFlightRegistry

/-! ## What an operation on an entry can do -/

namespace InFlightEntry

variable (e : InFlightEntry)

theorem set_connection_cases (connection_id : String) : (e.lifecycle = .Pending
      ∧ e.set_connection connection_id = (⟨.Pending, some connection_id⟩, true))
    ∨ (e.lifecycle ≠ .Pending ∧ e.set_connection connection_id = (e, false)) := by
  rw [set_connection]
  split
  next h => exact .inl ⟨h, by rw [h]⟩
  next h => exact .inr ⟨h, rfl⟩

theorem begin_dispatch_cases :
    (e.lifecycle = .Pending ∧ e.begin_dispatch = (⟨.Dispatched, e.connection_id⟩, true))
    ∨ (e.lifecycle ≠ .Pending ∧ e.begin_dispatch = (e, false)) := by
  rw [begin_dispatch]
  split
  next h => exact .inl ⟨h, rfl⟩
  next h => exact .inr ⟨h, rfl⟩

theorem complete_cases :
    (e.lifecycle = .Dispatched ∧ e.complete = (⟨.Completed, e.connection_id⟩, true))
    ∨ (e.lifecycle ≠ .Dispatched ∧ e.complete = (e, false)) := by
  rw [complete]
  split
  next h => exact .inl ⟨h, rfl⟩
  next h => exact .inr ⟨h, rfl⟩

theorem finish_execution_cases : (e.lifecycle.unfinished = true
      ∧ ∃ accepted, e.finish_execution = (⟨.Completed, e.connection_id⟩, accepted))
    ∨ (e.lifecycle.unfinished = false ∧ e.finish_execution = (e, false)) := by
  obtain ⟨lifecycle, connection_id⟩ := e
  cases lifecycle with
  | Cancelled phase => cases phase <;> simp [finish_execution, InFlightState.unfinished]
  | _ => simp [finish_execution, InFlightState.unfinished]

theorem abort_execution_cases : (e.lifecycle.unfinished = true
      ∧ e.abort_execution = (⟨.Completed, e.connection_id⟩, true))
    ∨ (e.lifecycle.unfinished = false ∧ e.abort_execution = (e, false)) := by
  obtain ⟨lifecycle, connection_id⟩ := e
  cases lifecycle with
  | Cancelled phase => cases phase <;> simp [abort_execution, InFlightState.unfinished]
  | _ => simp [abort_execution, InFlightState.unfinished]

theorem cancel_cases (requested : Option String) :
    (e.lifecycle = .Pending ∧ e.excludes requested = false
      ∧ e.cancel requested
        = (⟨.Cancelled .BeforeDispatch, e.connection_id⟩, some .BeforeDispatch))
    ∨ (e.lifecycle = .Dispatched ∧ e.excludes requested = false
      ∧ e.cancel requested
        = (⟨.Cancelled .AfterDispatch, e.connection_id⟩, some .AfterDispatch))
    ∨ (∃ phase, e.lifecycle = .Cancelled phase ∧ e.cancel requested = (e, some phase))
    ∨ ((e.excludes requested = true ∨ e.lifecycle = .Completed)
      ∧ e.cancel requested = (e, none)) := by
  obtain ⟨lifecycle, connection_id⟩ := e
  by_cases hother : excludes ⟨lifecycle, connection_id⟩ requested = true
  · exact .inr (.inr (.inr ⟨.inl hother, by rw [cancel, if_pos hother]⟩))
  · rw [Bool.not_eq_true] at hother
    cases lifecycle <;> simp [cancel, hother]

end InFlightEntry

end Appcall.Mcp
