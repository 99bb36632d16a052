/-
The database generations of the API host: `crates/appcall-api/src/generation.rs`.

A manager hands out its current node, replaces it when its database has failed, and is
stopped once. Nothing but the state (`current` and `retired`) is under a lock, and
`maintain` at most once at a time under the serial permit; the flags are single atomic
cells. So a thread is modelled by what it does next, and a step of the system is one
access of one thread to what the threads share (`Effect`). What the outside answers
(`database_health`, `tracker.probe`, `tracker.live_sessions`, the factory) comes with
the step. A blocking closure goes on when the future that waits for it is dropped or has
waited too long, and holds the permit until it ends.
-/
import Appcall.Lib.Table
import Appcall.Lib.Machine

set_option autoImplicit false

namespace Appcall.Api

/-! ## The manager -/

/-- What a tracker finds out about the sessions of a node. -/
inductive SessionHealth
  | Healthy | Missing | Unavailable
  deriving DecidableEq

/-- A backend that serves or served, and its flag. -/
structure Node where
  id : ℕ
  available : Bool

/-- A clone of the manager; `pin_request` makes one that keeps to a node. -/
structure Handle where
  id : ℕ
  pinned : Option ℕ

/-- What a call of `snapshot` does next. -/
inductive Snapshot
  | load_stopping
  | load_available
  | ask_health
  | store_available
  | stop_backend
  | returned (served : Bool)
  deriving DecidableEq

/-- A call of `snapshot` through a handle, with the node it has cloned. -/
structure Call where
  id : ℕ
  handle : ℕ
  node : ℕ
  stage : Snapshot
  deriving DecidableEq

/-- What a call of `stop` does next. -/
inductive Stop
  | store_stopping
  | current
  | store_available (node : ℕ)
  | stop_backend (node : ℕ)
  | returned
  deriving DecidableEq

/-- A call of `stop`. -/
structure Stopper where
  id : ℕ
  stage : Stop

/-- What a run of `maintain` does next; `probing`, `counting`, `building` and `checking`
wait for the closure that it has spawned. -/
inductive Maintain
  | load_stopping
  | acquire
  | current
  | ask_health (node : ℕ)
  | probing (node : ℕ)
  | settle (node : ℕ) (health : SessionHealth)
  | store_available (node : ℕ)
  | stop_backend (node : ℕ)
  | load_retired
  | strong_count (retired : ℕ)
  | counting
  | forget_retired
  | load_reaping
  | building
  | check_stopping
  | check_health
  | checking
  | lock_state
  | recheck_stopping
  | replace_current
  | unlock_state
  | drop_next
  | returned
  deriving DecidableEq

/-- The closures given to `bounded`: the probe of the current node, the count of the
sessions of the retired one, the factory, and the probe of what the factory built. -/
inductive Work
  | probe | live_sessions | factory | check
  deriving DecidableEq

/-- What a closure comes back with; each kind has its own field. -/
structure Answer where
  panics : Bool
  health : SessionHealth
  live_sessions : Option ℕ
  built : Bool

/-- The closure that a run of `maintain` spawned last. -/
inductive Task
  | idle
  | running (work : Work)
  | finished (answer : Answer)

/-- A run of `maintain` and its closure, which may outlive it. -/
structure Maintenance where
  id : ℕ
  stage : Maintain
  task : Task

/-- The manager, its threads, and the nodes on whose backend `stop` was called. -/
structure Manager where
  nodes : Table Node.id
  made : ℕ
  current : ℕ
  retired : Option ℕ
  locked : Bool
  stopping : Bool
  reaping : ℕ
  stopped : List ℕ
  handles : Table Handle.id
  calls : Table Call.id
  stoppers : Table Stopper.id
  maintains : Table Maintenance.id

def Manager.new : Manager where
  nodes := ⟨[⟨0, true⟩], List.nodup_singleton _⟩
  made := 1
  current := 0
  retired := none
  locked := false
  stopping := false
  reaping := 0
  stopped := []
  handles := ⟨[⟨0, none⟩], List.nodup_singleton _⟩
  calls := Table.empty
  stoppers := Table.empty
  maintains := Table.empty

/-! ## Shared memory -/

/-- One access of a thread that others can see. A candidate is seen by nobody but the
run that built it, so only that it goes to the reaper is an effect. -/
inductive Effect
  | nothing
  | store_available (node : ℕ) (value : Bool)
  | stop_backend (node : ℕ)
  | store_stopping
  | lock
  | unlock
  | forget_retired
  | drop_candidate
  | replace_current
  deriving DecidableEq

/-- `node.available.load` -/
def Manager.available (s : Manager) (node : ℕ) : Bool := (s.nodes.find node).any Node.available

/-- The effect on what the threads share. `replace_current` makes a node of the
candidate, exchanges it for the current one, which is retired, and releases the lock. -/
def Manager.apply (s : Manager) : Effect → Manager
  | .nothing => s
  | .store_available node value =>
    { s with nodes := s.nodes.modify node ({ · with available := value }) (fun _ => rfl) }
  | .stop_backend node => { s with stopped := node :: s.stopped }
  | .store_stopping => { s with stopping := true }
  | .lock => { s with locked := true }
  | .unlock => { s with locked := false }
  | .forget_retired => { s with retired := none }
  | .drop_candidate => { s with reaping := s.reaping + 1 }
  | .replace_current =>
    { s with
      nodes := (s.nodes.insert ⟨s.made, true⟩).getD s.nodes
      made := s.made + 1
      current := s.made
      retired := some s.current
      locked := false }

/-! ## Threads -/

/-- `snapshot` -/
def Snapshot.next (s : Manager) (node : ℕ) (database_health : Option Bool) :
    Snapshot → Snapshot × Effect
  | .load_stopping => (if s.stopping then .returned false else .load_available, .nothing)
  | .load_available => (if s.available node then .ask_health else .returned false, .nothing)
  | .ask_health =>
    (if database_health = some false then .store_available else .returned true, .nothing)
  | .store_available => (.stop_backend, .store_available node false)
  | .stop_backend => (.returned false, .stop_backend node)
  | .returned served => (.returned served, .nothing)

/-- `stop` -/
def Stop.next (s : Manager) : Stop → Stop × Effect
  | .store_stopping => (.current, .store_stopping)
  | .current => (if s.locked then .current else .store_available s.current, .nothing)
  | .store_available node => (.stop_backend node, .store_available node false)
  | .stop_backend node => (.returned, .stop_backend node)
  | .returned => (.returned, .nothing)

theorem snapshot_next_returned (s : Manager) (node : ℕ) (health : Option Bool) (served : Bool) :
    (Snapshot.returned served).next s node health = (.returned served, .nothing) := by
  rw [Snapshot.next]

theorem stop_next_locked {s : Manager} (h : s.locked = true) :
    Stop.current.next s = (.current, .nothing) := by
  rw [Stop.next, if_pos h]

def Snapshot.over : Snapshot → Bool
  | .returned _ => true
  | _ => false

/-- The node that a run of `maintain` has in hand. -/
def Maintain.node : Maintain → Option ℕ
  | .ask_health node | .probing node | .settle node _ | .store_available node
  | .stop_backend node => some node
  | _ => none

/-- The run is between the acquisition of the permit and its return. -/
def Maintain.permitted : Maintain → Bool
  | .load_stopping | .acquire | .returned => false
  | _ => true

/-- The run or its closure holds the serial permit. -/
def Maintenance.holds (m : Maintenance) : Bool :=
  m.stage.permitted || (match m.task with | .running _ => true | _ => false)

/-- The node that a call of `stop` has in hand. -/
def Stop.node : Stop → Option ℕ
  | .store_available node | .stop_backend node => some node
  | _ => none

/-- `strong_count() > 0`: the node is current, pinned, or in the hand of a thread. -/
def Manager.referenced (s : Manager) (node : ℕ) : Bool :=
  decide (s.current = node)
    || s.handles.rows.any (fun h => decide (h.pinned = some node))
    || s.calls.rows.any (fun c => decide (c.node = node))
    || s.stoppers.rows.any (fun p => decide (p.stage.node = some node))
    || s.maintains.rows.any (fun m => decide (m.stage.node = some node))

/-- `maintain` -/
def Maintain.next (s : Manager) (database_health : Option Bool) (task : Task) :
    Maintain → Maintain × Task × Effect
  | .load_stopping => (if s.stopping then .returned else .acquire, task, .nothing)
  | .acquire =>
    (if s.maintains.rows.any Maintenance.holds then .returned else .current, task, .nothing)
  | .current => (if s.locked then .current else .ask_health s.current, task, .nothing)
  | .ask_health node =>
    if database_health = some false then (.store_available node, task, .nothing)
    else (.probing node, .running .probe, .nothing)
  | .probing node =>
    match task with
    | .finished answer =>
      (if answer.panics then .returned else .settle node answer.health, .idle, .nothing)
    | _ => (.probing node, task, .nothing)
  | .settle node .Healthy => (.returned, task, .store_available node true)
  | .settle node .Unavailable => (.returned, task, .store_available node false)
  | .settle node .Missing => (.store_available node, task, .nothing)
  | .store_available node => (.stop_backend node, task, .store_available node false)
  | .stop_backend node => (.load_retired, task, .stop_backend node)
  | .load_retired =>
    if s.locked then (.load_retired, task, .nothing)
    else match s.retired with
      | some retired => (.strong_count retired, task, .nothing)
      | none => (.load_reaping, task, .nothing)
  | .strong_count retired =>
    if s.referenced retired then (.returned, task, .nothing)
    else (.counting, .running .live_sessions, .nothing)
  | .counting =>
    match task with
    | .finished answer =>
      (if answer.panics ∨ answer.live_sessions ≠ some 0 then .returned else .forget_retired,
        .idle, .nothing)
    | _ => (.counting, task, .nothing)
  | .forget_retired =>
    if s.locked then (.forget_retired, task, .nothing)
    else (.load_reaping, task, .forget_retired)
  | .load_reaping =>
    if 0 < s.reaping then (.returned, task, .nothing)
    else (.building, .running .factory, .nothing)
  | .building =>
    match task with
    | .finished answer =>
      (if answer.panics ∨ answer.built = false then .returned else .check_stopping,
        .idle, .nothing)
    | _ => (.building, task, .nothing)
  | .check_stopping =>
    if s.stopping then (.returned, task, .drop_candidate) else (.check_health, task, .nothing)
  | .check_health =>
    if database_health = some true then (.checking, .running .check, .nothing)
    else (.returned, task, .drop_candidate)
  | .checking =>
    match task with
    | .finished answer =>
      if answer.panics ∨ answer.health ≠ .Healthy then (.returned, .idle, .drop_candidate)
      else (.lock_state, .idle, .nothing)
    | _ => (.checking, task, .nothing)
  | .lock_state =>
    if s.locked then (.lock_state, task, .nothing) else (.recheck_stopping, task, .lock)
  | .recheck_stopping =>
    (if s.stopping then .unlock_state else .replace_current, task, .nothing)
  | .replace_current => (.returned, task, .replace_current)
  | .unlock_state => (.drop_next, task, .unlock)
  | .drop_next => (.returned, task, .drop_candidate)
  | .returned => (.returned, task, .nothing)

theorem maintain_next_returned (s : Manager) (health : Option Bool) (task : Task) :
    Maintain.returned.next s health task = (.returned, task, .nothing) := by
  rw [Maintain.next]

/-- The closure ends. What the factory built for a caller that is gone is dropped. -/
def Maintenance.finish (m : Maintenance) (answer : Answer) : Task × Effect :=
  match m.task with
  | .running work =>
    if m.stage = .returned then
      (.idle, if work = .factory ∧ answer.panics = false ∧ answer.built = true
        then .drop_candidate else .nothing)
    else (.finished answer, .nothing)
  | _ => (m.task, .nothing)

/-- The future is dropped, or has waited for 45 seconds, where it waits; what it owns is
dropped with it, and a closure that runs goes on. -/
def Maintenance.abandon (m : Maintenance) : Maintain × Task × Effect :=
  let task := match m.task with
    | .finished _ => .idle
    | task => task
  match m.stage with
  | .probing _ | .counting => (.returned, task, .nothing)
  | .building =>
    (.returned, task, match m.task with
      | .finished answer =>
        if answer.panics = false ∧ answer.built = true then .drop_candidate else .nothing
      | _ => .nothing)
  | .checking => (.returned, task, .drop_candidate)
  | stage => (stage, m.task, .nothing)

/-! ## The system -/

/-- One step of one thread, or of the outside. -/
inductive Op
  | pin_request (handle pinned : ℕ)
  | snapshot (call handle : ℕ)
  | call_next (call : ℕ) (database_health : Option Bool)
  | call_done (call : ℕ)
  | stop (stopper : ℕ)
  | stop_next (stopper : ℕ)
  | maintain (run : ℕ)
  | maintain_next (run : ℕ) (database_health : Option Bool)
  | work_done (run : ℕ) (answer : Answer)
  | abandon (run : ℕ)
  | drop_node (node : ℕ)
  | reap

/-- The node a handle goes to: its own, or the current one, which is read under the
lock. -/
def Manager.target (s : Manager) (handle : ℕ) : Option ℕ :=
  match s.handles.find handle with
  | none => none
  | some ⟨_, some node⟩ => some node
  | some ⟨_, none⟩ => if s.locked then none else some s.current

/-- The stage of a call of `snapshot` is written. -/
def Manager.set_call (s : Manager) (id : ℕ) (stage : Snapshot) : Manager :=
  { s with calls := s.calls.modify id ({ · with stage := stage }) (fun _ => rfl) }

/-- The stage of a call of `stop` is written. -/
def Manager.set_stopper (s : Manager) (id : ℕ) (stage : Stop) : Manager :=
  { s with stoppers := s.stoppers.modify id ({ · with stage := stage }) (fun _ => rfl) }

/-- The stage of a run of `maintain` and its closure are written. -/
def Manager.set_maintain (s : Manager) (id : ℕ) (stage : Maintain) (task : Task) : Manager :=
  let move (m : Maintenance) : Maintenance := { m with stage, task }
  { s with maintains := s.maintains.modify id move (fun _ => rfl) }

/-- A run of `maintain` goes on with one effect. -/
def Manager.maintain_next (s : Manager) (run : ℕ) (r : Maintain × Task × Effect) : Manager :=
  (s.set_maintain run r.1 r.2.1).apply r.2.2

def step (s : Manager) : Op → Manager
  | .pin_request handle pinned =>
    match s.target handle with
    | none => s
    | some node =>
      { s with handles := (s.handles.insert ⟨pinned, some node⟩).getD s.handles }
  | .snapshot call handle =>
    match s.target handle with
    | none => s
    | some node =>
      { s with calls := (s.calls.insert ⟨call, handle, node, .load_stopping⟩).getD s.calls }
  | .call_next call database_health =>
    match s.calls.find call with
    | none => s
    | some c =>
      let (stage, effect) := c.stage.next s c.node database_health
      (s.set_call call stage).apply effect
  | .call_done call =>
    let finished (c : Call) : Bool := decide (c.id = call) && c.stage.over
    { s with calls := s.calls.delete finished }
  | .stop stopper =>
    { s with stoppers := (s.stoppers.insert ⟨stopper, .store_stopping⟩).getD s.stoppers }
  | .stop_next stopper =>
    match s.stoppers.find stopper with
    | none => s
    | some p =>
      let (stage, effect) := p.stage.next s
      (s.set_stopper stopper stage).apply effect
  | .maintain run =>
    { s with maintains := (s.maintains.insert ⟨run, .load_stopping, .idle⟩).getD s.maintains }
  | .maintain_next run database_health =>
    match s.maintains.find run with
    | none => s
    | some m => s.maintain_next run (m.stage.next s database_health m.task)
  | .work_done run answer =>
    match s.maintains.find run with
    | none => s
    | some m => s.maintain_next run (m.stage, m.finish answer)
  | .abandon run =>
    match s.maintains.find run with
    | none => s
    | some m => s.maintain_next run m.abandon
  | .drop_node node =>
    -- The last `Arc` of a node is gone: its backend is stopped and sent to the reaper.
    match s.nodes.find node with
    | none => s
    | some _ =>
      if s.referenced node then s
      else { s with
        nodes := s.nodes.delete (fun r => decide (r.id = node))
        stopped := node :: s.stopped
        reaping := s.reaping + 1 }
  | .reap => { s with reaping := s.reaping - 1 }

end Appcall.Api
