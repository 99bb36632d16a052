/-
The admission of requests: `createFetchHandler` in `runner/bun/src/serve.ts`, with what
`handleRPC` and `runExecution` do between two waits.

Everything between two waits is one step. A request that waits in the queue is settled by the
permit of another one, by the abort of its client or by its timer, and goes on afterwards in a
step of its own. What is read of a body and what a handler does are up to the outside; a
request that goes through `handleRPC` without a permit is the same there. The log has what
happens to the requests, in order.
-/
import Appcall.Lib.Machine
import Mathlib.Algebra.GroupWithZero.Nat
import Mathlib.Data.Int.Notation

set_option autoImplicit false

namespace Appcall.Serve

/-- `maxOperationTimeoutMs`, of the budget contract. -/
def maxOperationTimeoutMs : ℕ := 300000

/-- The limits of a runner that `createFetchHandler` accepts; without `maxJobs` it never
drains. -/
structure Limits where
  maxConcurrent : ℕ
  maxQueued : ℕ
  maxJobs : Option ℤ
  positive : 1 ≤ maxConcurrent
  safe : maxConcurrent < 2 ^ 53 ∧ maxQueued < 2 ^ 53

/-- `options.maxJobs && completed >= options.maxJobs` -/
def Limits.reached (l : Limits) (completed : ℕ) : Bool :=
  l.maxJobs.any (fun (jobs : ℤ) => decide (jobs ≠ 0 ∧ jobs ≤ completed))

/-- Where a request is: in the queue; with its wait over; in `handleRPC` before and after its
body was read; answered. -/
inductive Stage
  | waiting
  | settled (admitted : Bool)
  | reading (permit : Bool)
  | executing (permit : Bool)
  | finished
  deriving DecidableEq

def Stage.holds : Stage → Bool
  | .settled admitted => admitted
  | .reading permit => permit
  | .executing permit => permit
  | _ => false

structure Request where
  stage : Stage
  aborted : Bool
  admittedAt : ℕ

inductive Kind
  | arrived
  | queued
  | permitted
  | refused
  | invoked
  | completed
  | answered
  deriving DecidableEq

inductive Event
  | request (n : ℕ) (kind : Kind)
  | drained
  | recycled
  deriving DecidableEq

structure State where
  now : ℕ
  active : ℕ
  completed : ℕ
  draining : Bool
  queue : List ℕ
  requests : List Request
  log : List Event

/-- What is read of a body: a deadline, if it is an envelope. -/
inductive Body
  | unusable
  | envelope (deadlineUnixMs : Option ℕ)

inductive Op
  | tick (elapsed : ℕ)
  | arrive (aborted : Bool)
  | abort (n : ℕ)
  | expire (n : ℕ)
  | resume (n : ℕ)
  | body (n : ℕ) (body : Body)
  | finish (n : ℕ)

namespace State

def new : State where
  now := 0
  active := 0
  completed := 0
  draining := false
  queue := []
  requests := []
  log := []

def note (s : State) (events : List Event) : State := { s with log := s.log ++ events }

def put (s : State) (n : ℕ) (r : Request) (stage : Stage) : State :=
  { s with requests := s.requests.set n { r with stage } }

/-- A request is made, with where it goes first. -/
def enter (s : State) (aborted : Bool) (stage : Stage) (kinds : List Kind) : State :=
  { s with
    requests := s.requests ++ [⟨stage, aborted, s.now⟩]
    log := s.log ++ kinds.map (Event.request s.requests.length) }

/-- `dispatch`, up to its first wait. -/
def arrive (l : Limits) (s : State) (aborted : Bool) : State :=
  if s.draining = true ∨ aborted = true
      ∨ (l.maxConcurrent ≤ s.active ∧ l.maxQueued ≤ s.queue.length) then
    if aborted = true then s.enter aborted (.reading false) [.arrived]
    else s.enter aborted .finished [.arrived, .answered]
  else if l.maxConcurrent ≤ s.active then
    { s.enter aborted .waiting [.arrived, .queued] with queue := s.queue ++ [s.requests.length] }
  else { s.enter aborted (.reading true) [.arrived, .permitted] with active := s.active + 1 }

/-- `settleQueued`, of an entry that is not settled. -/
def settleQueued (s : State) (n : ℕ) (r : Request) (admitted : Bool) : State :=
  { s.put n r (.settled admitted) with
    queue := s.queue.erase n
    log := s.log ++ [.request n (if admitted then .permitted else .refused)] }

/-- The request that leaves `handleRPC` with a permit is answered: `completed++`, and what
follows from it. -/
def complete (l : Limits) (s : State) (n : ℕ) (r : Request) : State :=
  { s.put n r .finished with
    completed := s.completed + 1
    draining := s.draining || l.reached (s.completed + 1)
    log := s.log ++ .request n .completed :: .request n .answered ::
      (if s.draining = false ∧ l.reached (s.completed + 1) = true then [.drained] else []) }

/-- The permit goes to the next request of the queue, or is given back. -/
def pass (s : State) : State :=
  match s.queue with
  | [] => { s with active := s.active - 1 }
  | next :: _ =>
    match s.requests[next]? with
    | some r => s.settleQueued next r true
    | none => s

/-- `if (draining && active === 0) options.onRecycle?.()` -/
def recycle (s : State) : State :=
  if s.draining = true ∧ s.active = 0 then s.note [.recycled] else s

/-- A request leaves `handleRPC`, normally or by an error; the `finally` is for one that holds
a permit. -/
def leave (l : Limits) (s : State) (n : ℕ) (r : Request) (permit : Bool) : State :=
  if permit = true then (s.complete l n r).pass.recycle
  else (s.put n r .finished).note [.request n .answered]

/-- A body was read. The client may have gone away, and `runExecution` does not begin after
the deadline. -/
def body (l : Limits) (s : State) (n : ℕ) (r : Request) (permit : Bool) : Body → State
  | .unusable => s.leave l n r permit
  | .envelope deadlineUnixMs =>
    if r.aborted = true
        ∨ min (deadlineUnixMs.getD (r.admittedAt + maxOperationTimeoutMs))
          (r.admittedAt + maxOperationTimeoutMs) ≤ s.now then s.leave l n r permit
    else (s.put n r (.executing permit)).note [.request n .invoked]

/-- One step. A timer does not fire before its time, and fires for a request that waits. -/
def step (l : Limits) (s : State) : Op → State
  | .tick elapsed => { s with now := s.now + elapsed }
  | .arrive aborted => s.arrive l aborted
  | .abort n =>
    match s.requests[n]? with
    | none => s
    | some r =>
      if r.stage = .waiting then s.settleQueued n { r with aborted := true } false
      else s.put n { r with aborted := true } r.stage
  | .expire n =>
    match s.requests[n]? with
    | none => s
    | some r =>
      if r.stage = .waiting ∧ r.admittedAt + maxOperationTimeoutMs ≤ s.now then
        s.settleQueued n r false
      else s
  | .resume n =>
    match s.requests[n]? with
    | none => s
    | some r =>
      match r.stage with
      | .settled admitted => s.put n r (.reading admitted)
      | _ => s
  | .body n b =>
    match s.requests[n]? with
    | none => s
    | some r =>
      match r.stage with
      | .reading permit => s.body l n r permit b
      | _ => s
  | .finish n =>
    match s.requests[n]? with
    | none => s
    | some r =>
      match r.stage with
      | .executing permit => s.leave l n r permit
      | _ => s

end State

end Appcall.Serve
