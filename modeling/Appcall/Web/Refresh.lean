/-
The handoff of browser refresh tokens: `crates/appcall-web/src/refresh.rs`.

A caller of `rotate` takes the entry of its token under the lock of the map, waits for the
lock of the entry, and then reads the result that is there or asks the broker. The state has
every entry that was made and every caller that came; an entry is in the map or it is not,
and a caller is gone when it was answered or dropped. What happened is written to a log.
-/
import Appcall.Lib.Machine

set_option autoImplicit false

namespace Appcall.Web

inductive Error
  | Invalid
  | RequestTooLarge
  | Unauthorized
  | Forbidden
  | NotFound
  | Conflict
  | Unavailable
  | Configuration
  deriving DecidableEq

/-- The fields of `AuthResult` that are read. -/
structure AuthResult where
  access_token : String
  refresh_token : String
  mfa_required : Bool

/-- What a caller is given: new tokens, or an error. -/
abbrev Rotation := Except Error (String × String)

instance : DecidableEq Rotation := by
  intro a b
  cases a with
  | error e => cases b with
    | error e' => exact decidable_of_iff (e = e') ⟨congrArg _, Except.error.inj⟩
    | ok t => exact isFalse (fun h => nomatch h)
  | ok t => cases b with
    | error e => exact isFalse (fun h => nomatch h)
    | ok t' => exact decidable_of_iff (t = t') ⟨congrArg _, Except.ok.inj⟩

/-- `HANDOFF_TTL`, in nanoseconds. -/
def HANDOFF_TTL : ℕ := 30 * 1000000000

/-- What `rotate_at` makes of the answer of the broker. -/
def accept : Except Error AuthResult → Rotation
  | .error e => .error e
  | .ok result =>
    if result.mfa_required = true ∨ result.access_token = "" ∨ result.refresh_token = "" then
      .error .Unauthorized
    else .ok (result.access_token, result.refresh_token)

/-- `matches!(&result, Ok(_) | Err(Error::Unavailable))` -/
def retained : Rotation → Bool
  | .ok _ => true
  | .error e => decide (e = .Unavailable)

/-- `token.is_empty() || token.len() > 16384` -/
def refused (token : String) : Bool := decide (token = "" ∨ 16384 < token.utf8ByteSize)

structure Entry where
  created : ℕ
  result : Option Rotation

/-- Where a caller is: at the lock of its entry, or at the broker with the lock held. -/
inductive Stage
  | waiting
  | calling
  | gone
  deriving DecidableEq

structure Caller where
  token : String
  arrived : ℕ
  entry : ℕ
  stage : Stage

/-- What is seen of the callers of a token. A call of the broker is for an entry of the
age that the event says. -/
inductive Event
  | started (token : String) (at_time : ℕ)
  | ended (token : String) (created : ℕ) (result : Rotation)
  | dropped (token : String) (created : ℕ)
  | returned (token : String) (arrived : ℕ) (result : Rotation)

/-- `RefreshCache`, with the clock, the entries and the callers so far. -/
structure RefreshCache (Digest : Type) where
  now : ℕ
  heap : List Entry
  entries : List (Digest × ℕ)
  callers : List Caller
  log : List Event

inductive Op
  | tick (elapsed : ℕ)
  | rotate (token : String)
  | lock (n : ℕ)
  | answer (n : ℕ) (result : Except Error AuthResult)
  | drop (n : ℕ)

variable {Digest : Type} [DecidableEq Digest]

/-- `RefreshCache::default()` -/
def RefreshCache.default : RefreshCache Digest where
  now := 0
  heap := []
  entries := []
  callers := []
  log := []

namespace RefreshCache

/-- `Arc::strong_count(e) > 1`: a caller has the entry. -/
def shared (s : RefreshCache Digest) (i : ℕ) : Bool :=
  s.callers.any (fun c => decide (c.entry = i ∧ c.stage ≠ .gone))

/-- `entries.retain(..)` -/
def retain (s : RefreshCache Digest) : RefreshCache Digest :=
  { s with
    entries := s.entries.filter (fun p =>
      (s.heap[p.2]?).any (fun e => decide (s.now - e.created < HANDOFF_TTL)) || s.shared p.2) }

def locked (s : RefreshCache Digest) (i : ℕ) : Bool :=
  s.callers.any (fun c => decide (c.entry = i ∧ c.stage = .calling))

def record (s : RefreshCache Digest) (events : List Event) : RefreshCache Digest :=
  { s with log := s.log ++ events }

def join (s : RefreshCache Digest) (token : String) (i : ℕ) : RefreshCache Digest :=
  { s with callers := s.callers ++ [⟨token, s.now, i, .waiting⟩] }

def move (s : RefreshCache Digest) (n : ℕ) (c : Caller) (stage : Stage) : RefreshCache Digest :=
  { s with callers := s.callers.set n { c with stage := stage } }

/-- A caller takes the lock of its entry, which is free. -/
def enter (s : RefreshCache Digest) (n : ℕ) (c : Caller) : RefreshCache Digest :=
  match (s.heap[c.entry]?).bind Entry.result with
  | some result => (s.move n c .gone).record [.returned c.token c.arrived result]
  | none => (s.move n c .calling).record [.started c.token s.now]

def answer (s : RefreshCache Digest) (n : ℕ) (c : Caller) (e : Entry) (result : Rotation) :
    RefreshCache Digest :=
  { (s.move n c .gone).record [.ended c.token e.created result,
      .returned c.token c.arrived result] with
    heap := if retained result then s.heap.set c.entry { e with result := some result }
      else s.heap }

/-- The first part of `rotate_at`, under the lock of the map. -/
def rotate (digest : String → Digest) (s : RefreshCache Digest) (token : String) :
    RefreshCache Digest :=
  if refused token then s.record [.returned token s.now (.error .Unauthorized)]
  else
    match s.retain.entries.find? (fun p => decide (p.1 = digest token)) with
    | some (_, i) => s.retain.join token i
    | none =>
      if 1024 ≤ s.retain.entries.length then
        s.retain.record [.returned token s.now (.error .Unavailable)]
      else
        { s.retain.join token s.heap.length with
          heap := s.heap ++ [⟨s.now, none⟩]
          entries := s.retain.entries ++ [(digest token, s.heap.length)] }

/-- One step of one caller, or of the outside. -/
def step (digest : String → Digest) (s : RefreshCache Digest) : Op → RefreshCache Digest
  | .tick elapsed => { s with now := s.now + elapsed }
  | .rotate token => s.rotate digest token
  | .lock n =>
    match s.callers[n]? with
    | some c => if c.stage = .waiting ∧ s.locked c.entry = false then s.enter n c else s
    | none => s
  | .answer n result =>
    match s.callers[n]? with
    | some c =>
      match s.heap[c.entry]? with
      | some e => if c.stage = .calling then s.answer n c e (accept result) else s
      | none => s
    | none => s
  | .drop n =>
    match s.callers[n]? with
    | some c =>
      match c.stage, s.heap[c.entry]? with
      | .waiting, _ => s.move n c .gone
      | .calling, some e => (s.move n c .gone).record [.dropped c.token e.created]
      | _, _ => s
    | none => s

end RefreshCache

end Appcall.Web
