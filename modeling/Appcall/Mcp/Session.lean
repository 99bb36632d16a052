/-
The sessions of an MCP server: `SessionRegistry` in `crates/appcall-mcp/src/session.rs`.

The registry never holds a session id, only its digest, with what the session is bound
to and when it was used last. Sessions that have not been used for longer than the TTL
are dropped before anything else is done. An instant is a number of nanoseconds.
-/
import Appcall.Lib.Table
import Appcall.Mcp.Scope

set_option autoImplicit false

namespace Appcall.Mcp

def MAX_MCP_SESSION_ID_BYTES : ℕ := 128

def MAX_MCP_SESSIONS : ℕ := 1024

def MAX_MCP_SESSIONS_PER_PRINCIPAL : ℕ := 16

def SESSION_RANDOM_BYTES : ℕ := 32

def SESSION_GENERATION_ATTEMPTS : ℕ := 8

/-- `SESSION_TTL`: half an hour. -/
def SESSION_TTL : ℕ := 30 * 60 * 10 ^ 9

structure SessionBinding where
  project_id : String
  account_id : String
  profile : String
  auth_context_fingerprint : String
  deriving DecidableEq

def SessionBinding.from_scope (scope : Scope) (context : McpRequestContext) : SessionBinding where
  project_id := scope.project_id
  account_id := scope.account_id
  profile := scope.profile
  auth_context_fingerprint := context.auth_context_fingerprint

def SessionBinding.same_principal (b other : SessionBinding) : Bool :=
  decide (b.project_id = other.project_id) && decide (b.account_id = other.account_id)
    && decide (b.auth_context_fingerprint = other.auth_context_fingerprint)

inductive SessionError
  | Capacity | Quota | Invalid | Unknown | Mismatch | Unavailable
  deriving DecidableEq

/-- `SessionEntry`, under its key. -/
structure SessionEntry where
  key : String
  binding : SessionBinding
  last_used : ℕ

structure SessionRegistry where
  entries : Table SessionEntry.key
  capacity : ℕ
  principal_quota : ℕ
  ttl : ℕ

/-- The bytes that `getrandom::fill` writes. -/
structure Random where
  bytes : List UInt8
  length_eq : bytes.length = SESSION_RANDOM_BYTES

def Random.session_id (random : Random) : String := String.ofList (Base64.encode random.bytes)

def session_key (sha256 : List UInt8 → List UInt8) (session_id : String) : String :=
  encode_digest sha256 (Json.bytes session_id.toList)

def valid_session_id (session_id : String) : Bool :=
  !session_id.isEmpty && decide (session_id.utf8ByteSize ≤ MAX_MCP_SESSION_ID_BYTES)
    && session_id.toList.all (fun c => decide (33 ≤ c.toNat) && decide (c.toNat ≤ 126))

namespace SessionRegistry

def new_with_limits (capacity principal_quota ttl : ℕ) : SessionRegistry :=
  ⟨Table.empty, capacity, principal_quota, ttl⟩

def new (capacity : ℕ) : SessionRegistry :=
  new_with_limits capacity MAX_MCP_SESSIONS_PER_PRINCIPAL SESSION_TTL

def len (r : SessionRegistry) : ℕ := r.entries.rows.length

/-- The number of sessions of the principal of a binding. -/
def principal_len (r : SessionRegistry) (binding : SessionBinding) : ℕ :=
  r.entries.rows.countP (fun e => e.binding.same_principal binding)

def reclaim_expired (r : SessionRegistry) (now : ℕ) : SessionRegistry :=
  { r with entries := r.entries.delete (fun e => decide (r.ttl < now - e.last_used)) }

/-- The loop of `issue_at`: an id whose key is taken is drawn again. -/
def generate (sha256 : List UInt8 → List UInt8) (r : SessionRegistry) (binding : SessionBinding)
    (now : ℕ) : List (Option Random) → SessionRegistry × Except SessionError String
  | [] => (r, .error .Unavailable)
  | none :: _ => (r, .error .Unavailable)
  | some random :: draws =>
    match r.entries.insert ⟨session_key sha256 random.session_id, binding, now⟩ with
    | some entries => ({ r with entries }, .ok random.session_id)
    | none => generate sha256 r binding now draws

/-- `issue_at`; `draw` is what `getrandom::fill` does at each attempt. -/
def issue_at (sha256 : List UInt8 → List UInt8) (r : SessionRegistry) (binding : SessionBinding)
    (now : ℕ) (draw : ℕ → Option Random) : SessionRegistry × Except SessionError String :=
  let r := r.reclaim_expired now
  if r.capacity ≤ r.len then (r, .error .Capacity)
  else if r.principal_quota ≤ r.principal_len binding then (r, .error .Quota)
  else r.generate sha256 binding now ((List.range SESSION_GENERATION_ATTEMPTS).map draw)

def validate_at (sha256 : List UInt8 → List UInt8) (r : SessionRegistry) (session_id : String)
    (binding : SessionBinding) (now : ℕ) : SessionRegistry × Except SessionError Unit :=
  if valid_session_id session_id = false then (r, .error .Invalid)
  else
    let r := r.reclaim_expired now
    let key := session_key sha256 session_id
    match r.entries.find key with
    | some existing =>
      if existing.binding = binding then
        let entries := r.entries.modify key ({ · with last_used := now }) (fun _ => rfl)
        ({ r with entries }, .ok ())
      else (r, .error .Mismatch)
    | none => (r, .error .Unknown)

def close_at (sha256 : List UInt8 → List UInt8) (r : SessionRegistry) (session_id : String)
    (binding : SessionBinding) (now : ℕ) : SessionRegistry × Except SessionError Unit :=
  if valid_session_id session_id = false then (r, .error .Invalid)
  else
    let r := r.reclaim_expired now
    let key := session_key sha256 session_id
    match r.entries.find key with
    | some existing =>
      if existing.binding = binding then
        ({ r with entries := r.entries.delete (fun e => decide (e.key = key)) }, .ok ())
      else (r, .error .Mismatch)
    | none => (r, .error .Unknown)

/-! ## What an operation can do -/

theorem mem_reclaim_expired {r : SessionRegistry} {now : ℕ} {e : SessionEntry} :
    e ∈ (r.reclaim_expired now).entries.rows
      ↔ e ∈ r.entries.rows ∧ now ≤ e.last_used + r.ttl := by
  rw [reclaim_expired, Table.delete, List.mem_filter, Bool.not_eq_true', decide_eq_false_iff_not]
  exact and_congr_right fun _ => by omega

theorem reclaim_expired_sublist (r : SessionRegistry) (now : ℕ) :
    (r.reclaim_expired now).entries.rows.Sublist r.entries.rows := List.filter_sublist

variable (sha256 : List UInt8 → List UInt8)

theorem generate_cases (r : SessionRegistry) (binding : SessionBinding) (now : ℕ)
    (draws : List (Option Random)) :
    (∃ error, r.generate sha256 binding now draws = (r, .error error))
    ∨ (∃ random entries, some random ∈ draws
      ∧ r.entries.insert ⟨session_key sha256 random.session_id, binding, now⟩ = some entries
      ∧ r.generate sha256 binding now draws = ({ r with entries }, .ok random.session_id)) := by
  induction draws with
  | nil => exact .inl ⟨_, rfl⟩
  | cons draw draws ih =>
    cases draw with
    | none => exact .inl ⟨_, rfl⟩
    | some random =>
      rw [generate]
      cases hinsert : r.entries.insert ⟨session_key sha256 random.session_id, binding, now⟩ with
      | some entries => exact .inr ⟨random, entries, List.mem_cons_self, hinsert, rfl⟩
      | none =>
        rcases ih with h | ⟨random', entries, hmem, h⟩
        · exact .inl h
        · exact .inr ⟨random', entries, List.mem_cons_of_mem _ hmem, h⟩

/-- A session is issued under a new key, when there is room for it and for its
principal. -/
theorem issue_at_cases (r : SessionRegistry) (binding : SessionBinding) (now : ℕ)
    (draw : ℕ → Option Random) :
    (∃ error, r.issue_at sha256 binding now draw = (r.reclaim_expired now, .error error))
    ∨ (∃ random k entries, draw k = some random
      ∧ (r.reclaim_expired now).len < r.capacity
      ∧ (r.reclaim_expired now).principal_len binding < r.principal_quota
      ∧ (r.reclaim_expired now).entries.insert
        ⟨session_key sha256 random.session_id, binding, now⟩ = some entries
      ∧ r.issue_at sha256 binding now draw
        = ({ r.reclaim_expired now with entries }, .ok random.session_id)) := by
  rw [issue_at]
  dsimp only
  split
  next => exact .inl ⟨_, rfl⟩
  next hroom =>
    split
    next => exact .inl ⟨_, rfl⟩
    next hquota =>
      rcases generate_cases sha256 (r.reclaim_expired now) binding now
        ((List.range SESSION_GENERATION_ATTEMPTS).map draw) with h | ⟨random, entries, hmem, h⟩
      · exact .inl h
      · obtain ⟨k, -, hk⟩ := List.mem_map.mp hmem
        exact .inr ⟨random, k, entries, hk, Nat.lt_of_not_le hroom, Nat.lt_of_not_le hquota, h⟩

theorem validate_at_cases (r : SessionRegistry) (session_id : String) (binding : SessionBinding)
    (now : ℕ) : (∃ r' error, r.validate_at sha256 session_id binding now = (r', .error error)
      ∧ (r' = r ∨ r' = r.reclaim_expired now))
    ∨ (∃ e, (r.reclaim_expired now).entries.find (session_key sha256 session_id) = some e
      ∧ e.binding = binding ∧ valid_session_id session_id = true
      ∧ r.validate_at sha256 session_id binding now
        = ({ r.reclaim_expired now with
            entries := (r.reclaim_expired now).entries.modify (session_key sha256 session_id)
              ({ · with last_used := now }) (fun _ => rfl) }, .ok ())) := by
  rw [validate_at]
  split
  next => exact .inl ⟨_, _, rfl, .inl rfl⟩
  next hvalid =>
    dsimp only
    split
    next e hfind =>
      split
      next hbinding =>
        exact .inr ⟨e, hfind, hbinding, Bool.eq_true_of_not_eq_false hvalid, rfl⟩
      next => exact .inl ⟨_, _, rfl, .inr rfl⟩
    next => exact .inl ⟨_, _, rfl, .inr rfl⟩

theorem close_at_cases (r : SessionRegistry) (session_id : String) (binding : SessionBinding)
    (now : ℕ) : (∃ r' error, r.close_at sha256 session_id binding now = (r', .error error)
      ∧ (r' = r ∨ r' = r.reclaim_expired now))
    ∨ (∃ e, (r.reclaim_expired now).entries.find (session_key sha256 session_id) = some e
      ∧ e.binding = binding
      ∧ r.close_at sha256 session_id binding now
        = ({ r.reclaim_expired now with
            entries := (r.reclaim_expired now).entries.delete
              (fun e => decide (e.key = session_key sha256 session_id)) }, .ok ())) := by
  rw [close_at]
  split
  next => exact .inl ⟨_, _, rfl, .inl rfl⟩
  next hvalid =>
    dsimp only
    split
    next e hfind =>
      split
      next hbinding => exact .inr ⟨e, hfind, hbinding, rfl⟩
      next => exact .inl ⟨_, _, rfl, .inr rfl⟩
    next => exact .inl ⟨_, _, rfl, .inr rfl⟩

end SessionRegistry

theorem Random.session_id_ne (random : Random) : random.session_id ≠ "" := by
  intro h
  have hlength := Base64.length_encode random.bytes
  rw [random.length_eq, List.eq_nil_of_length_eq_zero (l := Base64.encode random.bytes)] at hlength
  · cases hlength
  · have := congrArg (fun s => s.toList.length) h
    simpa [Random.session_id] using this

end Appcall.Mcp
