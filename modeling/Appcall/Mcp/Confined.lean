/-
MCP sessions confine requests.

Two parsers read a body, and the session is not looked at when the first finds it
invalid. So the file begins with what the second does on such a body: nothing that
anybody else could notice (`invalid_acts_not`). Everything else an HTTP call does passes
the session check, and what the check lets through was issued to the caller, is open and
was not left unused for longer than the TTL (`Entitled`). A cancellation reaches the
requests of its own scope and session only, because they are in the key.
-/
import Appcall.Mcp.History
import Appcall.Mcp.Leaks

set_option autoImplicit false

namespace Appcall.Mcp

variable {ν ρ : Type} {config : ServerConfig ν}

/-! ## Bodies -/

/-- The body asks for a tool call or for a cancellation. -/
def Handled.acts : Handled ν → Bool
  | .cancel_request _ | .call_tool _ _ _ => true
  | _ => false

variable {raw : List UInt8} {request_id : String} {c : Call ν ρ}

/-- A body that asks for something is a request of JSON-RPC 2.0 with a method, and with an
id that is bounded, if any. -/
theorem acting_request (h : (config.handle_with_context raw).acts = true) :
    ∃ fields method, config.from_slice raw = some (.object fields)
      ∧ ((Value.object fields).get "jsonrpc").bind Value.as_str = some "2.0"
      ∧ ((Value.object fields).get "method").bind Value.as_str = some method ∧ method ≠ ""
      ∧ ((method = "notifications/cancelled"
          ∧ config.handle_with_context raw = .cancel_request ((Value.object fields).get "params")
          ∧ ∀ id, (Value.object fields).get "id" = some id →
            config.bounded_request_id id ≠ none)
        ∨ ∃ id request_id, (Value.object fields).get "id" = some id
          ∧ config.bounded_request_id id = some request_id
          ∧ config.handle_with_context raw
            = handle_method (.object fields) method id request_id) := by
  generalize hhandled : config.handle_with_context raw = handled at h ⊢
  rw [ServerConfig.handle_with_context] at hhandled
  split at hhandled
  next =>
    subst hhandled
    cases h
  next =>
    subst hhandled
    cases h
  next request _ hparsed =>
    split at hhandled
    next =>
      subst hhandled
      cases h
    next =>
      split at hhandled
      next =>
        subst hhandled
        cases h
      next hobject =>
        obtain ⟨fields, rfl⟩ : ∃ fields, request = .object fields := by
          cases request with
          | object fields => exact ⟨fields, rfl⟩
          | _ => exact absurd rfl hobject
        dsimp only at hhandled
        split at hhandled
        next =>
          split at hhandled <;> subst hhandled <;> cases h
        next hversion =>
          rw [not_or, not_not] at hversion
          obtain ⟨hjsonrpc, hmethod⟩ := hversion
          obtain ⟨method, hget⟩ : ∃ method,
              ((Value.object fields).get "method").bind Value.as_str = some method := by
            cases hget : ((Value.object fields).get "method").bind Value.as_str with
            | none =>
              rw [hget] at hmethod
              exact absurd rfl hmethod
            | some method => exact ⟨method, rfl⟩
          rw [hget, Option.getD_some] at hhandled hmethod
          refine ⟨fields, method, hparsed, hjsonrpc, hget, hmethod, ?_⟩
          split at hhandled
          next =>
            subst hhandled
            cases h
          next hbounded =>
            split at hhandled
            next hcancelled =>
              refine .inl ⟨hcancelled, hhandled.symm, ?_⟩
              intro id hid hnone
              rw [hid, Option.map_some, hnone] at hbounded
              exact hbounded rfl
            next =>
              split at hhandled
              next =>
                subst hhandled
                cases h
              next =>
                split at hhandled
                next id request_id hid hrequest =>
                  rw [hid, Option.map_some, Option.some.injEq] at hrequest
                  exact .inr ⟨id, request_id, hid, hrequest, hhandled.symm⟩
                next =>
                  subst hhandled
                  cases h

theorem acting_method {object : Value ν} {method : String} {id : Value ν}
    (h : (handle_method object method id request_id).acts = true) :
    method = "tools/call" ∧ valid_call_params (object.get "params") = true
      ∧ ∃ call, handle_method object method id request_id = .call_tool id request_id call := by
  generalize hhandled : handle_method object method id request_id = handled at h ⊢
  rw [handle_method] at hhandled
  split at hhandled
  next =>
    split at hhandled <;> subst hhandled <;> cases h
  next =>
    split at hhandled
    next =>
      subst hhandled
      cases h
    next =>
      split at hhandled
      next =>
        subst hhandled
        cases h
      next =>
        split at hhandled
        next hmethod =>
          dsimp only at hhandled
          split at hhandled
          next =>
            subst hhandled
            cases h
          next call hcall =>
            split at hhandled
            next =>
              subst hhandled
              cases h
            next hname =>
              refine ⟨hmethod, ?_, call, hhandled.symm⟩
              rw [valid_call_params.eq_def]
              split at hcall
              next =>
                cases hcall
                exact absurd rfl hname
              next =>
                cases hcall
                exact absurd rfl hname
              next => simp [hcall, hname]
        next =>
          subst hhandled
          cases h

theorem cancel_admission {params : Option (Value ν)}
    (h : config.handle_with_context raw = .cancel_request params) :
    config.session_admission raw = .Notification := by
  obtain ⟨fields, method, hparsed, hjsonrpc, hmethod, hne, hcases⟩ :=
    acting_request (show (config.handle_with_context raw).acts = true by rw [h]; rfl)
  rw [ServerConfig.session_admission, hparsed]
  dsimp only
  rw [hjsonrpc, hmethod]
  dsimp only
  rw [if_neg (by simp [hne])]
  rcases hcases with ⟨rfl, -, hbounded⟩ | ⟨id, request_id, -, -, hhandled⟩
  · cases hid : (Value.object fields).get "id" with
    | none => rfl
    | some id =>
      dsimp only
      rw [if_neg (hbounded id hid), if_pos (by decide)]
  · rw [h] at hhandled
    obtain ⟨-, -, call, hcall⟩ := acting_method (by rw [← hhandled]; rfl)
    rw [hcall] at hhandled
    cases hhandled

theorem call_admission {id : Value ν} {params : CallParams ν}
    (h : config.handle_with_context raw = .call_tool id request_id params) :
    config.session_admission raw = .Request := by
  obtain ⟨fields, method, hparsed, hjsonrpc, hmethod, hne, hcases⟩ :=
    acting_request (show (config.handle_with_context raw).acts = true by rw [h]; rfl)
  rcases hcases with ⟨-, hhandled, -⟩ | ⟨id', request_id', hid, hbounded, hhandled⟩
  · rw [h] at hhandled
    cases hhandled
  · rw [h] at hhandled
    obtain ⟨rfl, hvalid, -⟩ := acting_method (by rw [← hhandled]; rfl)
    rw [ServerConfig.session_admission, hparsed]
    dsimp only
    rw [hjsonrpc, hmethod]
    dsimp only
    rw [if_neg (by simp), hid]
    dsimp only
    rw [hbounded, if_neg (by simp), if_neg (by decide), if_neg (by simp),
      if_neg (by simp [hvalid])]

/-- **Invalid bodies.** A body that `session_admission` finds invalid calls no tool and
cancels nothing. -/
theorem invalid_acts_not (h : config.session_admission raw = .Invalid) (scope : Scope)
    (context : McpRequestContext) (call : ℕ) :
    (Server.handled_op config scope context call (config.handle_with_context raw)
      : Option (Op ν ρ)) = none := by
  cases hhandled : config.handle_with_context raw with
  | call_tool id request_id params =>
    rw [call_admission hhandled] at h
    cases h
  | cancel_request params =>
    rw [cancel_admission hhandled] at h
    cases h
  | _ => rfl

/-! ## What an HTTP call can do -/

/-- The sessions are as they were, or without those that have expired. -/
def Idle (s s' : Server ν ρ) (now : ℕ) : Prop :=
  s'.history = s.history
    ∧ (s'.sessions = s.sessions ∨ s'.sessions = s.sessions.reclaim_expired now)

/-- The session that a call names is open, and bound to the caller. -/
def Bound (config : ServerConfig ν) (s : Server ν ρ) (request : HttpRequest) (now : ℕ)
    (id : String) (e : SessionEntry) : Prop :=
  (request.context config.sha256).session_id = some id
    ∧ (s.sessions.reclaim_expired now).entries.find (session_key config.sha256 id) = some e
    ∧ e.binding = request.binding config.sha256

theorem used_key (now : ℕ) (e : SessionEntry) :
    SessionEntry.key { e with last_used := now } = e.key := rfl

def SessionRegistry.use (sha256 : List UInt8 → List UInt8) (r : SessionRegistry) (id : String)
    (now : ℕ) : SessionRegistry :=
  { r with
    entries := r.entries.modify (session_key sha256 id) ({ · with last_used := now })
      (used_key now) }

def SessionRegistry.remove (sha256 : List UInt8 → List UInt8) (r : SessionRegistry)
    (id : String) : SessionRegistry :=
  { r with entries := r.entries.delete (fun e => decide (e.key = session_key sha256 id)) }

/-- A body is handled when nothing is asked of the session, when the session that it is
sent in was validated, or when one was issued for it. -/
theorem admit_session_cases (config : ServerConfig ν) (s : Server ν ρ) (request : HttpRequest)
    (now : ℕ) (draw : ℕ → Option Random) :
    (∃ s' error, s.admit_session config request now draw = (s', .error error)
      ∧ s'.in_flight = s.in_flight ∧ Idle s s' now)
    ∨ (s.admit_session config request now draw = (s, .ok (request.context config.sha256))
      ∧ (config.session_admission request.body = .Invalid
        ∨ (request.context config.sha256).session_id = none))
    ∨ (∃ id e, Bound config s request now id e ∧ valid_session_id id = true
      ∧ s.admit_session config request now draw
        = (⟨(s.sessions.reclaim_expired now).use config.sha256 id now, s.in_flight,
            .used id now :: s.history⟩, .ok (request.context config.sha256)))
    ∨ (∃ random k entries, (request.context config.sha256).session_id = none
      ∧ config.session_admission request.body = .Request ∧ draw k = some random
      ∧ (s.sessions.reclaim_expired now).len < s.sessions.capacity
      ∧ (s.sessions.reclaim_expired now).principal_len (request.binding config.sha256)
        < s.sessions.principal_quota
      ∧ (s.sessions.reclaim_expired now).entries.insert
        ⟨session_key config.sha256 random.session_id, request.binding config.sha256, now⟩
          = some entries
      ∧ s.admit_session config request now draw
        = (⟨{ s.sessions.reclaim_expired now with entries }, s.in_flight,
            .issued random.session_id request now :: s.history⟩,
          .ok ((request.context config.sha256).with_session_id random.session_id))) := by
  rw [Server.admit_session]
  dsimp only
  split
  next hinvalid => exact .inr (.inl ⟨rfl, .inl hinvalid⟩)
  next id hid _ =>
    rcases s.sessions.validate_at_cases config.sha256 id (request.binding config.sha256) now with
      ⟨r, error, heq, hr⟩ | ⟨e, hfind, hbinding, hvalid, heq⟩
    · rw [HttpRequest.binding] at heq
      rw [heq]
      exact .inl ⟨_, error, rfl, rfl, rfl, hr⟩
    · rw [HttpRequest.binding] at heq
      rw [heq]
      exact .inr (.inr (.inl ⟨id, e, ⟨hid, hfind, hbinding⟩, hvalid, rfl⟩))
  next hrequest hnone =>
    split
    next =>
      rcases s.sessions.issue_at_cases config.sha256 (request.binding config.sha256) now draw with
        ⟨error, heq⟩ | ⟨random, k, entries, hdraw, hroom, hquota, hinsert, heq⟩
      · rw [HttpRequest.binding] at heq
        rw [heq]
        exact .inl ⟨_, error, rfl, rfl, rfl, .inr rfl⟩
      · rw [HttpRequest.binding] at heq
        rw [heq]
        exact .inr (.inr (.inr ⟨random, k, entries, hnone, hrequest, hdraw, hroom, hquota,
          hinsert, rfl⟩))
    next => exact .inr (.inl ⟨rfl, .inr hnone⟩)
  next hnone => exact .inr (.inl ⟨rfl, .inr hnone⟩)

/-- An HTTP call changes nothing but expired sessions, closes the session that it names,
or is admitted and handled. -/
theorem http_cases (config : ServerConfig ν) (s : Server ν ρ) (request : HttpRequest) (now : ℕ)
    (draw : ℕ → Option Random) (call : ℕ) :
    ((s.http config request now draw call).1.in_flight = s.in_flight
      ∧ Idle s (s.http config request now draw call).1 now)
    ∨ (∃ id e, Bound config s request now id e ∧ (s.http config request now draw call).1
      = ⟨(s.sessions.reclaim_expired now).remove config.sha256 id, s.in_flight,
          .closed id :: s.history⟩)
    ∨ (∃ s' context, s.admit_session config request now draw = (s', .ok context)
      ∧ (s.http config request now draw call).1
        = s'.handle_with_context config request.scope context request.body call) := by
  have hidle : Idle s s now := ⟨rfl, .inl rfl⟩
  have hinner : ((s.handle_http_with_context_inner config request now draw call).1.in_flight
        = s.in_flight
      ∧ Idle s (s.handle_http_with_context_inner config request now draw call).1 now)
    ∨ (∃ id e, Bound config s request now id e
      ∧ (s.handle_http_with_context_inner config request now draw call).1
        = ⟨(s.sessions.reclaim_expired now).remove config.sha256 id, s.in_flight,
            .closed id :: s.history⟩)
    ∨ (∃ s' context, s.admit_session config request now draw = (s', .ok context)
      ∧ (s.handle_http_with_context_inner config request now draw call).1
        = s'.handle_with_context config request.scope context request.body call) := by
    rw [Server.handle_http_with_context_inner]
    split
    next => exact .inl ⟨rfl, hidle⟩
    next =>
      split
      next =>
        rw [Server.close_session]
        dsimp only
        split
        next => exact .inl ⟨rfl, hidle⟩
        next id hid =>
          rcases s.sessions.close_at_cases config.sha256 id (request.binding config.sha256) now
            with ⟨r, error, heq, hr⟩ | ⟨e, hfind, hbinding, heq⟩
          · rw [HttpRequest.binding] at heq
            rw [heq]
            exact .inl ⟨rfl, rfl, hr⟩
          · rw [HttpRequest.binding] at heq
            rw [heq]
            exact .inr (.inl ⟨id, e, ⟨hid, hfind, hbinding⟩, rfl⟩)
      next =>
        split
        next => exact .inl ⟨rfl, hidle⟩
        next =>
          split
          next => exact .inl ⟨rfl, hidle⟩
          next =>
            rcases hadm : s.admit_session config request now draw with ⟨s', error | context⟩
            · rcases admit_session_cases config s request now draw with
                ⟨s'', error', heq, hsame, hidle'⟩ | ⟨heq, -⟩ | ⟨id, e, -, -, heq⟩
                | ⟨random, k, entries, -, -, -, -, -, -, heq⟩
              · rw [hadm] at heq
                cases heq
                exact .inl ⟨hsame, hidle'⟩
              · rw [hadm] at heq
                cases heq
              · rw [hadm] at heq
                cases heq
              · rw [hadm] at heq
                cases heq
            · exact .inr (.inr ⟨s', context, rfl, rfl⟩)
  rw [Server.http]
  split
  next =>
    split
    next => exact .inl ⟨rfl, hidle⟩
    next =>
      split
      next => exact .inl ⟨rfl, hidle⟩
      next => exact hinner
  next => exact hinner

/-! ## The invariant -/

/-- What holds of a server whose inputs do not collide. -/
structure Server.Confined (config : ServerConfig ν) (hashed : Set (List UInt8))
    (s : Server ν ρ) : Prop where
  sessions : SessionsSound config.sha256 hashed s.sessions s.history
  in_flight : s.in_flight.Sound
  named : ∀ c ∈ s.in_flight.calls.rows, c.context.session_id ≠ some ""
  keyed : ∀ c ∈ s.in_flight.calls.rows, ∃ request_id,
    c.key = config.key c.scope c.context request_id

variable {s : Server ν ρ} {hashed : Set (List UInt8)} {request : HttpRequest} {now call : ℕ}
  {draw : ℕ → Option Random}

theorem handle_sessions (config : ServerConfig ν) (s : Server ν ρ) (scope : Scope)
    (context : McpRequestContext) (body : List UInt8) (call : ℕ) :
    (s.handle_with_context config scope context body call).sessions = s.sessions
      ∧ (s.handle_with_context config scope context body call).history = s.history := by
  rw [Server.handle_with_context]
  split
  next => exact ⟨rfl, rfl⟩
  next => exact ⟨rfl, rfl⟩

theorem sessions_of_idle {s' : Server ν ρ} (hs : SessionsSound config.sha256 hashed s.sessions
    s.history) (h : Idle s s' now) :
    SessionsSound config.sha256 hashed s'.sessions s'.history := by
  obtain ⟨hhistory, hsessions⟩ := h
  rw [hhistory]
  rcases hsessions with heq | heq
  · rw [heq]
    exact hs
  · rw [heq]
    exact hs.reclaim now

theorem http_sessions (hs : SessionsSound config.sha256 hashed s.sessions s.history)
    (hfree : Set.InjOn config.sha256 hashed)
    (hop : (ServerOp.http request now draw call : ServerOp ρ).hashed config.sha256 ⊆ hashed) :
    SessionsSound config.sha256 hashed (s.http config request now draw call).1.sessions
      (s.http config request now draw call).1.history := by
  have hrequest : request.hashed config.sha256 ⊆ hashed :=
    fun _ h => hop (.inl h)
  have hcarried : ∀ {id e}, Bound config s request now id e → Json.bytes id.toList ∈ hashed :=
    fun h => hrequest (.inl ⟨_, h.1, rfl⟩)
  rcases http_cases config s request now draw call with ⟨-, hidle⟩ | ⟨id, e, -, heq⟩
    | ⟨s', context, hadm, heq⟩
  · exact sessions_of_idle hs hidle
  · rw [heq]
    exact (hs.reclaim now).closed id
  · obtain ⟨hsame, hhistory⟩ := handle_sessions config s' request.scope
      context request.body call
    rw [heq, hsame, hhistory]
    rcases admit_session_cases config s request now draw with ⟨s'', error, heq', -, -⟩
      | ⟨heq', -⟩ | ⟨id, e, hbound, -, heq'⟩
      | ⟨random, k, entries, -, -, hdraw, hroom, hquota, hinsert, heq'⟩
    · rw [hadm] at heq'
      cases heq'
    · rw [hadm] at heq'
      cases heq'
      exact hs
    · rw [hadm] at heq'
      cases heq'
      obtain ⟨hmem, -⟩ := Table.find_eq_some.mp hbound.2.1
      exact (hs.reclaim now).used hfree (hcarried hbound) hbound.2.1
        (SessionRegistry.mem_reclaim_expired.mp hmem).2
    · rw [hadm] at heq'
      cases heq'
      have hid : Json.bytes random.session_id.toList ∈ hashed :=
        hop (.inr ⟨k, random, hdraw, rfl⟩)
      exact (hs.reclaim now).issued hid hrequest hroom hquota hinsert

theorem valid_session_id_ne {id : String} (h : valid_session_id id = true) : id ≠ "" := by
  rintro rfl
  revert h
  decide

/-- What an HTTP call does to the requests in flight, it does as a caller that may act in
the session it names. -/
theorem http_acts (now call : ℕ) (draw : ℕ → Option Random)
    (hs : SessionsSound config.sha256 hashed s.sessions s.history)
    (hfree : Set.InjOn config.sha256 hashed) (hrequest : request.hashed config.sha256 ⊆ hashed) :
    (s.http config request now draw call).1.in_flight = s.in_flight
    ∨ ∃ context op, Entitled config.sha256 s.sessions.ttl s.history request now
      ∧ context.session_id ≠ some ""
      ∧ (context = request.context config.sha256
        ∨ config.session_admission request.body = .Request)
      ∧ Server.handled_op config request.scope context call
        (config.handle_with_context request.body) = some op
      ∧ (s.http config request now draw call).1.in_flight
        = step config.toConfig s.in_flight op := by
  rcases http_cases config s request now draw call with ⟨hsame, -⟩ | ⟨id, e, -, heq⟩
    | ⟨s', context, hadm, heq⟩
  · exact .inl hsame
  · rw [heq]
    exact .inl rfl
  · rw [heq]
    have hunnamed : (request.context config.sha256).session_id = none →
        Entitled config.sha256 s.sessions.ttl s.history request now := by
      intro hnone id hid
      rw [hnone] at hid
      cases hid
    -- whom the body is handled for, and that the requests in flight are as before
    obtain ⟨hsame, hinvalid | ⟨hentitled, hnamed, hcontext⟩⟩ :
        s'.in_flight = s.in_flight ∧ (config.session_admission request.body = .Invalid
          ∨ (Entitled config.sha256 s.sessions.ttl s.history request now
            ∧ context.session_id ≠ some ""
            ∧ (context = request.context config.sha256
              ∨ config.session_admission request.body = .Request))) := by
      rcases admit_session_cases config s request now draw with ⟨s'', error, heq', -, -⟩
        | ⟨heq', hwhy⟩ | ⟨id, e, hbound, hvalid, heq'⟩
        | ⟨random, k, entries, hnone, hadmission, -, -, -, -, heq'⟩
      · rw [hadm] at heq'
        cases heq'
      · rw [hadm] at heq'
        cases heq'
        refine ⟨rfl, hwhy.imp_right fun hnone => ⟨hunnamed hnone, ?_, .inl rfl⟩⟩
        rw [hnone]
        simp
      · rw [hadm] at heq'
        cases heq'
        refine ⟨rfl, .inr ⟨hs.entitled hfree hrequest hbound.1 hbound.2.1 hbound.2.2, ?_,
          .inl rfl⟩⟩
        rw [hbound.1]
        exact fun h => valid_session_id_ne hvalid (Option.some.inj h)
      · rw [hadm] at heq'
        cases heq'
        exact ⟨rfl, .inr ⟨hunnamed hnone,
          fun h => random.session_id_ne (Option.some.inj h), .inr hadmission⟩⟩
    · left
      rw [Server.handle_with_context, invalid_acts_not hinvalid]
      exact hsame
    · rw [Server.handle_with_context]
      split
      next => exact .inl hsame
      next op hop =>
        refine .inr ⟨context, op, hentitled, hnamed, hcontext, hop, ?_⟩
        rw [← hsame]

theorem http_closes (hs : SessionsSound config.sha256 hashed s.sessions s.history)
    (hfree : Set.InjOn config.sha256 hashed) (hrequest : request.hashed config.sha256 ⊆ hashed)
    {e : SessionEntry} (he : e ∈ s.sessions.entries.rows)
    (hnow : now ≤ e.last_used + s.sessions.ttl)
    (hgone : (s.http config request now draw call).1.sessions.entries.find e.key = none) :
    Entitled config.sha256 s.sessions.ttl s.history request now := by
  have hkept : (s.sessions.reclaim_expired now).entries.find e.key = some e :=
    Table.find_eq_some.mpr ⟨SessionRegistry.mem_reclaim_expired.mpr ⟨he, hnow⟩, rfl⟩
  have hfind : s.sessions.entries.find e.key = some e := Table.find_eq_some.mpr ⟨he, rfl⟩
  rcases http_cases config s request now draw call with ⟨-, -, hidle⟩ | ⟨id, e', hbound, -⟩
    | ⟨s', context, hadm, heq⟩
  · rcases hidle with heq | heq
    · rw [heq, hfind] at hgone
      cases hgone
    · rw [heq, hkept] at hgone
      cases hgone
  · exact hs.entitled hfree hrequest hbound.1 hbound.2.1 hbound.2.2
  · rw [heq, (handle_sessions config s' request.scope context request.body call).1] at hgone
    rcases admit_session_cases config s request now draw with ⟨s'', error, heq', -, -⟩
      | ⟨heq', -⟩ | ⟨id, e', hbound, -, heq'⟩
      | ⟨random, k, entries, -, -, -, -, -, hinsert, heq'⟩
    · rw [hadm] at heq'
      cases heq'
    · rw [hadm] at heq'
      cases heq'
      rw [hfind] at hgone
      cases hgone
    · exact hs.entitled hfree hrequest hbound.1 hbound.2.1 hbound.2.2
    · rw [hadm] at heq'
      cases heq'
      rw [Table.find_insert hinsert] at hgone
      split at hgone
      next => cases hgone
      next =>
        rw [hkept] at hgone
        cases hgone

/-! ## Runs -/

theorem calls_step {config : Config ν} {s : InFlight ν ρ} {op : Op ν ρ}
    (h : c ∈ (step config s op).calls.rows) :
    (∃ c' ∈ s.calls.rows, c.id = c'.id ∧ c.key = c'.key ∧ c.scope = c'.scope
      ∧ c.context = c'.context)
    ∨ ∃ id q tool, op = .call id q ∧ s.calls.find id = none
      ∧ c = config.new_call id q tool := by
  rcases step_cases config s op with ⟨heq, -⟩
    | ⟨id, q, tool, registry, hop, hfresh, -, -, heq⟩ | ⟨c', hc', t, -, hmoves, heq⟩
  · rw [heq] at h
    exact .inl ⟨c, h, rfl, rfl, rfl, rfl⟩
  · rw [heq, calls_insert _ _ hfresh, List.mem_append, List.mem_singleton] at h
    rcases h with h | h
    · exact .inl ⟨c, h, rfl, rfl, rfl, rfl⟩
    · exact .inr ⟨id, q, tool, hop, hfresh, h⟩
  · rw [heq] at h
    rcases mem_take hc' hmoves.id_eq h with rfl | ⟨h, -⟩
    · exact .inl ⟨c', hc', hmoves.id_eq, hmoves.key_eq, hmoves.origin_eq.1, hmoves.origin_eq.2⟩
    · exact .inl ⟨c, h, rfl, rfl, rfl, rfl⟩

theorem handled_op_cases {scope : Scope} {context : McpRequestContext} {handled : Handled ν}
    {op : Op ν ρ} (h : Server.handled_op config scope context call handled = some op) :
    (∃ q, op = .call call q ∧ q.scope = scope ∧ q.context = context)
    ∨ ∃ params request_id connection_id, handled = .cancel_request params
      ∧ op = .cancel scope context request_id connection_id := by
  cases handled with
  | call_tool id request_id params =>
    cases h
    exact .inl ⟨_, rfl, rfl, rfl⟩
  | cancel_request params =>
    rw [Server.handled_op, Option.map_eq_some_iff] at h
    obtain ⟨p, -, rfl⟩ := h
    exact .inr ⟨params, p.1, p.2, rfl, rfl⟩
  | _ => cases h

theorem confined_new (sessions principal_quota ttl in_flight : ℕ) :
    (Server.new_with_limits sessions principal_quota ttl in_flight : Server ν ρ).Confined config
      hashed where
  sessions := SessionsSound.new_with_limits sessions principal_quota ttl
  in_flight := sound_new in_flight
  named := by
    intro c h
    cases h
  keyed := by
    intro c h
    cases h

theorem confined_step (hs : s.Confined config hashed) (hfree : Set.InjOn config.sha256 hashed)
    {op : ServerOp ρ} (hop : op.hashed config.sha256 ⊆ hashed) :
    (serve config s op).Confined config hashed := by
  cases op with
  | move id m =>
    have hin_flight : (step config.toConfig s.in_flight (.move id m)).Sound :=
      sound_step hs.in_flight _
    refine ⟨hs.sessions, hin_flight, ?_, ?_⟩
    · intro c hc
      rcases calls_step hc with ⟨c', hc', -, -, -, hcontext⟩ | ⟨id', q, tool, hcall, -⟩
      · rw [hcontext]
        exact hs.named c' hc'
      · cases hcall
    · intro c hc
      rcases calls_step hc with ⟨c', hc', -, hkey, hscope, hcontext⟩ | ⟨id', q, tool, hcall, -⟩
      · rw [hkey, hscope, hcontext]
        exact hs.keyed c' hc'
      · cases hcall
  | http request now draw call =>
    have hrequest : request.hashed config.sha256 ⊆ hashed := fun _ h => hop (.inl h)
    rw [serve]
    rcases http_acts now call draw hs.sessions hfree hrequest with hsame
      | ⟨context, op, -, hnamed, -, hhandled, heq⟩
    · refine ⟨http_sessions hs.sessions hfree hop, ?_, ?_, ?_⟩
      · rw [hsame]
        exact hs.in_flight
      · rw [hsame]
        exact hs.named
      · rw [hsame]
        exact hs.keyed
    · have hnew : ∀ id q, op = .call id q → q.context = context := by
        intro id q hcall
        rcases handled_op_cases hhandled with ⟨q', hq, -, hcontext⟩ | ⟨_, _, _, -, hcancel⟩
        · rw [hq] at hcall
          cases hcall
          exact hcontext
        · rw [hcancel] at hcall
          cases hcall
      refine ⟨http_sessions hs.sessions hfree hop, ?_, ?_, ?_⟩
      · rw [heq]
        exact sound_step hs.in_flight op
      · rw [heq]
        intro c hc
        rcases calls_step hc with ⟨c', hc', -, -, -, hcontext⟩ | ⟨id, q, tool, hcall, -, rfl⟩
        · rw [hcontext]
          exact hs.named c' hc'
        · change q.context.session_id ≠ some ""
          rw [hnew id q hcall]
          exact hnamed
      · rw [heq]
        intro c hc
        rcases calls_step hc with ⟨c', hc', -, hkey, hscope, hcontext⟩
          | ⟨id, q, tool, hcall, -, rfl⟩
        · rw [hkey, hscope, hcontext]
          exact hs.keyed c' hc'
        · exact ⟨q.request_id, rfl⟩

theorem serve_limits (config : ServerConfig ν) (s : Server ν ρ) (op : ServerOp ρ) :
    (serve config s op).sessions.capacity = s.sessions.capacity
      ∧ (serve config s op).sessions.principal_quota = s.sessions.principal_quota
      ∧ (serve config s op).sessions.ttl = s.sessions.ttl := by
  cases op with
  | move id m => exact ⟨rfl, rfl, rfl⟩
  | http request now draw call =>
    rw [serve]
    rcases http_cases config s request now draw call with ⟨-, -, heq | heq⟩ | ⟨id, e, -, heq⟩
      | ⟨s', context, hadm, heq⟩
    · rw [heq]
      exact ⟨rfl, rfl, rfl⟩
    · rw [heq]
      exact ⟨rfl, rfl, rfl⟩
    · rw [heq]
      exact ⟨rfl, rfl, rfl⟩
    · rw [heq, (handle_sessions config s' request.scope context request.body call).1]
      rcases admit_session_cases config s request now draw with ⟨s'', error, heq', -, -⟩
        | ⟨heq', -⟩ | ⟨id, e, -, -, heq'⟩ | ⟨random, k, entries, -, -, -, -, -, -, heq'⟩
      · rw [hadm] at heq'
        cases heq'
      · rw [hadm] at heq'
        cases heq'
        exact ⟨rfl, rfl, rfl⟩
      · rw [hadm] at heq'
        cases heq'
        exact ⟨rfl, rfl, rfl⟩
      · rw [hadm] at heq'
        cases heq'
        exact ⟨rfl, rfl, rfl⟩

/-- An HTTP call has touched the requests in flight, or closed a session that was open. -/
def Server.affected (s s' : Server ν ρ) (now : ℕ) : Prop :=
  s'.in_flight ≠ s.in_flight ∨ ∃ e ∈ s.sessions.entries.rows,
    now ≤ e.last_used + s.sessions.ttl ∧ s'.sessions.entries.find e.key = none

theorem session_eq_of_getD {a b : Option String} (ha : a ≠ some "") (hb : b ≠ some "")
    (h : a.getD "" = b.getD "") : a = b := by
  cases a with
  | none =>
    cases b with
    | none => rfl
    | some b =>
      rw [Option.getD_none, Option.getD_some] at h
      exact absurd (congrArg some h.symm) hb
  | some a =>
    cases b with
    | none =>
      rw [Option.getD_none, Option.getD_some] at h
      exact absurd (congrArg some h) ha
    | some b => exact congrArg some h

/-- What an HTTP call touches of the calls in flight is a call of its own scope and
session. -/
theorem http_touches (hs : s.Confined config hashed) (hfree : Set.InjOn config.sha256 hashed)
    (hrequest : request.hashed config.sha256 ⊆ hashed) {c' : Call ν ρ}
    (hc : c ∈ s.in_flight.calls.rows)
    (hc' : c' ∈ (s.http config request now draw call).1.in_flight.calls.rows) (hid : c'.id = c.id)
    (hne : c'.entry ≠ c.entry) : c.scope.project_id = request.scope.project_id
      ∧ c.scope.account_id = request.scope.account_id
      ∧ c.scope.profile = request.scope.profile
      ∧ c.context.session_id = (request.context config.sha256).session_id := by
  have hother : c' ∉ s.in_flight.calls.rows := by
    intro hold
    rw [List.inj_on_of_nodup_map s.in_flight.calls.nodup hold hc hid] at hne
    exact hne rfl
  rcases http_acts now call draw hs.sessions hfree hrequest with hsame
    | ⟨context, op, -, hnamed, hcontext, hhandled, heq⟩
  · rw [hsame] at hc'
    exact absurd hc' hother
  · rw [heq] at hc'
    rcases handled_op_cases hhandled with ⟨q, rfl, -, -⟩
      | ⟨params, request_id, connection_id, hcancel, rfl⟩
    · exfalso
      rcases step_cases config.toConfig s.in_flight (.call call q) with ⟨hstep, -⟩
        | ⟨id, q', tool, registry, hop, hfresh, -, -, hstep⟩ | ⟨c'', hc'', t, hno, -, -⟩
      · rw [hstep] at hc'
        exact hother hc'
      · rw [hstep, calls_insert _ _ hfresh, List.mem_append, List.mem_singleton] at hc'
        rcases hc' with hc' | rfl
        · exact hother hc'
        · -- a new call has an id of its own
          apply Table.find_none_iff.mp hfresh
          rw [show id = c.id from hid]
          exact List.mem_map_of_mem hc
      · exact hno call q rfl
    · rw [step, InFlight.cancel] at hc'
      split at hc'
      next => exact absurd hc' hother
      next c₀ hregistered =>
        rw [InFlight.registered, Option.bind_eq_some_iff] at hregistered
        obtain ⟨row, hrow, hfind⟩ := hregistered
        obtain ⟨hrow, hkey⟩ := Table.find_eq_some.mp hrow
        obtain ⟨hc₀, hid₀⟩ := Table.find_eq_some.mp hfind
        have hmoves := cancel_moves c₀ connection_id
        -- the call that is cancelled is the one that has changed
        obtain rfl : c = c₀ := by
          apply List.inj_on_of_nodup_map s.in_flight.calls.nodup hc hc₀
          rcases mem_take hc₀ hmoves.id_eq hc' with rfl | ⟨hold, -⟩
          · exact hid.symm.trans hmoves.id_eq
          · exact absurd hold hother
        have hsame : row.1 = c.key := congrArg Prod.fst (hs.in_flight.key_eq hc hrow hid₀.symm)
        obtain ⟨own_id, hown⟩ := hs.keyed c hc
        have hscope : ScopeKey.from_scope config.sha256 c.scope c.context
            = ScopeKey.from_scope config.sha256 request.scope context := by
          have := (hown.symm.trans hsame.symm).trans hkey
          exact congrArg RequestKey.scope this
        simp only [ScopeKey.from_scope, ScopeKey.mk.injEq] at hscope
        obtain ⟨hproject, haccount, hprofile, hsession, -⟩ := hscope
        refine ⟨hproject, haccount, hprofile, ?_⟩
        have heffective := session_eq_of_getD (hs.named c hc) hnamed hsession
        rcases hcontext with heq | hadmission
        · rw [heffective, heq]
        · rw [cancel_admission hcancel] at hadmission
          cases hadmission

theorem http_calls (hs : s.Confined config hashed) (hfree : Set.InjOn config.sha256 hashed)
    (hrequest : request.hashed config.sha256 ⊆ hashed)
    (hc : c ∈ (s.http config request now draw call).1.in_flight.calls.rows)
    (hnew : ∀ c' ∈ s.in_flight.calls.rows, c'.id = c.id → c'.scope ≠ c.scope) :
    c.id = call ∧ c.scope = request.scope ∧ s.in_flight.calls.find call = none
      ∧ Entitled config.sha256 s.sessions.ttl s.history request now := by
  rcases http_acts now call draw hs.sessions hfree hrequest with hsame
    | ⟨context, op, hentitled, -, -, hhandled, heq⟩
  · rw [hsame] at hc
    exact absurd rfl (hnew c hc rfl)
  · rw [heq] at hc
    rcases calls_step hc with ⟨c', hc', hid, -, hscope, -⟩ | ⟨id, q, tool, hop, hfresh, rfl⟩
    · exact absurd hscope.symm (hnew c' hc' hid.symm)
    · rcases handled_op_cases hhandled with ⟨q', hq, hscope, -⟩ | ⟨_, _, _, -, hcancel⟩
      · rw [hop] at hq
        cases hq
        exact ⟨rfl, hscope, hfresh, hentitled⟩
      · rw [hop] at hcancel
        cases hcancel

/-- **Sessions confine requests.** In every run of HTTP calls and of the steps of the tool
calls they make, in which no two digests collide: the sessions are no more than the
capacity, and those of a principal no more than its quota; an HTTP call that touches a
request in flight or closes a session may act in the session that it names, and so does
one whose tool call reaches the executor; a body that is classified as invalid does
nothing; and what a cancellation touches has the scope and the session of its caller. -/
theorem sessions_confine (config : ServerConfig ν)
    (sessions principal_quota ttl in_flight : ℕ) (ops : List (ServerOp ρ))
    (hfree : Set.InjOn config.sha256
      {bytes | ∃ op ∈ ops, bytes ∈ op.hashed config.sha256}) :
    let start : Server ν ρ := .new_with_limits sessions principal_quota ttl in_flight
    let s := Machine.run (serve config) start ops
    (s.sessions.len ≤ sessions ∧ ∀ binding, s.sessions.principal_len binding ≤ principal_quota)
    ∧ (∀ before request now draw call after,
      ops = before ++ .http request now draw call :: after →
        let t := Machine.run (serve config) start before
        let t' := serve config t (.http request now draw call)
        (t.affected t' now → Entitled config.sha256 ttl t.history request now)
        ∧ ∀ c ∈ t.in_flight.calls.rows, ∀ c' ∈ t'.in_flight.calls.rows, c'.id = c.id →
          c'.entry ≠ c.entry →
          c.scope.project_id = request.scope.project_id
            ∧ c.scope.account_id = request.scope.account_id
            ∧ c.scope.profile = request.scope.profile
            ∧ c.context.session_id = (request.context config.sha256).session_id)
    ∧ (∀ c ∈ s.in_flight.calls.rows, ∀ execute_request, .invoked execute_request ∈ c.observed →
      ∃ before request now draw after,
        ops = before ++ .http request now draw c.id :: after ∧ c.scope = request.scope
        ∧ (Machine.run (serve config) start before).in_flight.calls.find c.id = none
        ∧ Entitled config.sha256 ttl (Machine.run (serve config) start before).history
          request now)
    ∧ (∀ (t : Server ν ρ) scope context body call, config.session_admission body = .Invalid →
      t.handle_with_context config scope context body call = t) := by
  intro start s
  -- every prefix of the run keeps the invariant and the limits
  have hrun : ∀ before after, ops = before ++ after →
      (Machine.run (serve config) start before).Confined config
        {bytes | ∃ op ∈ ops, bytes ∈ op.hashed config.sha256} := by
    intro before after hsplit
    have hops : Machine.Meets (serve config)
        (fun _ op => op.hashed config.sha256
          ⊆ {bytes | ∃ op ∈ ops, bytes ∈ op.hashed config.sha256}) start before := by
      apply Machine.meets_of_forall
      intro op hop bytes hbytes
      exact ⟨op, by rw [hsplit]; exact List.mem_append_left _ hop, hbytes⟩
    exact hops.keeps (I := Server.Confined config
      {bytes | ∃ op ∈ ops, bytes ∈ op.hashed config.sha256})
      (fun s op hop hs => confined_step hs hfree hop)
      (confined_new sessions principal_quota ttl in_flight)
  have hlimits : ∀ before, (Machine.run (serve config) start before).sessions.capacity = sessions
      ∧ (Machine.run (serve config) start before).sessions.principal_quota = principal_quota
      ∧ (Machine.run (serve config) start before).sessions.ttl = ttl := by
    intro before
    have hstep : ∀ (t : Server ν ρ) op, (t.sessions.capacity = sessions
        ∧ t.sessions.principal_quota = principal_quota ∧ t.sessions.ttl = ttl) →
        (serve config t op).sessions.capacity = sessions
          ∧ (serve config t op).sessions.principal_quota = principal_quota
          ∧ (serve config t op).sessions.ttl = ttl := by
      intro t op ht
      obtain ⟨hcapacity, hquota, httl⟩ := serve_limits config t op
      rw [hcapacity, hquota, httl]
      exact ht
    exact Machine.run_keeps (I := fun t : Server ν ρ => t.sessions.capacity = sessions
      ∧ t.sessions.principal_quota = principal_quota ∧ t.sessions.ttl = ttl) hstep
      ⟨rfl, rfl, rfl⟩ before
  have hrequest : ∀ before request now draw call after,
      ops = before ++ .http request now draw call :: after → request.hashed config.sha256
        ⊆ {bytes | ∃ op ∈ ops, bytes ∈ op.hashed config.sha256} := by
    intro before request now draw call after hsplit bytes hbytes
    refine ⟨.http request now draw call, ?_, .inl hbytes⟩
    rw [hsplit]
    exact List.mem_append_right _ List.mem_cons_self
  refine ⟨⟨?_, ?_⟩, ?_, ?_, ?_⟩
  · have hbounded := (hrun ops [] (List.append_nil _).symm).sessions.bounded
    rwa [(hlimits ops).1] at hbounded
  · intro binding
    have hquota := (hrun ops [] (List.append_nil _).symm).sessions.quota binding
    rwa [(hlimits ops).2.1] at hquota
  · intro before request now draw call after hsplit t t'
    have ht := hrun before _ hsplit
    have httl : t.sessions.ttl = ttl := (hlimits before).2.2
    have hreq := hrequest before request now draw call after hsplit
    refine ⟨?_, fun c hc c' hc' hid hne => http_touches ht hfree hreq hc hc' hid hne⟩
    rintro (hchanged | ⟨e, he, hnow, hgone⟩)
    · rcases http_acts now call draw ht.sessions hfree hreq with hsame
        | ⟨context, op, hentitled, -⟩
      · exact absurd hsame hchanged
      · rw [← httl]
        exact hentitled
    · rw [← httl]
      exact http_closes ht.sessions hfree hreq he hnow hgone
  · intro c hc execute_request hinvoked
    have h0 : ¬∃ c' ∈ start.in_flight.calls.rows, c'.id = c.id ∧ c'.scope = c.scope := by
      rintro ⟨c', hc', -⟩
      cases hc'
    obtain ⟨before, op, after, hsplit, hbefore, c', hc', hid, hscope⟩ := Machine.exists_step
      (P := fun t : Server ν ρ =>
        ∃ c' ∈ t.in_flight.calls.rows, c'.id = c.id ∧ c'.scope = c.scope)
      h0 ⟨c, hc, rfl, rfl⟩
    have ht := hrun before _ hsplit
    cases op with
    | move id m =>
      rcases calls_step hc' with ⟨c'', hc'', hid', -, hscope', -⟩ | ⟨_, _, _, hcall, -⟩
      · exact absurd ⟨c'', hc'', hid'.symm.trans hid, hscope'.symm.trans hscope⟩ hbefore
      · cases hcall
    | http request now draw call =>
      have hreq := hrequest before request now draw call after hsplit
      obtain ⟨hcall, hscope', hfresh, hentitled⟩ := http_calls ht hfree hreq hc' (by
        intro c'' hc'' hid'' hscope''
        exact hbefore ⟨c'', hc'', hid''.trans hid, hscope''.trans hscope⟩)
      have hown : call = c.id := hcall.symm.trans hid
      rw [hown] at hfresh hsplit
      rw [(hlimits before).2.2] at hentitled
      exact ⟨before, request, now, draw, after, hsplit, hscope.symm.trans hscope', hfresh,
        hentitled⟩
  · intro t scope context body call hinvalid
    rw [Server.handle_with_context, invalid_acts_not hinvalid]

namespace Sample

def random : Random := ⟨(List.range 32).map UInt8.ofNat, rfl⟩

/-- The headers of a caller, before and in its session. -/
def api_key : Header := ⟨"X-Api-Key", "k1", by decide⟩

def in_session : Header :=
  ⟨"Mcp-Session-Id", "AAECAwQFBgcICQoLDA0ODxAREhMUFRYXGBkaGxwdHh8", by decide⟩

/-- The bodies that are sent, and what they are read as. -/
def initialize_body : List UInt8 :=
  Json.bytes "\x7b\"jsonrpc\":\"2.0\",\"id\":1,\"method\":\"initialize\"\x7d".toList

def call_body : List UInt8 := Json.bytes ("\x7b\"jsonrpc\":\"2.0\",\"id\":2,"
  ++ "\"method\":\"tools/call\",\"params\":\x7b\"name\":\"demo__rows__add\"\x7d\x7d").toList

/-- A server of one tool, with SHA-256 and the JSON library on the inputs of the run. -/
def server : ServerConfig ℕ where
  sha256 := fun bytes =>
    if bytes = Json.bytes in_session.value.toList then
      [234, 134, 106, 117, 126, 76, 56, 186, 191, 168, 18, 124, 190, 154, 64, 157,
        62, 31, 147, 160, 15, 241, 72, 143, 247, 53, 252, 249, 23, 175, 255, 208]
    else if bytes = encode_fields [("x-api-key", "k1")] then
      [13, 11, 225, 234, 124, 212, 199, 245, 240, 47, 150, 45, 158, 161, 45, 3,
        2, 145, 159, 165, 8, 182, 123, 28, 65, 90, 245, 199, 77, 37, 172, 250]
    else []
  operation := demo.operation
  from_slice := fun raw =>
    if raw = initialize_body then
      some (.object [("jsonrpc", .string "2.0"), ("id", .number 1),
        ("method", .string "initialize")])
    else if raw = call_body then
      some (.object [("jsonrpc", .string "2.0"), ("id", .number 2),
        ("method", .string "tools/call"),
        ("params", .object [("name", .string "demo__rows__add")])])
    else none
  to_string := fun v => match v with
    | .number n => n.repr
    | _ => ""
  parse_url := fun _ => none
  allowed_origins := []

def post (headers : List Header) (body : List UInt8) : HttpRequest :=
  ⟨.handle_http_with_headers 1 headers, "POST", ⟨"p1", "a1", "", "token"⟩, body⟩

/-- A session is issued, and a tool is called and executed in it. -/
def session_run : List (ServerOp ℕ) :=
  [.http (post [api_key] initialize_body) 0 (fun _ => some random) 0,
    .http (post [api_key, in_session] call_body) 60 (fun _ => none) 1,
    .move 1 (.selected (some [connection])), .move 1 .advance, .move 1 .advance,
    .move 1 .poll_task]

theorem session_run_hashed {bytes : List UInt8}
    (h : ∃ op ∈ session_run, bytes ∈ op.hashed server.sha256) :
    bytes = Json.bytes in_session.value.toList
      ∨ bytes = encode_fields [("x-api-key", "k1")] := by
  obtain ⟨op, hop, hbytes⟩ := h
  have hfields : encode_fields (auth_fields [api_key]) = encode_fields [("x-api-key", "k1")]
      ∧ encode_fields (auth_fields [api_key, in_session])
        = encode_fields [("x-api-key", "k1")] := by
    decide
  have hissued : random.session_id = in_session.value := by decide
  have hsession : ((post [api_key] initialize_body).context server.sha256).session_id = none
      ∧ ((post [api_key, in_session] call_body).context server.sha256).session_id
        = some in_session.value := by
    decide
  simp only [session_run, List.mem_cons, List.not_mem_nil, or_false] at hop
  rcases hop with rfl | rfl | rfl | rfl | rfl | rfl
  · rcases hbytes with (⟨id, hid, -⟩ | ⟨_, headers, hentry, rfl⟩) | ⟨k, random', hdraw, rfl⟩
    · rw [hsession.1] at hid
      cases hid
    · cases hentry
      exact .inr hfields.1
    · cases hdraw
      exact .inl (by rw [hissued])
  · rcases hbytes with (⟨id, hid, rfl⟩ | ⟨_, headers, hentry, rfl⟩) | ⟨k, random', hdraw, rfl⟩
    · rw [hsession.2] at hid
      cases hid
      exact .inl rfl
    · cases hentry
      exact .inr hfields.2
    · cases hdraw
  · cases hbytes
  · cases hbytes
  · cases hbytes
  · cases hbytes

/-- One session is issued, and one call runs in it. -/
theorem session_run_confined :
    let start : Server ℕ ℕ := .new_with_limits MAX_MCP_SESSIONS MAX_MCP_SESSIONS_PER_PRINCIPAL
      SESSION_TTL 128
    let s := Machine.run (serve server) start session_run
    (s.in_flight.calls.rows.map (fun c => c.task.live)) = [true] ∧ s.sessions.len = 1
      ∧ s.sessions.len ≤ MAX_MCP_SESSIONS := by
  intro start s
  have hfree : Set.InjOn server.sha256
      {bytes | ∃ op ∈ session_run, bytes ∈ op.hashed server.sha256} := by
    have hne : server.sha256 (Json.bytes in_session.value.toList)
        ≠ server.sha256 (encode_fields [("x-api-key", "k1")]) := by
      decide
    intro a ha b hb heq
    rcases session_run_hashed ha with rfl | rfl
    · rcases session_run_hashed hb with rfl | rfl
      · rfl
      · exact absurd heq hne
    · rcases session_run_hashed hb with rfl | rfl
      · exact absurd heq.symm hne
      · rfl
  have hconfined := sessions_confine server MAX_MCP_SESSIONS MAX_MCP_SESSIONS_PER_PRINCIPAL
    SESSION_TTL 128 session_run hfree
  refine ⟨by decide, by decide, hconfined.1.1⟩

end Sample

end Appcall.Mcp
