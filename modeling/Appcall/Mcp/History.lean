/-
What has become of a session.

The registry holds digests and the time of the last use; the history of the server holds
what was done. `last_use` reads off the history whether a session was issued, was not
closed since, and was never unused for longer than the TTL. Every entry of the registry
is such a session (`SessionsSound`), so what the registry lets through is judged by the
history alone. The digest may collide outside the inputs of a run; on them it is assumed
not to.
-/
import Appcall.Mcp.Server
import Mathlib.Data.Set.Function

set_option autoImplicit false

namespace Appcall.Mcp

variable {ν ρ : Type}

/-- The issuer and the last use of a session that was issued, was not closed since, and
was used with no gap longer than the TTL. The last event comes first. -/
def last_use (ttl : ℕ) (session_id : String) : List SessionEvent → Option (HttpRequest × ℕ)
  | [] => none
  | .issued id issuer now :: history =>
    if id = session_id then some (issuer, now) else last_use ttl session_id history
  | .used id now :: history =>
    if id = session_id then
      match last_use ttl session_id history with
      | some (issuer, last) => if now ≤ last + ttl then some (issuer, now) else none
      | none => none
    else last_use ttl session_id history
  | .closed id :: history =>
    if id = session_id then none else last_use ttl session_id history

/-- What a session of a call is bound to. -/
def HttpRequest.binding (sha256 : List UInt8 → List UInt8) (request : HttpRequest) :
    SessionBinding := SessionBinding.from_scope request.scope (request.context sha256)

/-- What is hashed of a call: the session id that it carries, and its authentication
headers. -/
def HttpRequest.hashed (sha256 : List UInt8 → List UInt8) (request : HttpRequest) :
    Set (List UInt8) :=
  {bytes | (∃ id, (request.context sha256).session_id = some id ∧ bytes = Json.bytes id.toList)
    ∨ ∃ namespace_id headers, request.entry = .handle_http_with_headers namespace_id headers
      ∧ bytes = encode_fields (auth_fields headers)}

/-- What is hashed in a step: of its call, and the ids that are drawn. -/
def ServerOp.hashed (sha256 : List UInt8 → List UInt8) : ServerOp ρ → Set (List UInt8)
  | .http request _ draw _ =>
    request.hashed sha256
      ∪ {bytes | ∃ k random, draw k = some random ∧ bytes = Json.bytes random.session_id.toList}
  | .move _ _ => ∅

/-- The sessions of a server are those that its history says are open. -/
structure SessionsSound (sha256 : List UInt8 → List UInt8) (hashed : Set (List UInt8))
    (r : SessionRegistry) (history : List SessionEvent) : Prop where
  known : ∀ e ∈ r.entries.rows, ∃ id issuer, Json.bytes id.toList ∈ hashed
    ∧ e.key = session_key sha256 id ∧ last_use r.ttl id history = some (issuer, e.last_used)
    ∧ issuer.binding sha256 = e.binding ∧ issuer.hashed sha256 ⊆ hashed
  bounded : r.len ≤ r.capacity
  quota : ∀ binding, r.principal_len binding ≤ r.principal_quota

namespace SessionsSound

variable {sha256 : List UInt8 → List UInt8} {hashed : Set (List UInt8)} {r : SessionRegistry}
  {history : List SessionEvent}

theorem new_with_limits (capacity principal_quota ttl : ℕ) :
    SessionsSound sha256 hashed (.new_with_limits capacity principal_quota ttl) [] where
  known := by
    intro e he
    cases he
  bounded := Nat.zero_le _
  quota := fun _ => Nat.zero_le _

theorem reclaim (h : SessionsSound sha256 hashed r history) (now : ℕ) :
    SessionsSound sha256 hashed (r.reclaim_expired now) history where
  known := fun e he => h.known e (SessionRegistry.mem_reclaim_expired.mp he).1
  bounded := (r.reclaim_expired_sublist now).length_le.trans h.bounded
  quota := fun binding =>
    ((r.reclaim_expired_sublist now).countP_le).trans (h.quota binding)

theorem closed (h : SessionsSound sha256 hashed r history) (id : String) :
    SessionsSound sha256 hashed
      { r with entries := r.entries.delete (fun e => decide (e.key = session_key sha256 id)) }
      (.closed id :: history) where
  known := by
    intro e he
    obtain ⟨he, hkey⟩ := List.mem_filter.mp he
    obtain ⟨id', issuer, hid, hkey', hlast, hrest⟩ := h.known e he
    have hne : ¬id = id' := by
      rintro rfl
      simp [hkey'] at hkey
    exact ⟨id', issuer, hid, hkey', by rw [last_use, if_neg hne]; exact hlast, hrest⟩
  bounded := (List.length_filter_le _ _).trans h.bounded
  quota := fun binding => (List.filter_sublist.countP_le).trans (h.quota binding)

variable {id : String}

theorem session_key_inj (hfree : Set.InjOn sha256 hashed) {id' : String}
    (hid : Json.bytes id.toList ∈ hashed) (hid' : Json.bytes id'.toList ∈ hashed)
    (h : session_key sha256 id = session_key sha256 id') : id = id' := by
  have hbytes := hfree hid hid' (encode_digest_inj h)
  exact String.toList_inj.mp (Json.bytes_inj hbytes)

theorem used (h : SessionsSound sha256 hashed r history) (hfree : Set.InjOn sha256 hashed)
    (hid : Json.bytes id.toList ∈ hashed) {e : SessionEntry}
    (hfind : r.entries.find (session_key sha256 id) = some e) {now : ℕ}
    (hnow : now ≤ e.last_used + r.ttl) : SessionsSound sha256 hashed
      { r with
        entries := r.entries.modify (session_key sha256 id) ({ · with last_used := now })
          (fun _ => rfl) }
      (.used id now :: history) where
  known := by
    intro e' he'
    obtain ⟨he, hkey⟩ := Table.find_eq_some.mp hfind
    rcases Table.mem_modify (f := fun e => { e with last_used := now }) hfind (fun _ => rfl) he'
      with rfl | ⟨he', hne⟩
    · obtain ⟨id', issuer, hid', hkey', hlast, hrest⟩ := h.known e he
      obtain rfl := session_key_inj hfree hid hid' (hkey.symm.trans hkey')
      exact ⟨id, issuer, hid, hkey', by rw [last_use, if_pos rfl, hlast]; exact if_pos hnow, hrest⟩
    · obtain ⟨id', issuer, hid', hkey', hlast, hrest⟩ := h.known e' he'
      have hne' : ¬id = id' := by
        rintro rfl
        exact hne hkey'
      exact ⟨id', issuer, hid', hkey', by rw [last_use, if_neg hne']; exact hlast, hrest⟩
  bounded := by
    rw [SessionRegistry.len, Table.modify, List.length_map]
    exact h.bounded
  quota := by
    intro binding
    rw [SessionRegistry.principal_len, Table.modify, List.countP_map]
    refine le_trans (le_of_eq ?_) (h.quota binding)
    apply List.countP_congr
    intro e _
    by_cases hkey : e.key = session_key sha256 id <;> simp [hkey]

theorem issued (h : SessionsSound sha256 hashed r history) {request : HttpRequest}
    (hid : Json.bytes id.toList ∈ hashed) (hrequest : request.hashed sha256 ⊆ hashed) {now : ℕ}
    (hroom : r.len < r.capacity)
    (hquota : r.principal_len (request.binding sha256) < r.principal_quota)
    {entries : Table SessionEntry.key}
    (hinsert : r.entries.insert ⟨session_key sha256 id, request.binding sha256, now⟩
      = some entries) :
    SessionsSound sha256 hashed { r with entries } (.issued id request now :: history) where
  known := by
    intro e he
    obtain ⟨hnone, hrows⟩ := Table.insert_eq_some hinsert
    rw [hrows, List.mem_append, List.mem_singleton] at he
    rcases he with he | rfl
    · obtain ⟨id', issuer, hid', hkey', hlast, hrest⟩ := h.known e he
      have hne : ¬id = id' := by
        rintro rfl
        exact Table.find_none_iff.mp hnone (List.mem_map.mpr ⟨e, he, hkey'⟩)
      exact ⟨id', issuer, hid', hkey', by rw [last_use, if_neg hne]; exact hlast, hrest⟩
    · exact ⟨id, request, hid, rfl, by rw [last_use, if_pos rfl], rfl, hrequest⟩
  bounded := by
    rw [SessionRegistry.len, (Table.insert_eq_some hinsert).2, List.length_append]
    exact hroom
  quota := by
    intro binding
    rw [SessionRegistry.principal_len, (Table.insert_eq_some hinsert).2, List.countP_append,
      List.countP_singleton]
    split
    next hsame =>
      -- the principal of the new session is the one that is counted
      have hcount : r.principal_len binding = r.principal_len (request.binding sha256) := by
        apply List.countP_congr
        intro e _
        simp only [SessionBinding.same_principal, Bool.and_eq_true, decide_eq_true_eq] at hsame ⊢
        obtain ⟨⟨hproject, haccount⟩, hfingerprint⟩ := hsame
        rw [hproject, haccount, hfingerprint]
      have := hcount ▸ hquota
      rw [SessionRegistry.principal_len] at this
      exact this
    next => exact h.quota binding

end SessionsSound

/-- A caller may act in a session: the one it names, if any, was issued to its project,
account, profile and authentication headers, was not closed, and was used with no gap
longer than the TTL. -/
def Entitled (sha256 : List UInt8 → List UInt8) (ttl : ℕ) (history : List SessionEvent)
    (request : HttpRequest) (now : ℕ) : Prop :=
  ∀ session_id, (request.context sha256).session_id = some session_id →
    ∃ issuer last, last_use ttl session_id history = some (issuer, last) ∧ now ≤ last + ttl
      ∧ issuer.scope.project_id = request.scope.project_id
      ∧ issuer.scope.account_id = request.scope.account_id
      ∧ issuer.scope.profile = request.scope.profile
      ∧ (issuer.context sha256).auth_context_fingerprint
        = (request.context sha256).auth_context_fingerprint
      ∧ ∀ namespace_id headers namespace_id' headers',
        issuer.entry = .handle_http_with_headers namespace_id headers →
        request.entry = .handle_http_with_headers namespace_id' headers' →
        auth_fields headers = auth_fields headers'

theorem SessionsSound.entitled {sha256 : List UInt8 → List UInt8} {hashed : Set (List UInt8)}
    {r : SessionRegistry} {history : List SessionEvent}
    (h : SessionsSound sha256 hashed r history) (hfree : Set.InjOn sha256 hashed)
    {request : HttpRequest} (hrequest : request.hashed sha256 ⊆ hashed) {now : ℕ} {id : String}
    (hid : (request.context sha256).session_id = some id) {e : SessionEntry}
    (hfind : (r.reclaim_expired now).entries.find (session_key sha256 id) = some e)
    (hbinding : e.binding = request.binding sha256) :
    Entitled sha256 r.ttl history request now := by
  obtain ⟨hmem, hkey⟩ := Table.find_eq_some.mp hfind
  obtain ⟨hmem, hnow⟩ := SessionRegistry.mem_reclaim_expired.mp hmem
  obtain ⟨id', issuer, hid', hkey', hlast, hissuer, hhashed⟩ := h.known e hmem
  have hcarried : Json.bytes id.toList ∈ hashed := hrequest (.inl ⟨id, hid, rfl⟩)
  obtain rfl := session_key_inj hfree hcarried hid' (hkey.symm.trans hkey')
  have hsame := hissuer.trans hbinding
  simp only [HttpRequest.binding, SessionBinding.from_scope, SessionBinding.mk.injEq] at hsame
  obtain ⟨hproject, haccount, hprofile, hfingerprint⟩ := hsame
  intro session_id hsession
  rw [hid] at hsession
  cases hsession
  refine ⟨issuer, e.last_used, hlast, hnow, hproject, haccount, hprofile, hfingerprint, ?_⟩
  intro namespace_id headers namespace_id' headers' hentry hentry'
  apply auth_context_fingerprint_inj (hfree (hhashed (.inr ⟨_, _, hentry, rfl⟩))
    (hrequest (.inr ⟨_, _, hentry', rfl⟩)))
  simpa [HttpRequest.context, hentry, hentry', McpRequestContext.from_headers,
    McpRequestContext.with_session_header,
    McpRequestContext.with_auth_context_fingerprint] using hfingerprint

end Appcall.Mcp
