/-
Who an MCP request comes from: `crates/appcall-mcp/src/lib.rs` and `session.rs`.

A `Scope` is what the host has authenticated. The context of a request carries the
session header, a digest of the headers that establish the identity, and a number that
keeps requests without a session apart. SHA-256 is a parameter; what is hashed is
encoded with the lengths of its parts, so two lists of headers that are encoded alike
are the same list (`encode_fields_inj`).
-/
import Appcall.Lib.Base64
import Appcall.Lib.Json
import Mathlib.Data.List.Sort

set_option autoImplicit false

namespace Appcall.Mcp

structure Scope where
  project_id : String
  account_id : String
  profile : String
  connector_token : String

/-- A header; the length of a string fits in 64 bits. -/
structure Header where
  name : String
  value : String
  sized : value.utf8ByteSize < 2 ^ 64

structure McpRequestContext where
  session_id : Option String
  auth_context_fingerprint : String
  namespace_id : ℕ
  session_admission : Bool
  durable_cancellation : Bool

/-- `McpRequestContext::new`, with the number that `next_legacy_scope_id` has drawn. -/
def McpRequestContext.new (namespace_id : ℕ) : McpRequestContext where
  session_id := none
  auth_context_fingerprint := ""
  namespace_id := namespace_id
  session_admission := true
  durable_cancellation := true

def McpRequestContext.legacy_http (namespace_id : ℕ) : McpRequestContext :=
  { McpRequestContext.new namespace_id with
    session_admission := false, durable_cancellation := false }

def McpRequestContext.with_auth_context_fingerprint (context : McpRequestContext)
    (fingerprint : String) : McpRequestContext :=
  { context with auth_context_fingerprint := fingerprint }

def McpRequestContext.with_session_header (context : McpRequestContext)
    (session_id : Option String) : McpRequestContext :=
  { context with session_id, session_admission := true, durable_cancellation := true }

def McpRequestContext.with_session_id (context : McpRequestContext) (session_id : String) :
    McpRequestContext := context.with_session_header (some session_id)

/-! ## Digests -/

def to_be_bytes (n : ℕ) : List UInt8 :=
  [56, 48, 40, 32, 24, 16, 8, 0].map (fun shift => UInt8.ofNat (n / 2 ^ shift))

/-- `update_component`: the length of the text, and the text. -/
def update_component (value : String) : List UInt8 :=
  to_be_bytes value.utf8ByteSize ++ Json.bytes value.toList

/-- `legacy_scope_id`: the first eight bytes of a digest of the scope. -/
def legacy_scope_id (sha256 : List UInt8 → List UInt8) (scope : Scope) : ℕ :=
  let digest := sha256 (Json.bytes "appcall-mcp-legacy-scope-v1".toList
    ++ [scope.project_id, scope.account_id, scope.profile, scope.connector_token].flatMap
      update_component)
  (digest.take 8).foldl (fun n b => n * 256 + b.toNat) 0

def eq_ignore_ascii_case (a b : String) : Bool :=
  decide (a.toList.map Char.toLower = b.toList.map Char.toLower)

def to_ascii_lowercase (s : String) : String := String.ofList (s.toList.map Char.toLower)

def AUTHENTICATION_CONTEXT_HEADERS : List String :=
  ["authorization", "x-api-key", "x-external-account-id", "x-tenant-id"]

def field_le (a b : String × String) : Bool :=
  decide (a.1.toList < b.1.toList)
    || (decide (a.1 = b.1) && !decide (b.2.toList < a.2.toList))

/-- The headers that establish the identity, with their names in lower case, sorted. -/
def auth_fields (headers : List Header) : List (String × String) :=
  ((headers.filter (fun h =>
    AUTHENTICATION_CONTEXT_HEADERS.any (eq_ignore_ascii_case h.name))).map
      (fun h => (to_ascii_lowercase h.name, h.value))).insertionSort (field_le · ·)

/-- What `auth_context_fingerprint` gives to the digest. -/
def encode_fields (fields : List (String × String)) : List UInt8 :=
  Json.bytes "appcall-mcp-auth-context-v1".toList
    ++ fields.flatMap (fun f => update_component f.1 ++ update_component f.2)

/-- `URL_SAFE_NO_PAD.encode` of a digest -/
def encode_digest (sha256 : List UInt8 → List UInt8) (bytes : List UInt8) : String :=
  String.ofList (Base64.encode (sha256 bytes))

def auth_context_fingerprint (sha256 : List UInt8 → List UInt8) (headers : List Header) :
    String := encode_digest sha256 (encode_fields (auth_fields headers))

def MCP_SESSION_ID_HEADER : String := "Mcp-Session-Id"

def session_header (headers : List Header) : Option String :=
  (headers.find? (fun h => eq_ignore_ascii_case h.name MCP_SESSION_ID_HEADER)).map Header.value

def McpRequestContext.from_headers (sha256 : List UInt8 → List UInt8) (namespace_id : ℕ)
    (headers : List Header) : McpRequestContext :=
  ((McpRequestContext.new namespace_id).with_auth_context_fingerprint
    (Mcp.auth_context_fingerprint sha256 headers)).with_session_header (session_header headers)

/-! ## Keys -/

structure ScopeKey where
  project_id : String
  account_id : String
  profile : String
  session_id : String
  legacy_scope_id : ℕ
  deriving DecidableEq

def ScopeKey.from_scope (sha256 : List UInt8 → List UInt8) (scope : Scope)
    (context : McpRequestContext) : ScopeKey where
  project_id := scope.project_id
  account_id := scope.account_id
  profile := scope.profile
  session_id := context.session_id.getD ""
  legacy_scope_id :=
    if context.session_id.isSome then 0
    else if context.session_admission = false then Mcp.legacy_scope_id sha256 scope
    else context.namespace_id

structure RequestKey where
  scope : ScopeKey
  request_id : String
  deriving DecidableEq

/-! ## What is hashed is read back

A component is its length and its text, so the first component of a list of bytes is
determined by them, and so is what follows it. -/

theorem div_of_digit {m n k : ℕ} (hfront : m / 2 ^ (k + 8) = n / 2 ^ (k + 8))
    (hdigit : m / 2 ^ k % 256 = n / 2 ^ k % 256) : m / 2 ^ k = n / 2 ^ k := by
  rw [pow_add, ← Nat.div_div_eq_div_mul, ← Nat.div_div_eq_div_mul] at hfront
  rw [← Nat.div_add_mod (m / 2 ^ k) 256, ← Nat.div_add_mod (n / 2 ^ k) 256, hdigit]
  exact congrArg (256 * · + n / 2 ^ k % 256) hfront

theorem to_be_bytes_inj {m n : ℕ} (hm : m < 2 ^ 64) (hn : n < 2 ^ 64)
    (h : to_be_bytes m = to_be_bytes n) : m = n := by
  have hbyte : ∀ k, UInt8.ofNat (m / 2 ^ k) = UInt8.ofNat (n / 2 ^ k) →
      m / 2 ^ k % 256 = n / 2 ^ k % 256 := by
    intro k hk
    have := congrArg UInt8.toNat hk
    rwa [UInt8.toNat_ofNat', UInt8.toNat_ofNat'] at this
  simp only [to_be_bytes, List.map_cons, List.map_nil, List.cons.injEq, and_true] at h
  obtain ⟨h7, h6, h5, h4, h3, h2, h1, h0⟩ := h
  -- from the first byte on, each one settles eight bits more
  have hfront : m / 2 ^ (56 + 8) = n / 2 ^ (56 + 8) := by
    rw [Nat.div_eq_of_lt hm, Nat.div_eq_of_lt hn]
  have hall : m / 2 ^ 0 = n / 2 ^ 0 :=
    div_of_digit (div_of_digit (div_of_digit (div_of_digit (div_of_digit (div_of_digit
      (div_of_digit (div_of_digit hfront (hbyte 56 h7)) (hbyte 48 h6)) (hbyte 40 h5))
      (hbyte 32 h4)) (hbyte 24 h3)) (hbyte 16 h2)) (hbyte 8 h1)) (hbyte 0 h0)
  rwa [pow_zero, Nat.div_one, Nat.div_one] at hall

theorem length_to_be_bytes (n : ℕ) : (to_be_bytes n).length = 8 := rfl

theorem update_component_inj {a b : String} {rest rest' : List UInt8}
    (ha : a.utf8ByteSize < 2 ^ 64) (hb : b.utf8ByteSize < 2 ^ 64)
    (h : update_component a ++ rest = update_component b ++ rest') : a = b ∧ rest = rest' := by
  rw [update_component, update_component, List.append_assoc, List.append_assoc] at h
  obtain ⟨hlength, h⟩ := List.append_inj h (by
    rw [length_to_be_bytes, length_to_be_bytes])
  have hsize := to_be_bytes_inj ha hb hlength
  obtain ⟨htext, hrest⟩ := List.append_inj h (by
    rw [Json.length_bytes_toList, Json.length_bytes_toList, hsize])
  exact ⟨String.toList_inj.mp (Json.bytes_inj htext), hrest⟩

theorem encode_fields_inj {fields fields' : List (String × String)}
    (h : ∀ f ∈ fields, f.1.utf8ByteSize < 2 ^ 64 ∧ f.2.utf8ByteSize < 2 ^ 64)
    (h' : ∀ f ∈ fields', f.1.utf8ByteSize < 2 ^ 64 ∧ f.2.utf8ByteSize < 2 ^ 64)
    (heq : encode_fields fields = encode_fields fields') : fields = fields' := by
  have hfields := List.append_cancel_left heq
  clear heq
  have hsome : ∀ (f : String × String) (rest : List UInt8),
      update_component f.1 ++ update_component f.2 ++ rest ≠ [] := by
    intro f rest hnil
    have hlength := congrArg List.length hnil
    rw [update_component] at hlength
    simp only [List.length_append, length_to_be_bytes, List.length_nil] at hlength
    omega
  induction fields generalizing fields' with
  | nil =>
    cases fields' with
    | nil => rfl
    | cons f rest =>
      rw [List.flatMap_nil, List.flatMap_cons] at hfields
      exact absurd hfields.symm (hsome f _)
  | cons f rest ih =>
    cases fields' with
    | nil =>
      rw [List.flatMap_nil, List.flatMap_cons] at hfields
      exact absurd hfields (hsome f _)
    | cons f' rest' =>
      rw [List.flatMap_cons, List.flatMap_cons, List.append_assoc, List.append_assoc] at hfields
      obtain ⟨hf, hf'⟩ := h f List.mem_cons_self
      obtain ⟨hg, hg'⟩ := h' f' List.mem_cons_self
      obtain ⟨hname, hfields⟩ := update_component_inj hf hg hfields
      obtain ⟨hvalue, hfields⟩ := update_component_inj hf' hg' hfields
      rw [Prod.ext hname hvalue, ih (fun f hf => h f (List.mem_cons_of_mem _ hf))
        (fun f hf => h' f (List.mem_cons_of_mem _ hf)) hfields]

variable {headers : List Header} {sha256 : List UInt8 → List UInt8}

theorem auth_fields_sized :
    ∀ f ∈ auth_fields headers, f.1.utf8ByteSize < 2 ^ 64 ∧ f.2.utf8ByteSize < 2 ^ 64 := by
  intro f hf
  rw [auth_fields, List.mem_insertionSort] at hf
  obtain ⟨header, hheader, rfl⟩ := List.mem_map.mp hf
  refine ⟨?_, header.sized⟩
  obtain ⟨-, hallowed⟩ := List.mem_filter.mp hheader
  obtain ⟨allowed, hmem, heq⟩ := List.any_eq_true.mp hallowed
  have hname : to_ascii_lowercase header.name = to_ascii_lowercase allowed := by
    rw [to_ascii_lowercase, of_decide_eq_true heq, to_ascii_lowercase]
  have hall : ∀ allowed ∈ AUTHENTICATION_CONTEXT_HEADERS,
      (to_ascii_lowercase allowed).utf8ByteSize < 2 ^ 64 := by
    decide
  rw [hname]
  exact hall allowed hmem

theorem encode_digest_inj {a b : List UInt8} (h : encode_digest sha256 a = encode_digest sha256 b) :
    sha256 a = sha256 b := by
  have hread := congrArg Base64.decode (String.ofList_injective h)
  rw [Base64.decode_encode, Base64.decode_encode] at hread
  exact Option.some.inj hread

/-- Contexts with the same fingerprint come from the same authentication headers, unless
two digests collide. -/
theorem auth_context_fingerprint_inj {headers' : List Header}
    (hfree : sha256 (encode_fields (auth_fields headers))
        = sha256 (encode_fields (auth_fields headers')) →
      encode_fields (auth_fields headers) = encode_fields (auth_fields headers'))
    (h : auth_context_fingerprint sha256 headers = auth_context_fingerprint sha256 headers') :
    auth_fields headers = auth_fields headers' :=
  encode_fields_inj auth_fields_sized auth_fields_sized (hfree (encode_digest_inj h))

end Appcall.Mcp
