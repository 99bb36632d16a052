/-
Hosted account binding: `crates/appcall-provider/src/persistence.rs` and `service.rs`.

A hosted flow is created past a first look at the cap, claimed by the notification of the
provider for one account, and completed under the lock of the project, where the cap is
looked at again. A disconnect deletes the account at the provider and then clears the
binding. Each call to the repository is one transaction; between two calls of a request
any number of others run. `now()` is the start of a transaction and may lie behind the
clock, so it comes with the step, as do random texts and what the provider answers.
-/
import Appcall.Provider.Cursor
import Appcall.Lib.Query
import Appcall.Lib.Machine

set_option autoImplicit false

namespace Appcall.Provider

/-! ## Tables -/

/-- `chk_subaccount_status` -/
inductive SubaccountStatus
  | connected | needs_reconnect
  deriving DecidableEq

/-- A row of `provider_subaccounts`. -/
structure Subaccount where
  project_id : String
  external_account_id : String
  connector : String
  channel : String
  provider_account_id : String
  status : SubaccountStatus
  deriving DecidableEq

/-- `uq_subaccount_brand_channel` -/
def Subaccount.key (r : Subaccount) : String × String × String × String :=
  (r.project_id, r.external_account_id, r.connector, r.channel)

/-- `UNIQUE (project_id, connector, provider_account_id)` -/
def Subaccount.account_key (r : Subaccount) : String × String × String :=
  (r.project_id, r.connector, r.provider_account_id)

/-- The rows, which meet both constraints. -/
structure Bindings where
  table : Table Subaccount.key
  unique : ∀ r ∈ table.rows, ∀ r' ∈ table.rows, r.account_key = r'.account_key → r = r'

/-- A row of `unipile_hosted_flows`. -/
structure HostedFlow where
  id : String
  token_hash : String
  project_id : String
  brand_id : String
  providers : List String
  expires_at : ℤ
  account_id : Option String
  completed : Bool
  deriving DecidableEq

/-- The flows, with `token_hash` unique. -/
structure Flows where
  table : Table HostedFlow.id
  unique : ∀ f ∈ table.rows, ∀ f' ∈ table.rows, f.token_hash = f'.token_hash → f = f'

structure Database where
  bindings : Bindings
  flows : Flows

/-- `DO UPDATE SET provider_account_id=EXCLUDED.provider_account_id,status='connected'` -/
def Subaccount.relink (r old : Subaccount) : Subaccount :=
  { old with provider_account_id := r.provider_account_id, status := .connected }

theorem Subaccount.relink_key (r old : Subaccount) : (r.relink old).key = old.key := rfl

/-- The upsert of `complete`, which fails when it breaks a constraint. -/
def Bindings.link (b : Bindings) (r : Subaccount) : Option Bindings :=
  let table := b.table.upsert r r.relink r.relink_key
  if h : ∀ r ∈ table.rows, ∀ r' ∈ table.rows, r.account_key = r'.account_key → r = r' then
    some ⟨table, h⟩
  else none

/-- `DELETE FROM provider_subaccounts WHERE ..` -/
def Bindings.delete (b : Bindings) (p : Subaccount → Bool) : Bindings where
  table := b.table.delete p
  unique r hr r' hr' :=
    b.unique r (List.mem_of_mem_filter hr) r' (List.mem_of_mem_filter hr')

/-- An update of the status of the rows of a key, which no constraint is about. -/
def Bindings.set_status (b : Bindings) (key : String × String × String × String)
    (account : String) (status : SubaccountStatus) : Bindings where
  table := b.table.modify key
    (fun r => if r.provider_account_id = account then { r with status } else r)
    (fun r => by split <;> rfl)
  unique r hr r' hr' heq := by
    have hkey : ∀ r : Subaccount, (if r.provider_account_id = account then { r with status }
        else r).account_key = r.account_key := by
      intro r
      split <;> rfl
    obtain ⟨r₀, hr₀, hr₀'⟩ := List.mem_map.mp hr
    obtain ⟨r₁, hr₁, hr₁'⟩ := List.mem_map.mp hr'
    have hsame : r₀ = r₁ := by
      refine b.unique r₀ hr₀ r₁ hr₁ ?_
      rw [← hr₀', ← hr₁'] at heq
      split at heq <;> split at heq <;> simpa only [hkey] using heq
    rw [← hr₀', ← hr₁', hsame]

/-- `UPDATE unipile_hosted_flows` on one row, which leaves its hash. -/
def Flows.update (t : Flows) (id : String) (f : HostedFlow → HostedFlow)
    (hid : ∀ r, (f r).id = r.id) (hhash : ∀ r, (f r).token_hash = r.token_hash) : Flows where
  table := t.table.modify id f hid
  unique r hr r' hr' heq := by
    have hkept : ∀ r : HostedFlow, (if r.id = id then f r else r).token_hash = r.token_hash := by
      intro r
      split
      · exact hhash r
      · rfl
    obtain ⟨r₀, hr₀, hr₀'⟩ := List.mem_map.mp hr
    obtain ⟨r₁, hr₁, hr₁'⟩ := List.mem_map.mp hr'
    have hsame : r₀ = r₁ := by
      refine t.unique r₀ hr₀ r₁ hr₁ ?_
      rw [← hr₀', ← hr₁', hkept, hkept] at heq
      exact heq
    rw [← hr₀', ← hr₁', hsame]

/-- `SET account_id=$3` -/
def Flows.set_account (t : Flows) (id account : String) : Flows :=
  t.update id ({ · with account_id := some account }) (fun _ => rfl) (fun _ => rfl)

/-- `SET completed=true` -/
def Flows.set_completed (t : Flows) (id : String) : Flows :=
  t.update id ({ · with completed := true }) (fun _ => rfl) (fun _ => rfl)

/-- `DELETE FROM unipile_hosted_flows WHERE ..` -/
def Flows.delete (t : Flows) (p : HostedFlow → Bool) : Flows where
  table := t.table.delete p
  unique r hr r' hr' :=
    t.unique r (List.mem_of_mem_filter hr) r' (List.mem_of_mem_filter hr')

/-- `INSERT INTO unipile_hosted_flows`, which fails when the id or the hash is taken. -/
def Flows.insert (t : Flows) (f : HostedFlow) : Option Flows :=
  match t.table.insert f with
  | none => none
  | some table =>
    if h : ∀ f ∈ table.rows, ∀ f' ∈ table.rows, f.token_hash = f'.token_hash → f = f' then
      some ⟨table, h⟩
    else none

/-! ## The repository -/

def Error.database : Error :=
  .new 503 "UNIPILE_BINDING_UNAVAILABLE" "The provider binding could not be read or saved."

def Error.unauthorized : Error := .new 401 "UNAUTHORIZED" "Authentication is required."

def Error.denied (limit used : ℤ) : Error where
  status := if 0 < limit then 409 else 402
  code := if 0 < limit then "QUOTA_EXCEEDED" else "NOT_ENTITLED"
  message := "Account linking is not permitted for this project right now."
  limit := some limit
  used := some used

/-- A connected Unipile account of the project counts. -/
def Subaccount.counted (project : String) (r : Subaccount) : ℤ :=
  if r.project_id = project ∧ r.connector = "unipile" ∧ r.status = .connected then 1 else 0

/-- `SELECT count(*) .. status='connected'` -/
def Bindings.used (b : Bindings) (project : String) : ℤ :=
  b.table.sum (Subaccount.counted project)

def Database.check_gate (db : Database) (project : String) (limit : ℤ) : Except Error Unit :=
  let used := db.bindings.used project
  if limit ≤ 0 ∨ limit ≤ used then .error (.denied limit used) else .ok ()

structure Flow where
  id : String
  project : String
  brand : String
  providers : List String
  completed : Bool

/-- `create_flow`; expired flows that another transaction has locked are skipped. -/
def Database.create_flow (db : Database) (token_hash : String → String) (now : ℤ)
    (locked : List String) (id token project brand : String) (providers : List String)
    (expires : ℤ) : Except Error (Unit × Database) :=
  let expired := db.flows.table.select
    (fun f => decide (f.expires_at ≤ now) && !locked.contains f.id)
    (fun f f' => f.expires_at ≤ f'.expires_at) 100
  let flows := db.flows.delete (fun f => expired.any (fun e => e.id == f.id))
  match flows.insert ⟨id, token_hash token, project, brand, providers, expires, none, false⟩ with
  | none => .error .database
  | some flows => .ok ((), { db with flows })

def Database.claim (db : Database) (token_hash : String → String) (now : ℤ)
    (token name account : String) : Except Error (Flow × Database) :=
  if token.isEmpty ∨ 512 < token.utf8ByteSize ∨ name.isEmpty ∨ account.isEmpty then
    .error .unauthorized
  else match db.flows.table.find name with
  | none => .error .unauthorized
  | some f =>
    if f.token_hash = token_hash token ∧ now < f.expires_at
        ∧ (f.account_id = none ∨ f.account_id = some account) then
      .ok (⟨f.id, f.project_id, f.brand_id, f.providers, f.completed⟩,
        { db with flows := db.flows.set_account name account })
    else .error .unauthorized

/-- The binding of a provider account of the project. -/
def Bindings.owner (b : Bindings) (project account : String) : Option Subaccount :=
  b.table.rows.find? (fun r => decide (r.account_key = (project, "unipile", account)))

/-- `complete`; `limit` is the answer of the gate. The result says whether the account is
newly bound. -/
def Database.complete (db : Database) (now : ℤ) (flow : Flow) (account channel : String)
    (limit : Option ℤ) : Except Error (Bool × Database) :=
  match db.flows.table.find flow.id with
  | none => .error .unauthorized
  | some f =>
    if f.project_id = flow.project ∧ f.brand_id = flow.brand ∧ f.account_id = some account
        ∧ now < f.expires_at then
      if f.completed then .ok (false, db)
      else match db.bindings.owner flow.project account with
      | some owner =>
        if owner.external_account_id ≠ flow.brand ∨ owner.channel ≠ channel then
          .error (.new 409 "UNIPILE_ACCOUNT_ALREADY_BOUND" "The account is already bound.")
        else .ok (false, { db with flows := db.flows.set_completed flow.id })
      | none =>
        match limit with
        | none => .error (.denied 0 0)
        | some limit =>
          let used := db.bindings.used flow.project
          if limit ≤ 0 ∨ limit ≤ used then .error (.denied limit used)
          else match db.bindings.link
              ⟨flow.project, flow.brand, "unipile", channel, account, .connected⟩ with
          | none => .error .database
          | some bindings => .ok (true, ⟨bindings, db.flows.set_completed flow.id⟩)
    else .error .unauthorized

def Database.bound_account (db : Database) (project brand channel : String) : Option String :=
  (db.bindings.table.find (project, brand, "unipile", channel)).map (·.provider_account_id)

def Database.clear_binding (db : Database) (project brand channel expected : String) :
    Database :=
  { db with bindings := db.bindings.delete (fun r =>
      decide (r.key = (project, brand, "unipile", channel) ∧ r.provider_account_id = expected)) }

/-! ## Requests -/

def channel (provider : String) : Option String :=
  if provider = "LINKEDIN" then some "LINKEDIN"
  else if provider = "GOOGLE" ∨ provider = "OUTLOOK" ∨ provider = "MAIL" ∨ provider = "IMAP" then
    some "MAIL"
  else if provider = "WHATSAPP" ∨ provider = "INSTAGRAM" ∨ provider = "MESSENGER"
      ∨ provider = "TELEGRAM" then
    some "MESSAGING"
  else none

/-- Where a request stands, with what it has in hand. -/
inductive Stage
  | gated (project brand : String) (providers : List String)
  | claimed (token : String) (flow : Flow) (account : String)
  | located (token : String) (flow : Flow) (account channel : String)
  | bound (project brand channel account : String)
  | deleted (project brand channel account : String)

structure Request where
  id : ℕ
  stage : Stage

/-- A flow that was completed through a token, for an account. -/
structure Completion where
  token : String
  flow : String
  account : String
  deriving DecidableEq

/-- The database, the requests, and what has happened: the ids and hashes of the flows,
the flows completed, and the accounts that a request deleted at the provider. -/
structure Hosted where
  db : Database
  requests : Table Request.id
  issued : List (String × String)
  completions : List Completion
  deletions : List (ℕ × String × String)

def Hosted.init (db : Database) : Hosted where
  db := db
  requests := Table.empty
  issued := db.flows.table.rows.map (fun f => (f.id, f.token_hash))
  completions := []
  deletions := []

/-- One transaction or one call to the provider, of one request. -/
inductive HostedOp
  | hosted (request : ℕ) (project brand : String) (providers : List String) (limit : Option ℤ)
  | create_flow (request : ℕ) (now : ℤ) (locked : List String) (id token : String) (expires : ℤ)
  | notify (request : ℕ) (now : ℤ) (token name account : String)
  | accounts (request : ℕ) (provider : Option String)
  | complete (request : ℕ) (now : ℤ) (limit : Option ℤ)
  | disconnect (request : ℕ) (project brand channel : String)
  | delete (request : ℕ)
  | clear_binding (request : ℕ)
  | needs_reconnect (project brand channel account : String)
  | abandon (request : ℕ)

def Hosted.begin_request (s : Hosted) (id : ℕ) (stage : Stage) : Hosted :=
  { s with requests := (s.requests.insert ⟨id, stage⟩).getD s.requests }

def Hosted.go_on (s : Hosted) (id : ℕ) (stage : Stage) : Hosted :=
  { s with requests := s.requests.modify id ({ · with stage := stage }) (fun _ => rfl) }

def Hosted.end_request (s : Hosted) (id : ℕ) : Hosted :=
  { s with requests := s.requests.delete (fun r => decide (r.id = id)) }

def Hosted.stage (s : Hosted) (id : ℕ) : Option Stage := (s.requests.find id).map Request.stage

def hosted_step (token_hash : String → String) (s : Hosted) : HostedOp → Hosted
  | .hosted request project brand providers limit =>
    if 16 < providers.length ∨ providers.any (fun p => (channel p).isNone) then s
    else match limit with
    | none => s
    | some limit =>
      match s.db.check_gate project limit with
      | .error _ => s
      | .ok () => s.begin_request request (.gated project brand providers)
  | .create_flow request now locked id token expires =>
    match s.stage request with
    | some (.gated project brand providers) =>
      match s.db.create_flow token_hash now locked id token project brand providers expires with
      | .error _ => s.end_request request
      | .ok ((), db) =>
        { s.end_request request with db, issued := s.issued ++ [(id, token_hash token)] }
    | _ => s
  | .notify request now token name account =>
    match s.db.claim token_hash now token name account with
    | .error _ => s
    | .ok (flow, db) =>
      let s := { s with db }
      if flow.completed then s else s.begin_request request (.claimed token flow account)
  | .accounts request provider =>
    match s.stage request with
    | some (.claimed token flow account) =>
      match provider with
      | none => s.end_request request
      | some provider =>
        match channel provider with
        | none => s.end_request request
        | some channel =>
          if flow.providers ≠ [] ∧ provider ∉ flow.providers then s.end_request request
          else s.go_on request (.located token flow account channel)
    | _ => s
  | .complete request now limit =>
    match s.stage request with
    | some (.located token flow account channel) =>
      match s.db.complete now flow account channel limit with
      | .error _ => s.end_request request
      | .ok (_, db) =>
        let before := (s.db.flows.table.find flow.id).any HostedFlow.completed
        { s.end_request request with
          db
          completions := if before then s.completions
            else s.completions ++ [⟨token, flow.id, account⟩] }
    | _ => s
  | .disconnect request project brand channel =>
    if channel.isEmpty then s
    else match s.db.bound_account project brand channel with
    | none => s
    | some account => s.begin_request request (.bound project brand channel account)
  | .delete request =>
    match s.stage request with
    | some (.bound project brand channel account) =>
      { s.go_on request (.deleted project brand channel account) with
        deletions := s.deletions ++ [(request, project, account)] }
    | _ => s
  | .clear_binding request =>
    match s.stage request with
    | some (.deleted project brand channel account) =>
      { s.end_request request with db := s.db.clear_binding project brand channel account }
    | _ => s
  | .needs_reconnect project brand channel account =>
    { s with db := { s.db with
        bindings := s.db.bindings.set_status (project, brand, "unipile", channel) account
          .needs_reconnect } }
  | .abandon request => s.end_request request

end Appcall.Provider
