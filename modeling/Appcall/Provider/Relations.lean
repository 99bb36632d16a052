/-
The accepted relations and their poller: `crates/appcall-provider/src/persistence.rs` and
the table `linkedin_accepted_relations`.

A notification inserts a row in a transaction of its own; the time of the row is `now()`,
the start of that transaction, and the row is seen when it commits. A poll reads the
rows behind its cursor in one statement. Any number of processes write, and a client
passes back the cursor of its last answer.
-/
import Appcall.Provider.Cursor
import Appcall.Lib.Paging
import Appcall.Lib.Machine
import Mathlib.Data.Prod.Lex

set_option autoImplicit false

namespace Appcall.Provider

/-! ## Rows -/

/-- The columns of `provider_subaccounts` that the ingestion reads. -/
structure Owner where
  project_id : String
  provider_account_id : Identifier
  external_account_id : Identifier

/-- `UNIQUE (project_id, connector, provider_account_id)` -/
def Owner.key (o : Owner) : String × Identifier := (o.project_id, o.provider_account_id)

/-- A row of `linkedin_accepted_relations`; times are microseconds since the epoch. -/
structure Relation where
  project_id : String
  external_account_id : Identifier
  provider_member_id : Identifier
  accepted_at : ℕ
  deriving DecidableEq

def Relation.key (r : Relation) : String × Identifier × Identifier :=
  (r.project_id, r.external_account_id, r.provider_member_id)

/-- `ORDER BY accepted_at, external_account_id, provider_member_id` -/
def Relation.position (r : Relation) : ℤ ×ₗ String ×ₗ String :=
  toLex ((r.accepted_at : ℤ),
    toLex (r.external_account_id.text, r.provider_member_id.text))

abbrev Relations := Table Relation.key

/-! ## Polls -/

def ACCEPTED_RELATIONS_LIMIT : ℕ := 200

/-- An element of `accepted`. -/
structure Accepted where
  brandId : String
  memberId : String
  acceptedAt : String

structure Page where
  accepted : List Accepted
  nextCursor : String

def Relation.to_value (k : Crates) (r : Relation) : Accepted :=
  ⟨r.external_account_id.text, r.provider_member_id.text, k.to_rfc3339_opts r.accepted_at⟩

/-- `project_id=$1 AND ($2::text='' OR external_account_id=$2)` -/
def Relation.in_scope (project brand : String) (r : Relation) : Bool :=
  decide (r.project_id = project) && (brand.isEmpty || decide (r.external_account_id.text = brand))

/-- `accepted_at >= $3`, or behind the row of the cursor. -/
def AcceptedCursor.before (c : AcceptedCursor) (r : Relation) : Bool :=
  if c.legacy_timestamp then decide (c.accepted_at ≤ r.accepted_at)
  else decide (toLex (c.accepted_at, toLex (c.account_id, c.member_id)) < r.position)

def accepted_rows (t : Relations) (project brand : String) (parsed : AcceptedCursor) :
    List Relation :=
  t.select (fun r => r.in_scope project brand && parsed.before r)
    (fun r r' => r.position ≤ r'.position) ACCEPTED_RELATIONS_LIMIT

def accepted (k : Crates) (t : Relations) (project brand cursor : String) :
    Except Error Page := do
  let parsed ← parse_accepted_cursor k cursor brand
  let rows := accepted_rows t project brand parsed
  let next := rows.foldl (fun _ r => encode_accepted_cursor k brand r.external_account_id.text
    r.provider_member_id.text r.accepted_at) cursor
  .ok ⟨rows.map (Relation.to_value k), next⟩

/-- The operation `accepted` of `handle_checked`. -/
def handle_accepted (k : Crates) (t : Relations) (project : String)
    (brandId sinceCursor : Field) : Except Error Page := do
  let brand ← string brandId
  let since ← cursor sinceCursor
  accepted k t project brand.text since

/-! ## The system -/

/-- A transaction of `relations`; `row` is what its statement inserted. -/
structure Writer where
  id : ℕ
  project : String
  account : Identifier
  member : Identifier
  start : ℕ
  row : Option Relation
  executed : Bool

/-- A client that polls one brand of a project, or all (the empty brand), with the items
it was given. -/
structure Client where
  id : ℕ
  project : String
  brand : Identifier
  cursor : String
  received : List Accepted

/-- The database, what is under way, and the clients. -/
structure System where
  clock : ℕ
  owners : Table Owner.key
  relations : Relations
  writers : Table Writer.id
  clients : Table Client.id

/-- No relations, no transactions, no clients. -/
def System.init : System := ⟨0, Table.empty, Table.empty, Table.empty, Table.empty⟩

/-- One step of a transaction, of a client or of the outside. -/
inductive Op
  | tick (clock : ℕ)
  | bind (owners : Table Owner.key)
  | relations (id : ℕ) (project : String) (account_id user_provider_id : Field)
  | execute (id : ℕ)
  | commit (id : ℕ)
  | rollback (id : ℕ)
  | client (id : ℕ) (project : String) (brandId : Field)
  | poll (id : ℕ)

/-- The row that `INSERT .. SELECT` makes for the owner of the account. -/
def System.selected (s : System) (w : Writer) : Option Relation :=
  (s.owners.find (w.project, w.account)).map
    (fun o => ⟨o.project_id, o.external_account_id, w.member, w.start⟩)

/-- Another transaction has inserted the key and has not ended. -/
def System.pending (s : System) (id : ℕ) (r : Relation) : Bool :=
  s.writers.rows.any (fun w => decide (w.id ≠ id)
    && w.row.any (fun r' => decide (r'.key = r.key)))

/-- The statement of the transaction is through. -/
def System.write (s : System) (id : ℕ) (row : Option Relation) : System :=
  let through (w : Writer) : Writer := { w with row, executed := true }
  { s with writers := s.writers.modify id through (fun _ => rfl) }

def Client.take (c : Client) (page : Page) : Client :=
  { c with cursor := page.nextCursor, received := c.received ++ page.accepted }

def System.answer (k : Crates) (s : System) (c : Client) : Except Error Page :=
  handle_accepted k s.relations c.project (.text c.brand.text) (.text c.cursor)

def step (k : Crates) (s : System) : Op → System
  | .tick clock => { s with clock }
  | .bind owners => { s with owners }
  | .relations id project account_id user_provider_id =>
    match string account_id, string user_provider_id with
    | .ok account, .ok member =>
      if account.text.isEmpty || member.text.isEmpty then s
      else
        let w : Writer := ⟨id, project, account, member, s.clock, none, false⟩
        { s with writers := (s.writers.insert w).getD s.writers }
    | _, _ => s
  | .execute id =>
    match s.writers.find id with
    | none => s
    | some w =>
      if w.executed then s
      else
        match s.selected w with
        | none => s.write id none
        | some r =>
          -- The statement waits for the transaction that has the key.
          if s.pending id r then s
          else if (s.relations.find r.key).isSome then s.write id none
          else s.write id (some r)
  | .commit id =>
    match s.writers.find id with
    | none => s
    | some w =>
      if w.executed then
        { s with
          relations := match w.row with
            | none => s.relations
            | some r => (s.relations.insert r).getD s.relations
          writers := s.writers.delete (fun w => decide (w.id = id)) }
      else s
  | .rollback id => { s with writers := s.writers.delete (fun w => decide (w.id = id)) }
  | .client id project brandId =>
    match string brandId with
    | .ok brand =>
      let c : Client := ⟨id, project, brand, "", []⟩
      { s with clients := (s.clients.insert c).getD s.clients }
    | .error _ => s
  | .poll id =>
    match s.clients.find id with
    | none => s
    | some c =>
      match s.answer k c with
      | .error _ => s
      | .ok page =>
        { s with clients := s.clients.modify id (fun c => c.take page) (fun _ => rfl) }

end Appcall.Provider
