/-
Admission of an action call: `crates/appcall-actions/src/policy.rs` and
`policy_postgres.rs`.

`reserve` is one transaction. It first gives up what has expired: a pending reservation
is released and refunded, a dispatched one is settled and metered under a key of its
own. Then it admits the call against the hard limit of the month, and charges the
counters of the sending windows. A call that is denied keeps the cleanup.
-/
import Mathlib.Data.List.Dedup
import Mathlib.Data.List.Sort
import Appcall.Actions.Tables
import Appcall.Lib.Machine

set_option autoImplicit false

namespace Appcall.Actions

variable {Value : Type}

/-! ## Limits -/

/-- `Entitlements`, as `validate_entitlements` lets them pass. -/
structure Entitlements where
  action_calls_soft : ℤ
  action_calls_hard : ℤ
  send_cap : ℤ
  spend_cap_micros : ℤ
  nonneg : 0 ≤ action_calls_soft ∧ 0 ≤ action_calls_hard ∧ 0 ≤ send_cap ∧ 0 ≤ spend_cap_micros

structure LinkedInLimits where
  warmup_enabled : Bool
  invite_daily_cap : ℤ
  invite_weekly_cap : ℤ
  invite_noted_monthly_cap : ℤ
  invite_spacing_seconds : ℤ
  message_daily_cap : ℤ
  message_weekly_cap : ℤ
  message_spacing_seconds : ℤ
  profile_view_daily_cap : ℤ

structure Ceiling where
  hour : ℤ
  day : ℤ
  week : ℤ
  month : ℤ
  spacing_seconds : ℤ

def cap (value default hard : ℤ) : ℤ := if value > 0 then min value hard else default

def LinkedInLimits.warm_ceiling (l : LinkedInLimits) (action_class : String) : Ceiling :=
  if action_class = "invitation" then
    { hour := 10
      day := cap l.invite_daily_cap 20 25
      week := cap l.invite_weekly_cap 80 100
      month := cap l.invite_noted_monthly_cap 5 50
      spacing_seconds := if l.invite_spacing_seconds > 0 then l.invite_spacing_seconds else 30 }
  else if action_class = "message" then
    { hour := 20
      day := cap l.message_daily_cap 15 25
      week := cap l.message_weekly_cap 100 120
      month := 0
      spacing_seconds := if l.message_spacing_seconds > 0 then l.message_spacing_seconds
        else 20 }
  else if action_class = "profile_view" then
    { hour := 30, day := cap l.profile_view_daily_cap 100 150, week := 0, month := 0
      spacing_seconds := 0 }
  else if action_class = "search" then
    { hour := 0, day := 100, week := 0, month := 0, spacing_seconds := 0 }
  else { hour := 0, day := 0, week := 0, month := 0, spacing_seconds := 0 }

/-- The share of a ceiling an account has by its age in days. -/
def LinkedInLimits.warmup (l : LinkedInLimits) (age : ℤ) : ℤ × ℤ :=
  if !l.warmup_enabled || decide (age ≥ 56) then (1, 1)
  else if age ≥ 28 then (3, 4)
  else if age ≥ 14 then (1, 2)
  else (1, 4)

def LinkedInLimits.ceiling (l : LinkedInLimits) (action_class : String) (age : ℤ) : Ceiling :=
  let c := l.warm_ceiling action_class
  let (num, den) := l.warmup age
  { c with
    day := (c.day * num + den - 1).tdiv den
    week := (c.week * num + den - 1).tdiv den }

/-- `PolicyConfig`, as `PgPolicy::new` takes it. -/
structure PolicyConfig where
  send_cost_micros : ℤ
  linkedin : LinkedInLimits
  cost_nonneg : 0 ≤ send_cost_micros

def channel (action : String) : String :=
  if action = "emails.send" ∨ action = "emails.list" then "MAIL"
  else if action = "linkedin.profile.get" ∨ action = "linkedin.invitation.send"
      ∨ action = "linkedin.relations.list" then "LINKEDIN"
  else if action = "chats.start" ∨ action = "chats.list" then "MESSAGING"
  else ""

def linkedin_class (action : String) : String :=
  if action = "linkedin.invitation.send" then "invitation"
  else if action = "linkedin.profile.get" then "profile_view"
  else if action = "linkedin.relations.list" then "search"
  else ""

/-! ## Charges -/

/-- The range of a `bigint`. -/
def fits (n : ℤ) : Bool := decide (-2 ^ 63 ≤ n) && decide (n < 2 ^ 63)

/-- `claim_send`: the counter of the window goes up by one send, within the caps. -/
def Counters.claim_send (n : Counters) (account window : String) (e : Entitlements)
    (cost : ℤ) : Except Code Counters :=
  let row := n.send_caps.find (account, window)
  let send_count := row.elim 0 (fun r => r.send_count)
  let spend_micros := row.elim 0 (fun r => r.spend_micros)
  if !fits (send_count + 1) || !fits (spend_micros + cost) then .error .CONNECTOR_UNAVAILABLE
  else if (e.send_cap = 0 ∨ send_count + 1 ≤ e.send_cap)
      ∧ (e.spend_cap_micros = 0 ∨ spend_micros + cost ≤ e.spend_cap_micros) then
    .ok { n with
      send_caps := n.send_caps.upsert
        { external_account_id := account, window_key := window, send_count := 1
          spend_micros := cost }
        (fun r => { r with
          send_count := r.send_count + 1
          spend_micros := r.spend_micros + cost })
        (fun _ => rfl) }
  else if e.send_cap > 0 ∧ send_count ≥ e.send_cap then .error .SEND_CAP_EXCEEDED
  else .error .SPEND_CAP_EXCEEDED

def full_code (action_class : String) (kind : WindowKind) (age : ℤ) : Code :=
  if kind = .month then .LINKEDIN_NOTED_INVITE_CAP_EXCEEDED
  else if age < 56 then .LINKEDIN_WARMUP_LIMITED
  else if action_class = "invitation" then .LINKEDIN_INVITE_CAP_EXCEEDED
  else if action_class = "message" then .LINKEDIN_MESSAGE_CAP_EXCEEDED
  else .LINKEDIN_VIEW_CAP_EXCEEDED

/-- A window of a LinkedIn class with its cap. -/
structure Window where
  kind : WindowKind
  key : String
  cap : ℤ

/-- One window of `claim_linkedin`. -/
def Counters.claim_window (account action_class : String) (age : ℤ) (n : Counters)
    (w : Window) : Except Code Counters :=
  let row : LinkedInCounter :=
    { external_account_id := account, action_class, window_kind := w.kind, window_key := w.key
      count := 1, last_sent_at := none }
  if (n.linkedin.find row.window).elim true (fun r => decide (r.count + 1 ≤ w.cap)) then
    .ok { n with
      linkedin := n.linkedin.upsert row (fun r => { r with count := r.count + 1 })
        (fun _ => rfl) }
  else .error (full_code action_class w.kind age)

/-- The windows of a class at a time, those without a cap left out. -/
def Ceiling.windows (cal : Calendar) (c : Ceiling) (noted : Bool) (clock : ℤ) : List Window :=
  [{ kind := .hour, key := cal.hour clock, cap := c.hour },
    { kind := .day, key := cal.day clock, cap := c.day },
    { kind := .week, key := cal.iso_week clock, cap := c.week },
    { kind := .month, key := cal.month clock, cap := if noted then c.month else 0 }].filter
      (fun w => decide (0 < w.cap))

/-- `EXTRACT(EPOCH FROM d)::bigint`. -/
def epoch_seconds (d : ℤ) : ℤ :=
  if 0 ≤ d then (d + 500000) / 1000000 else -((-d + 500000) / 1000000)

/-- The row that keeps the time of the last action of a class. -/
def Counters.spacing (n : Counters) (account action_class : String) : Option LinkedInCounter :=
  n.linkedin.find (account, action_class, .spacing, "-")

/-- `claim_linkedin`: every window of the class goes up by one, or none does. -/
def Counters.claim_linkedin (n : Counters) (account action_class : String) (c : Ceiling)
    (windows : List Window) (age now : ℤ) : Except Code Counters :=
  if c.spacing_seconds > 0 ∧ ((n.spacing account action_class).bind (·.last_sent_at)).any
      (fun last => decide (epoch_seconds (now - last) < c.spacing_seconds)) then
    .error .LINKEDIN_ACTION_TOO_FAST
  else
    match windows.foldlM (Counters.claim_window account action_class age) n with
    | .error e => .error e
    | .ok n =>
      .ok { n with
        linkedin := n.linkedin.upsert
          { external_account_id := account, action_class, window_kind := .spacing
            window_key := "-", count := 0, last_sent_at := some now }
          (fun r => { r with last_sent_at := some now }) (fun _ => rfl) }

/-! ## Cleanup -/

def Database.quota_months_to_lock (db : Database Value) (current_month : String) (now : ℤ) :
    List String :=
  (List.insertionSort (fun a b : String => a ≤ b) (current_month ::
    (db.reservations.rows.filter (fun r => r.active && r.expired now)).map (·.month))).dedup

/-- The ids of the expired reservations of a month in a state. -/
def Database.expired_ids (db : Database Value) (month : String) (state : ReservationState)
    (now : ℤ) : List String :=
  (db.reservations.rows.filter (fun r =>
    decide (r.month = month) && decide (r.state = state) && r.expired now)).map (·.id)

/-- One reservation of `expire_pending_quota`. -/
def Database.expire_one (db : Database Value) (id : String) : Except Code (Database Value) :=
  match db.refund_reservation_charges id with
  | .error e => .error e
  | .ok db => .ok (db.set_state id [.pending] .released)

def Database.expire_pending_quota (db : Database Value) (month : String) (now : ℤ) :
    Except Code (Database Value) :=
  (db.expired_ids month .pending now).foldlM Database.expire_one db

/-- One reservation of `recover_expired_dispatched_quota`. -/
def Database.recover_one (month : String) (db : Database Value) (id : String) :
    Database Value :=
  match db.reservations.find id with
  | none => db
  | some r =>
    if r.state = .dispatched then
      (db.meter (recovery_key id) r.external_account_id r.created_at month).set_state id
        [.dispatched] .settled
    else db

def Database.recover_expired_dispatched_quota (db : Database Value) (month : String)
    (now : ℤ) : Database Value :=
  (db.expired_ids month .dispatched now).foldl (Database.recover_one month) db

def Database.sweep_month (now : ℤ) (db : Database Value) (month : String) :
    Except Code (Database Value) :=
  match db.expire_pending_quota month now with
  | .error e => .error e
  | .ok db => .ok (db.recover_expired_dispatched_quota month now)

/-- The cleanup of `reserve`. -/
def Database.sweep (db : Database Value) (month : String) (now : ℤ) :
    Except Code (Database Value) :=
  (db.quota_months_to_lock month now).foldlM (Database.sweep_month now) db

/-! ## Admission -/

structure UsageSnapshot where
  month : String
  current : ℤ
  projected : ℤ
  soft_limit : ℤ
  hard_limit : ℤ

def Database.used (db : Database Value) (month : String) : ℤ :=
  db.rollups.sum (fun r => if r.month = month then r.quantity else 0)

/-- The reservations of a month that hold capacity and have not expired. -/
def Database.unexpired (db : Database Value) (month : String) (now : ℤ) : ℤ :=
  db.reservations.sum (fun r =>
    if r.month = month ∧ r.active = true ∧ r.expired now = false then 1 else 0)

/-- `usage_snapshot` for one more call; there is none when its projection overflows. -/
def Database.usage_snapshot (db : Database Value) (month : String) (now : ℤ)
    (e : Entitlements) : Option UsageSnapshot :=
  let projected := db.used month + db.unexpired month now + 1
  if fits projected then
    some { month, current := db.used month, projected, soft_limit := e.action_calls_soft
           hard_limit := e.action_calls_hard }
  else none

/-- A row of `provider_subaccounts`. -/
structure Subaccount where
  connected : Bool
  created_at : ℤ
  provider_account_id : String

/-- A call of `reserve`: the request, and what its transaction finds outside the tables
of the model (the entitlements, the subaccount, the clock of the process, the random id). -/
structure Reserve where
  connection_id : String
  connector : String
  action : String
  external_account_id : String
  idempotency_key : String
  input_hash : String
  timeout_ms : ℤ
  read_only : Bool
  noted : Bool
  expected_account : String
  entitlements : Option Entitlements
  subaccount : Option Subaccount
  clock : ℤ
  quota_id : String

/-- `PolicyReservation`, as much of it as the repository reads. -/
structure PolicyReservation where
  usage : UsageSnapshot
  quota_id : String
  quota_month : String

def Window.charge (action_class : String) (w : Window) : Charge :=
  { kind := .linkedin, action_class, window_kind := w.kind, window_key := w.key, quantity := 1
    spend_micros := 0, refunded := false, quantity_pos := Int.one_pos
    spend_nonneg := Int.le_refl 0 }

def PolicyConfig.send_charge (config : PolicyConfig) (window : String) : Charge :=
  { kind := .send, action_class := "", window_kind := .day, window_key := window, quantity := 1
    spend_micros := config.send_cost_micros, refunded := false, quantity_pos := Int.one_pos
    spend_nonneg := config.cost_nonneg }

def Subaccount.age (account : Subaccount) (now : ℤ) : ℤ :=
  (epoch_seconds (now - account.created_at)).tdiv 86400

/-- The windows of a call for a subaccount. -/
def Reserve.windows (cal : Calendar) (config : PolicyConfig) (q : Reserve)
    (account : Subaccount) (now : ℤ) : List Window :=
  (config.linkedin.ceiling (linkedin_class q.action) (account.age now)).windows cal q.noted
    q.clock

/-- The charges of `reserve` to the LinkedIn windows. -/
def Reserve.charge_linkedin (cal : Calendar) (config : PolicyConfig) (q : Reserve) (now : ℤ)
    (n : Counters) : Except Code (Counters × List Charge) :=
  if q.connector ≠ "unipile" ∨ channel q.action = "" then .ok (n, [])
  else
    match q.subaccount with
    | none => .error .MISSING_SUBACCOUNT
    | some account =>
      if !account.connected then .error .CONNECTION_RESTRICTED
      else if account.provider_account_id ≠ q.expected_account then .error .MISSING_SUBACCOUNT
      else
        let action_class := linkedin_class q.action
        if action_class = "" then .ok (n, [])
        else
          let age := account.age now
          match n.claim_linkedin q.external_account_id action_class
              (config.linkedin.ceiling action_class age) (q.windows cal config account now)
              (if config.linkedin.warmup_enabled then age else 56) now with
          | .error e => .error e
          | .ok n =>
            .ok (n, (q.windows cal config account now).map (Window.charge action_class))

/-- The charge of `reserve` to the sending window; a read sends nothing. -/
def Reserve.charge_send (cal : Calendar) (config : PolicyConfig) (q : Reserve)
    (e : Entitlements) (now : ℤ) (n : Counters) : Except Code (Counters × List Charge) :=
  if q.read_only then .ok (n, [])
  else
    match n.claim_send q.external_account_id (cal.day now) e config.send_cost_micros with
    | .error e => .error e
    | .ok n => .ok (n, [config.send_charge (cal.day now)])

/-- The row `reserve` inserts. -/
def Reserve.row (q : Reserve) (month : String) (now : ℤ) (charges : List Charge) :
    Reservation :=
  { id := q.quota_id
    month
    connection_id := q.connection_id
    connector := q.connector
    action := q.action
    external_account_id := q.external_account_id
    idempotency_key := some q.idempotency_key
    request_id := none
    input_hash := some q.input_hash
    state := .pending
    expires_at := now + max (q.timeout_ms + 60000) 1 * 1000
    created_at := now
    dispatched_at := none
    charges }

/-- The part of `reserve` after the admission: the row and its charges. The row is
inserted with its charges, after the counters; the transaction commits them together. -/
def Database.grant (cal : Calendar) (config : PolicyConfig) (db : Database Value) (q : Reserve)
    (e : Entitlements) (month : String) (now : ℤ) : Except Code (Database Value) :=
  match q.charge_linkedin cal config now db.counters with
  | .error e => .error e
  | .ok (counters, linkedin) =>
    match q.charge_send cal config e now counters with
    | .error e => .error e
    | .ok (counters, send) =>
      match db.reservations.insert (q.row month now (send ++ linkedin)) with
      | none => .error .CONNECTOR_UNAVAILABLE
      | some reservations => .ok { db with counters, reservations }

/-- `PgPolicy::reserve`. A call that is denied keeps the cleanup; any other error leaves
nothing behind. -/
def Database.reserve (cal : Calendar) (config : PolicyConfig) (db : Database Value)
    (q : Reserve) (now : ℤ) : Except Code PolicyReservation × Database Value :=
  match q.entitlements with
  | none => (.error .CONNECTOR_UNAVAILABLE, db)
  | some e =>
    let month := cal.month now
    match db.sweep month now with
    | .error code => (.error code, db)
    | .ok swept =>
      match swept.usage_snapshot month now e with
      | none =>
        if e.action_calls_hard > 0 then (.error .USAGE_LIMIT_EXCEEDED, swept)
        else (.error .CONNECTOR_UNAVAILABLE, db)
      | some usage =>
        if e.action_calls_hard > 0 ∧ usage.projected > e.action_calls_hard then
          (.error .USAGE_LIMIT_EXCEEDED, swept)
        else
          match swept.grant cal config q e month now with
          | .error code => (.error code, db)
          | .ok db => (.ok { usage, quota_id := q.quota_id, quota_month := month }, db)

end Appcall.Actions
