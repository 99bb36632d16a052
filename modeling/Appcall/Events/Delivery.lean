/-
Webhook events are accepted and dispatched once.

The generation of a connection stands for its account, so an event that is delivered
again within a generation meets the event of its own account; a delivery that is refused
changes nothing. The row of an event in the outbox tells what was dispatched, over every
run, and a row that is done stays so.
-/
import Appcall.Events.Outbox

set_option autoImplicit false

namespace Appcall.Events

open Appcall.Oauth (Connection Marker Intent bump_connection_generation)

variable {month : ℤ → String} {s : System} {db db' : Database}

/-! ## Generations -/

/-- The row of a connection may move to a later generation; within one, its account
stays. -/
def Advances (c c' : ConnectionRow) : Prop :=
  c.connection_generation ≤ c'.connection_generation
    ∧ (c'.connection_generation = c.connection_generation →
      c'.connection.external_account_id = c.connection.external_account_id)

/-- The events of the current generation of a connection are of its account. -/
def Branded (db : Database) : Prop :=
  ∀ e ∈ db.webhook_events.table.rows, ∃ c, db.connections.find e.connection_id = some c
    ∧ e.connection_generation ≤ c.connection_generation
    ∧ (e.connection_generation = c.connection_generation →
      e.external_account_id = c.connection.external_account_id)

theorem Branded.advance (h : Branded db) (hevents : db'.webhook_events = db.webhook_events)
    (hconnections : ∀ id c, db.connections.find id = some c →
      ∃ c', db'.connections.find id = some c' ∧ Advances c c') : Branded db' := by
  intro e he
  rw [hevents] at he
  obtain ⟨c, hc, hle, haccount⟩ := h e he
  obtain ⟨c', hc', hle', haccount'⟩ := hconnections _ c hc
  refine ⟨c', hc', hle.trans hle', fun heq => ?_⟩
  have hsame : c'.connection_generation = c.connection_generation := by omega
  rw [haccount' hsame]
  exact haccount (heq.trans hsame)

theorem Branded.connect (h : Branded db) (c : Connection) : Branded (db.connect c) := by
  rw [Database.connect]
  split
  · exact h
  next connections hinsert =>
    refine h.advance rfl fun id c' hc' => ⟨c', ?_, le_rfl, fun _ => rfl⟩
    refine (Table.find_insert hinsert id).trans ?_
    rw [if_neg, hc']
    rintro rfl
    rw [(Table.insert_eq_some hinsert).1] at hc'
    cases hc'

theorem updated_row_advances (marker : Option Marker) (intent : Option (Intent String))
    (new : Connection) (c : ConnectionRow) : Advances c (updated_row marker intent new c) := by
  rw [Advances, updated_row, bump_connection_generation]
  dsimp only
  split
  next =>
    refine ⟨Nat.le_succ _, fun hsame => ?_⟩
    omega
  next hnone =>
    refine ⟨le_rfl, fun _ => ?_⟩
    by_contra hne
    exact hnone (.inl (Ne.symm hne))

theorem Branded.update_connection (h : Branded db) (id : String) (marker : Option Marker)
    (intent : Option (Intent String)) (new : Connection) :
    Branded (db.update_connection id marker intent new) := by
  refine h.advance rfl fun id' c hc => ?_
  by_cases hid : id' = id
  · refine ⟨updated_row marker intent new c, ?_, updated_row_advances ..⟩
    rw [hid] at hc ⊢
    exact Table.find_modify_self hc (updated_row marker intent new) (fun _ => rfl)
  · refine ⟨c, ?_, le_rfl, fun _ => rfl⟩
    rw [← hc]
    exact Table.find_modify_other db.connections (updated_row marker intent new) (fun _ => rfl) hid

variable {c : ConnectionRow} {now position : ℤ} {e : WebhookEvent} {expected : Option Connection}
  {expected_revision : Option ℕ}

theorem Branded.insert (h : Branded db) {claims : WebhookClaims} {parsed : ParsedWebhook}
    {events : WebhookEvents} {outbox : Table Outbox.key}
    (hnew : e.New db claims parsed c now position)
    (hc : db.connections.find claims.connection_id = some c)
    (hevents : db.webhook_events.insert e = some events) :
    Branded { db with webhook_events := events, webhook_outbox := outbox } := by
  intro e' he'
  rw [(insert_events_eq_some hevents).2, List.mem_append, List.mem_singleton] at he'
  rcases he' with he' | rfl
  · exact h e' he'
  · refine ⟨c, hnew.connection ▸ hc, hnew.generation.le, fun _ => hnew.account⟩

/-! ## Steps -/

structure System.Sound (month : ℤ → String) (s : System) : Prop where
  told : Told month s.db s.dispatches
  locked : Locked s.db s.runs
  branded : Branded s.db

theorem sound_init (month : ℤ → String) : System.init.Sound month where
  told := told_init month
  locked := {
    valid := by
      intro r hr
      cases hr
    single := by
      intro r hr
      cases hr }
  branded e he := by cases he

theorem System.Sound.runs (h : s.Sound month) {runs : Table DispatchRun.worker}
    {reports : List (ℕ × Except Error DispatchReport)}
    (hruns : ∀ r ∈ runs.rows, r.held = none ∨ r ∈ s.runs.rows) :
    ({ s with runs, reports } : System).Sound month :=
  ⟨h.told, h.locked.mono hruns fun _ _ _ _ hvalid => hvalid, h.branded⟩

theorem System.Sound.connections (h : s.Sound month)
    (hdb : db = { s.db with connections := db.connections }) (hbranded : Branded db) :
    ({ s with db } : System).Sound month := by
  refine ⟨h.told.of_eq hdb, h.locked.mono (fun r hr => .inr hr) fun _ _ held _ hvalid => ?_,
    hbranded⟩
  rw [hdb]
  exact hvalid

theorem connect_eq (db : Database) (c : Connection) :
    db.connect c = { db with connections := (db.connect c).connections } := by
  rw [Database.connect]
  split <;> rfl

theorem System.Sound.accept (h : s.Sound month) {drawn : List Uuid} {claims : WebhookClaims}
    {parsed : ParsedWebhook} {r : IngestResult}
    (hok : s.db.accept_checked now position drawn claims parsed expected expected_revision
      = .ok (r, db)) : ({ s with db } : System).Sound month := by
  obtain ⟨c, hc, rfl | ⟨e, hnew, -, events, outbox, hevents, houtbox, rfl⟩⟩ :=
    accept_checked_eq_ok hok
  · exact h
  · refine ⟨h.told.insert hevents houtbox rfl rfl rfl,
      h.locked.mono (fun r hr => .inr hr) fun _ _ held _ hvalid => ?_,
      h.branded.insert hnew (accepting_connection_eq_ok hc).1 hevents⟩
    exact valid_insert hevents houtbox hvalid

theorem System.Sound.settle (h : s.Sound month) {worker : ℕ} {r : DispatchRun} {held : Held}
    (hr : s.runs.find worker = some r) (hheld : r.held = some held) (now : ℤ) (id : Uuid)
    (sink : Except Error Unit) (stored : Bool) :
    (s.settle month worker held now id sink stored).Sound month := by
  obtain ⟨he, o, ho, hpending, hattempts⟩ :=
    h.locked.valid r (Table.find_eq_some.mp hr).1 held hheld
  rw [System.settle]
  split
  next db' hok =>
    obtain ⟨jobs, hdb, hlength, hjobs⟩ := dispatch_eq_ok hok
    have htold := h.told.complete now id he ho hpending hlength hjobs
    rw [← hdb] at htold
    have hconnections : db'.connections = s.db.connections := by
      rw [hdb, complete_connections]
    have hevents : db'.webhook_events = s.db.webhook_events := by
      rw [hdb, complete_events]
    have houtbox : db'.webhook_outbox = s.db.webhook_outbox.modify held.event.key
        (Outbox.complete now) (complete_key now) := by
      rw [hdb, complete_outbox]
      rfl
    exact ⟨htold, h.locked.settled hr hheld (.of_modify _ ho houtbox) hevents _ _,
      h.branded.advance hevents fun id' c hc => ⟨c, hconnections ▸ hc, le_rfl, fun _ => rfl⟩⟩
  next err _ =>
    have hrewrites : Rewrites s.db (s.db.fail now held err) held.event.key o _ :=
      .of_modify (fail_key now held.attempts (dispatch_error_code err)) ho rfl
    exact ⟨h.told.fail ho hpending hattempts, h.locked.settled hr hheld hrewrites rfl _ _,
      h.branded.advance rfl fun id' c hc => ⟨c, hc, le_rfl, fun _ => rfl⟩⟩

theorem step_sound (op : Op) (h : s.Sound month) : (step month s op).Sound month := by
  have hdelete : ∀ {worker : ℕ}, ∀ r ∈ (s.runs.delete
      (fun r => decide (r.worker = worker))).rows, r.held = none ∨ r ∈ s.runs.rows :=
    fun r hr => .inr (List.mem_of_mem_filter hr)
  cases op with
  | connect c => exact h.connections (connect_eq s.db c) (h.branded.connect c)
  | update_connection id marker intent new =>
    exact h.connections rfl (h.branded.update_connection id marker intent new)
  | accept now position drawn claims parsed expected expected_revision =>
    exact commit_keeps (I := fun db => ({ s with db } : System).Sound month) h
      fun _ _ hok => h.accept hok
  | dispatch_pending worker limit =>
    refine h.runs fun r hr => ?_
    rcases Table.mem_insert_getD hr with hr | ⟨rfl, -⟩
    · exact .inr hr
    · exact .inl rfl
  | take worker now =>
    simp only [step]
    split
    · exact h
    · split
      · exact h
      · split
        · exact h.runs hdelete
        · split
          · exact h.runs hdelete
          next held hrow =>
            obtain ⟨hvalid, hfree⟩ := next_row_eq_some hrow
            exact ⟨h.told, h.locked.take (f := DispatchRun.take held) hvalid hfree (fun _ => rfl)
              (fun _ => rfl), h.branded⟩
  | settle worker now id sink stored committed =>
    simp only [step]
    split
    · exact h
    next held hheld =>
      obtain ⟨r, hr, hheld⟩ := Option.bind_eq_some_iff.mp hheld
      split
      · exact h.settle hr hheld now id sink stored
      · exact h.runs hdelete
  | crash worker => exact h.runs hdelete

theorem run_sound (month : ℤ → String) (ops : List Op) :
    (Machine.run (step month) System.init ops).Sound month :=
  Machine.run_keeps (I := System.Sound month) (fun _ op h => step_sound op h)
    (sound_init month) ops

/-! ## Deliveries -/

/-- The webhook is for the event, which was stored with the same provider key under the
same generation of its connection. -/
structure WebhookEvent.Redelivered (e : WebhookEvent) (claims : WebhookClaims)
    (parsed : ParsedWebhook) (c : ConnectionRow) : Prop where
  project : e.project_id = claims.project_id
  connector : e.connector = claims.connector
  connection : e.connection_id = claims.connection_id
  generation : e.connection_generation = c.connection_generation
  keyed : parsed.idempotency_key ≠ ""
  key : e.provider_event_key = some parsed.idempotency_key

theorem WebhookEvent.Redelivered.identity {claims : WebhookClaims} {parsed : ParsedWebhook}
    (h : e.Redelivered claims parsed c) :
    e.provider_identity = some (claims.project_id, claims.connector, claims.connection_id,
      c.connection_generation, parsed.idempotency_key) := by
  rw [WebhookEvent.provider_identity, h.key, Option.filter_some,
    if_pos (decide_eq_true h.keyed), Option.map_some, h.project, h.connector, h.connection,
    h.generation]

theorem prior_eq (db : Database) (he : e ∈ db.webhook_events.table.rows) {claims : WebhookClaims}
    {parsed : ParsedWebhook} (h : e.Redelivered claims parsed c) :
    db.prior claims c.connection_generation parsed.idempotency_key = some e := by
  cases hprior : db.prior claims c.connection_generation parsed.idempotency_key with
  | none =>
    have hnot := List.find?_eq_none.mp hprior e he
    rw [decide_eq_true_eq] at hnot
    exact (hnot ⟨h.project, h.connector, h.connection, h.generation, h.key⟩).elim
  | some prior =>
    have hmem := List.mem_of_find?_eq_some hprior
    have hmatch := List.find?_some hprior
    rw [decide_eq_true_eq] at hmatch
    obtain ⟨hproject, hconnector, hconnection, hgeneration, hkey⟩ := hmatch
    have hidentity : prior.provider_identity = e.provider_identity := by
      rw [h.identity]
      exact WebhookEvent.Redelivered.identity ⟨hproject, hconnector, hconnection,
        hgeneration, h.keyed, hkey⟩
    rw [db.webhook_events.identity prior hmem e he (by rw [hidentity, h.identity]; rintro ⟨⟩)
      hidentity]

/-- **A webhook that comes again** meets its event. -/
theorem redelivery (h : s.Sound month) (he : e ∈ s.db.webhook_events.table.rows) {drawn : List Uuid}
    {claims : WebhookClaims} {parsed : ParsedWebhook}
    (hc : s.db.accepting_connection claims parsed expected expected_revision = .ok c)
    (hagain : e.Redelivered claims parsed c) :
    s.db.accept_checked now position drawn claims parsed expected expected_revision
      = .ok (⟨e.id, true⟩, s.db) := by
  obtain ⟨c', hc', -, haccount⟩ := h.branded e he
  have hsame : c' = c := by
    rw [hagain.connection, (accepting_connection_eq_ok hc).1, Option.some_inj] at hc'
    exact hc'.symm
  have hbrand := haccount (by rw [hsame, hagain.generation])
  rw [hsame] at hbrand
  rw [Database.accept_checked, hc]
  refine (if_neg hagain.keyed).trans ?_
  rw [prior_eq s.db he hagain]
  exact if_neg (not_not.mpr hbrand)

/-! ## Rows that are done -/

theorem step_outbox (h : s.Sound month) (op : Op) :
    ((∀ o ∈ s.db.webhook_outbox.rows, o ∈ (step month s op).db.webhook_outbox.rows)
      ∧ (step month s op).dispatches = s.dispatches)
    ∨ ∃ key o o' b, Rewrites s.db (step month s op).db key o o' ∧ o.status = .pending
      ∧ (step month s op).dispatches = s.dispatches ++ [⟨key, b⟩] := by
  cases op with
  | connect c =>
    refine .inl ⟨fun o ho => ?_, rfl⟩
    simp only [step]
    rw [connect_eq]
    exact ho
  | update_connection id marker intent new => exact .inl ⟨fun o ho => ho, rfl⟩
  | accept now position drawn claims parsed expected expected_revision =>
    refine .inl ⟨fun o ho => ?_, rfl⟩
    refine commit_keeps (I := fun db : Database => o ∈ db.webhook_outbox.rows) ho
      fun r db' hok => ?_
    obtain ⟨c, -, rfl | ⟨e, -, -, events, outbox, -, houtbox, rfl⟩⟩ := accept_checked_eq_ok hok
    · exact ho
    · rw [(Table.insert_eq_some houtbox).2]
      exact List.mem_append_left _ ho
  | dispatch_pending worker limit => exact .inl ⟨fun o ho => ho, rfl⟩
  | take worker now =>
    left
    simp only [step]
    split
    · exact ⟨fun o ho => ho, rfl⟩
    · split
      · exact ⟨fun o ho => ho, rfl⟩
      · split
        · exact ⟨fun o ho => ho, rfl⟩
        · split
          · exact ⟨fun o ho => ho, rfl⟩
          · exact ⟨fun o ho => ho, rfl⟩
  | settle worker now id sink stored committed =>
    simp only [step]
    split
    · exact .inl ⟨fun o ho => ho, rfl⟩
    next held hheld =>
      obtain ⟨r, hr, hheld⟩ := Option.bind_eq_some_iff.mp hheld
      obtain ⟨-, o, ho, hpending, -⟩ :=
        h.locked.valid r (Table.find_eq_some.mp hr).1 held hheld
      split
      · rw [System.settle]
        split
        next db' hok =>
          obtain ⟨jobs, hdb, -, -⟩ := dispatch_eq_ok hok
          refine .inr ⟨held.event.key, o, o.complete now, true, ?_, hpending, rfl⟩
          refine .of_modify (complete_key now) ho ?_
          rw [System.settled, hdb, complete_outbox]
          rfl
        next err _ =>
          exact .inr ⟨held.event.key, o, _, false,
            .of_modify (fail_key now held.attempts (dispatch_error_code err)) ho rfl, hpending,
            rfl⟩
      · exact .inl ⟨fun o ho => ho, rfl⟩
  | crash worker => exact .inl ⟨fun o ho => ho, rfl⟩

/-- A row that is dispatched or dead stays as it is, and is not dispatched again. -/
def System.Done (o : Outbox) (dispatches : Bool → ℕ) (s : System) : Prop :=
  o ∈ s.db.webhook_outbox.rows ∧ ∀ b, s.dispatches.count ⟨o.key, b⟩ = dispatches b

theorem step_done {o : Outbox} (hdone : o.status ≠ .pending) {dispatches : Bool → ℕ} (op : Op)
    (hs : s.Sound month) (h : s.Done o dispatches) : (step month s op).Done o dispatches := by
  obtain ⟨hrows, hsame⟩ | ⟨key, o₀, o', b, hrewrites, hpending, hlog⟩ := step_outbox hs op
  · exact ⟨hrows o h.1, fun b => by rw [hsame]; exact h.2 b⟩
  · have hne : o.key ≠ key := by
      rintro rfl
      have hfind : s.db.webhook_outbox.find o.key = some o := Table.find_eq_some.mpr ⟨h.1, rfl⟩
      rw [hrewrites.old, Option.some_inj] at hfind
      exact hdone (hfind ▸ hpending)
    refine ⟨?_, fun b' => ?_⟩
    · have hfind := hrewrites.new o.key
      rw [if_neg hne, Table.find_eq_some.mpr ⟨h.1, rfl⟩] at hfind
      exact (Table.find_eq_some.mp hfind).1
    · rw [hlog, count_other _ (fun heq => hne (congrArg Dispatch.event heq)), h.2 b']

theorem run_done {o : Outbox} (hdone : o.status ≠ .pending) (dispatches : Bool → ℕ)
    (ops : List Op) (hs : s.Sound month) (h : s.Done o dispatches) :
    (Machine.run (step month) s ops).Done o dispatches :=
  (Machine.run_keeps (I := fun s : System => s.Sound month ∧ s.Done o dispatches)
    (fun _ op h => ⟨step_sound op h.1, step_done hdone op h.1 h.2⟩) ⟨hs, h⟩ ops).2

theorem failed_dispatch (h : s.Sound month) {worker : ℕ} {r : DispatchRun} {held : Held}
    (hr : s.runs.find worker = some r) (hheld : r.held = some held) {id : Uuid}
    {sink : Except Error Unit} {stored : Bool} {err : Error}
    (herr : s.db.dispatch month now id held.event.toEvent sink stored = .error err) :
    let db' := (step month s (.settle worker now id sink stored true)).db
    db' = { s.db with webhook_outbox := db'.webhook_outbox }
    ∧ ∃ o o', Rewrites s.db db' held.event.key o o' ∧ o'.attempts = o.attempts + 1
      ∧ (o'.status = .dead_letter ↔ o'.attempts = 10) := by
  intro db'
  have hdb : db' = s.db.fail now held err := by
    have hbind : (s.runs.find worker).bind DispatchRun.held = some held := by
      rw [hr, Option.bind_some, hheld]
    simp only [db', step, hbind, if_true, System.settle, herr, System.settled]
  obtain ⟨-, o, ho, hpending, hattempts⟩ :=
    h.locked.valid r (Table.find_eq_some.mp hr).1 held hheld
  have hrewrites : Rewrites s.db db' held.event.key o
      (o.fail now held.attempts (dispatch_error_code err)) := by
    rw [hdb]
    exact .of_modify (fail_key now held.attempts (dispatch_error_code err)) ho rfl
  obtain ⟨-, hten⟩ := h.told.pending ho hpending
  refine ⟨by rw [hdb]; rfl, o, _, hrewrites, ?_, ?_⟩
  · rw [fail_attempts (hattempts ▸ hten), hattempts]
  · have hnew := (Table.find_eq_some.mp ((hrewrites.new held.event.key).trans (if_pos rfl))).1
    rw [hdb] at hnew
    exact ((h.told.fail ho hpending hattempts).dead _ hnew).2

/-- **Webhook events.** Over any run: a provider key of a generation of a connection has one
event, and an event one row of the outbox; a webhook that comes again is answered with its
event, unless its connection refuses it; the row tells the dispatches, of which at most one
succeeded, with its job, if the event has one, and its usage; one that fails raises the
attempts and does no more, and the tenth is the last; and a row that is done stays so. -/
theorem webhook_events_once (month : ℤ → String) (ops : List Op) :
    let s := Machine.run (step month) System.init ops
    (∀ e ∈ s.db.webhook_events.table.rows, ∀ e' ∈ s.db.webhook_events.table.rows,
      e.provider_identity ≠ none → e.provider_identity = e'.provider_identity → e = e')
    ∧ (∀ e ∈ s.db.webhook_events.table.rows, ∃! o, o ∈ s.db.webhook_outbox.rows ∧ o.key = e.key)
    ∧ (∀ now position drawn claims parsed expected expected_revision,
      match s.db.accepting_connection claims parsed expected expected_revision with
      | .error err => s.db.accept_checked now position drawn claims parsed expected
          expected_revision = .error err
      | .ok c => ∀ e ∈ s.db.webhook_events.table.rows, e.Redelivered claims parsed c →
          s.db.accept_checked now position drawn claims parsed expected expected_revision
            = .ok (⟨e.id, true⟩, s.db))
    ∧ (∀ o ∈ s.db.webhook_outbox.rows,
      let completed := if o.status = .dispatched then 1 else 0
      s.dispatches.count ⟨o.key, true⟩ = completed
      ∧ s.dispatches.count ⟨o.key, false⟩ = o.attempts
      ∧ (o.status = .dead_letter ↔ s.dispatches.count ⟨o.key, false⟩ = 10)
      ∧ (s.db.scheduled o.key).length = (if s.db.syncs o.key then completed else 0)
      ∧ ((s.db.usage_events.find (usage_key o.key)).isSome ↔ o.status = .dispatched))
    ∧ (∀ key, s.db.usage_monthly_rollups.read key Rollup.quantity
      = s.db.usage_events.sum (UsageEvent.rolled month key))
    ∧ (∀ worker r held now id sink stored err, s.runs.find worker = some r →
      r.held = some held →
      s.db.dispatch month now id held.event.toEvent sink stored = .error err →
      let db' := (step month s (.settle worker now id sink stored true)).db
      db' = { s.db with webhook_outbox := db'.webhook_outbox }
      ∧ ∃ o o', Rewrites s.db db' held.event.key o o' ∧ o'.attempts = o.attempts + 1
        ∧ (o'.status = .dead_letter ↔ o'.attempts = 10))
    ∧ ∀ o ∈ s.db.webhook_outbox.rows, o.status ≠ .pending → ∀ ops',
      let s' := Machine.run (step month) s ops'
      o ∈ s'.db.webhook_outbox.rows
      ∧ ∀ b, s'.dispatches.count ⟨o.key, b⟩ = s.dispatches.count ⟨o.key, b⟩ := by
  intro s
  have hs : s.Sound month := run_sound month ops
  have hrow : ∀ o ∈ s.db.webhook_outbox.rows, s.db.webhook_outbox.find o.key = some o :=
    fun o ho => Table.find_eq_some.mpr ⟨ho, rfl⟩
  refine ⟨s.db.webhook_events.identity, fun e he => ?_,
    fun now position drawn claims parsed expected expected_revision => ?_, fun o ho => ?_,
    hs.told.rollups, fun worker r held now id sink stored err hr hheld herr =>
      failed_dispatch hs hr hheld herr,
    fun o ho hdone ops' => ?_⟩
  · have hpaired := hs.told.paired e.key
    rw [Table.find_eq_some.mpr ⟨he, rfl⟩, Option.isSome_some, eq_comm, Option.isSome_iff_exists]
      at hpaired
    obtain ⟨o, ho⟩ := hpaired
    refine ⟨o, Table.find_eq_some.mp ho, fun o' ho' => ?_⟩
    have hsame := Table.find_eq_some.mpr ho'
    rw [ho, Option.some_inj] at hsame
    exact hsame.symm
  · split
    next err herr => rw [Database.accept_checked, herr]; rfl
    next c hc => exact fun e he hagain => redelivery hs he hc hagain
  · have hdispatched : s.db.dispatched o.key = decide (o.status = .dispatched) := by
      rw [Database.dispatched, hrow o ho, Option.any_some]
    have hattempts : s.db.attempts o.key = o.attempts := by
      rw [Database.attempts, hrow o ho, Option.elim_some]
    refine ⟨?_, ?_, ?_, ?_, ?_⟩
    · rw [hs.told.successes, hdispatched]
      simp only [decide_eq_true_eq]
    · rw [hs.told.failures, hattempts]
    · rw [hs.told.failures, hattempts]
      exact (hs.told.dead o ho).2
    · rw [hs.told.jobs, hdispatched]
      by_cases hsyncs : s.db.syncs o.key = true
      · simp [hsyncs]
      · simp [hsyncs]
    · rw [hs.told.usage, hdispatched, decide_eq_true_eq]
  · exact run_done hdone (fun b => s.dispatches.count (⟨o.key, b⟩ : Dispatch)) ops' hs
      ⟨ho, fun b => rfl⟩

/-! ## A delivery that is refused -/

namespace Sample

def claims : WebhookClaims := ⟨"p", "telegram", "c"⟩

def parsed : ParsedWebhook := ⟨"k", "messages.list", .object [], 2⟩

def connection : Connection :=
  ⟨"c", "p", "telegram", .ApiKey, .Active, "s", .Unknown, "brand", .Brand⟩

def drawn : List Uuid := [⟨"00000000000000000000000000000000", by decide, by decide⟩]

/-- A webhook is accepted, and its connection is disconnected. -/
def disconnected : List Op :=
  [.connect connection, .accept 0 1 drawn claims parsed none none,
    .update_connection "c" none none { connection with status := .Disconnected }]

/-- The webhook comes again under the same generation, and there is no answer. -/
theorem disconnected_redelivery_refused :
    let s := Machine.run (step (fun _ => "1970-01")) System.init disconnected
    (∃ e ∈ s.db.webhook_events.table.rows, ∃ c ∈ s.db.connections.rows,
      e.Redelivered claims parsed c)
    ∧ (s.db.accept_checked 1 2 drawn claims parsed none none).map Prod.fst
      = .error .NotFound := by
  intro s
  refine ⟨⟨_, List.mem_singleton.mpr rfl, _, List.mem_singleton.mpr rfl, ?_⟩, ?_⟩
  · exact ⟨rfl, rfl, rfl, rfl, by decide, rfl⟩
  · rfl

end Sample

end Appcall.Events
