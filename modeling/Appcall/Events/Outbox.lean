/-
The rows of the outbox and their locks.

Every event has one row of the outbox, and the row tells what was dispatched: its
attempts are the failures, its status says whether there was a success, and a job and a
usage event are there if there was. A run that has taken a row holds it alone, so what it
read of the row is still so when it settles it; a row that is not pending is not taken.
-/
import Appcall.Events.System

set_option autoImplicit false

namespace Appcall.Events

open Appcall.Oauth (Connection)

variable {month : ℤ → String} {s : System} {db db' : Database}

/-! ## Transactions -/

/-- The event that an acceptance stores. -/
structure WebhookEvent.New (db : Database) (claims : WebhookClaims) (parsed : ParsedWebhook)
    (c : ConnectionRow) (now position : ℤ) (e : WebhookEvent) : Prop where
  project : e.project_id = claims.project_id
  connector : e.connector = claims.connector
  connection : e.connection_id = claims.connection_id
  account : e.external_account_id = c.connection.external_account_id
  generation : e.connection_generation = c.connection_generation
  key : e.provider_event_key
    = if parsed.idempotency_key = "" then none else some parsed.idempotency_key
  created_at : e.created_at = now
  position : e.stream_position = position
  id : ∃ u : Uuid, e.id = "wh_" ++ u.simple
  operation : e.operation = parsed.operation

variable {now : ℤ} {claims : WebhookClaims} {parsed : ParsedWebhook} {expected : Option Connection}
  {expected_revision : Option ℕ} {dispatches : List Dispatch} {e : WebhookEvent}
  {events : WebhookEvents} {key : String × String} {outbox : Table Outbox.key} {o : Outbox}

theorem insert_event_eq_ok {position : ℤ} {drawn : List Uuid} {c : ConnectionRow} {r : IngestResult}
    (h : db.insert_event now position drawn claims parsed c
      (if parsed.idempotency_key = "" then none else some parsed.idempotency_key)
      = .ok (r, db')) :
    ∃ e : WebhookEvent, e.New db claims parsed c now position ∧ r = ⟨e.id, false⟩
      ∧ ∃ events outbox, db.webhook_events.insert e = some events
        ∧ db.webhook_outbox.insert ⟨e.project_id, e.id, none, now, 0, .pending, "", none,
          .inl ⟨rfl, rfl, rfl⟩⟩ = some outbox
        ∧ db' = { db with webhook_events := events, webhook_outbox := outbox } := by
  obtain ⟨id, hid, h⟩ := bind_eq_ok h
  rw [Database.fresh_public_id] at hid
  cases hfresh : (drawn.take 8).find? (fun u =>
      (db.webhook_events.table.find (claims.project_id, "wh_" ++ u.simple)).isNone) with
  | none =>
    rw [hfresh] at hid
    cases hid
  | some u =>
    rw [hfresh] at hid
    cases hid
    have hnone := List.find?_some hfresh
    rw [Option.isNone_iff_eq_none] at hnone
    dsimp only at h
    split at h
    next prior hprior => exact absurd (hnone.symm.trans hprior) (by rintro ⟨⟩)
    next =>
      split at h
      next events outbox hevents houtbox =>
        cases h
        exact ⟨_, ⟨rfl, rfl, rfl, rfl, rfl, rfl, rfl, rfl, ⟨u, rfl⟩, rfl⟩, rfl, events, outbox,
          hevents, houtbox, rfl⟩
      next => cases h

theorem accept_checked_eq_ok {position : ℤ} {drawn : List Uuid} {r : IngestResult}
    (h : db.accept_checked now position drawn claims parsed expected expected_revision
      = .ok (r, db')) :
    ∃ c, db.accepting_connection claims parsed expected expected_revision = .ok c
      ∧ (db' = db ∨ ∃ e : WebhookEvent, e.New db claims parsed c now position
        ∧ r = ⟨e.id, false⟩
        ∧ ∃ events outbox, db.webhook_events.insert e = some events
          ∧ db.webhook_outbox.insert ⟨e.project_id, e.id, none, now, 0, .pending, "", none,
            .inl ⟨rfl, rfl, rfl⟩⟩ = some outbox
          ∧ db' = { db with webhook_events := events, webhook_outbox := outbox }) := by
  obtain ⟨c, hc, h⟩ := bind_eq_ok h
  refine ⟨c, hc, ?_⟩
  dsimp only at h
  split at h
  next hempty => exact .inr (insert_event_eq_ok (by rw [if_pos hempty]; exact h))
  next hkey =>
    split at h
    next prior hprior =>
      split at h
      · cases h
      · cases h
        exact .inl rfl
    next =>
      split at h
      · cases h
      · exact .inr (insert_event_eq_ok (by rw [if_neg hkey]; exact h))

theorem accepting_connection_eq_ok {c : ConnectionRow}
    (h : db.accepting_connection claims parsed expected expected_revision = .ok c) :
    db.connections.find claims.connection_id = some c
      ∧ c.connection.project_id = claims.project_id
      ∧ c.connection.connector = claims.connector ∧ c.connection.status = .Active := by
  rw [Database.accepting_connection] at h
  split at h
  · cases h
  · obtain ⟨-, -, h⟩ := bind_eq_ok h
    split at h
    · cases h
    next snapshot hfind =>
      dsimp only at h
      split at h
      · cases h
      next hsame =>
        rw [not_or, not_or, not_not, not_not, not_not] at hsame
        split at h
        · cases h
        · split at h
          · cases h
          · cases h
            exact ⟨hfind, hsame⟩

theorem dispatch_eq_ok {id : Uuid} {e : Event} {sink : Except Error Unit} {stored : Bool}
    (h : db.dispatch month now id e sink stored = .ok db') :
    ∃ jobs : List SyncJob, db' = ({ db with jobs := db.jobs ++ jobs } : Database).complete month
        now id e
      ∧ jobs.length = (if classify_dispatch e.connector e.operation = .Sync then 1 else 0)
      ∧ ∀ j ∈ jobs, (j.project_id, j.event_id) = (e.project_id, e.id) := by
  obtain ⟨db₁, hjob, h⟩ := bind_eq_ok h
  split at h
  next =>
    cases h
    obtain ⟨job, hevent, hjob⟩ := bind_eq_ok hjob
    rcases event_job_eq_ok hevent with ⟨hkind, rfl⟩ | ⟨hkind, j, rfl, hid, hproject, -⟩
    · cases hjob
      refine ⟨[], by rw [List.append_nil], ?_, fun j hj => by cases hj⟩
      rw [hkind, if_neg (by decide)]
      rfl
    · obtain ⟨-, -, hjob⟩ := bind_eq_ok hjob
      obtain ⟨-, -, hjob⟩ := bind_eq_ok hjob
      cases hjob
      refine ⟨[j], rfl, ?_, fun j' hj' => ?_⟩
      · rw [if_pos hkind]
        rfl
      · rw [List.mem_singleton.mp hj', hid, hproject]
  next => cases h

/-! ## What the rows tell -/

def Database.scheduled (db : Database) (key : String × String) : List SyncJob :=
  db.jobs.filter (fun j => decide ((j.project_id, j.event_id) = key))

def usage_key (key : String × String) : String × String :=
  (key.1, "usage_webhook_" ++ key.2)

/-- The attempts that the row of an event has. -/
def Database.attempts (db : Database) (key : String × String) : ℕ :=
  (db.webhook_outbox.find key).elim 0 Outbox.attempts

def Database.dispatched (db : Database) (key : String × String) : Bool :=
  (db.webhook_outbox.find key).any (fun o => decide (o.status = .dispatched))

/-- The event is one that the worker syncs. -/
def Database.syncs (db : Database) (key : String × String) : Bool :=
  (db.webhook_events.table.find key).any
    (fun e => decide (classify_dispatch e.connector e.operation = .Sync))

def UsageEvent.rolled (month : ℤ → String) (key : String × String × String × String)
    (u : UsageEvent) : ℤ :=
  if (u.project_id, u.external_account_id, month u.occurred_at, u.kind) = key then u.quantity
  else 0

structure Told (month : ℤ → String) (db : Database) (dispatches : List Dispatch) : Prop where
  paired : ∀ key, (db.webhook_events.table.find key).isSome = (db.webhook_outbox.find key).isSome
  failures : ∀ key, dispatches.count ⟨key, false⟩ = db.attempts key
  successes : ∀ key, dispatches.count ⟨key, true⟩ = if db.dispatched key then 1 else 0
  jobs : ∀ key, (db.scheduled key).length = if db.dispatched key ∧ db.syncs key then 1 else 0
  usage : ∀ key, (db.usage_events.find (usage_key key)).isSome = db.dispatched key
  dead : ∀ o ∈ db.webhook_outbox.rows,
    o.attempts ≤ 10 ∧ (o.status = .dead_letter ↔ o.attempts = 10)
  rollups : ∀ key, db.usage_monthly_rollups.read key Rollup.quantity
    = db.usage_events.sum (UsageEvent.rolled month key)

theorem told_init (month : ℤ → String) : Told month Database.empty [] where
  paired _ := rfl
  failures _ := rfl
  successes _ := rfl
  jobs _ := rfl
  usage _ := rfl
  dead o ho := by cases ho
  rollups _ := rfl

theorem Told.of_eq (h : Told month db dispatches)
    (hdb : db' = { db with connections := db'.connections }) : Told month db' dispatches := by
  rw [hdb]
  exact ⟨h.paired, h.failures, h.successes, h.jobs, h.usage, h.dead, h.rollups⟩

theorem Told.insert (h : Told month db dispatches)
    (hevents : db.webhook_events.insert e = some events)
    (houtbox : db.webhook_outbox.insert o = some outbox) (hkey : o.key = e.key)
    (hattempts : o.attempts = 0) (hstatus : o.status = .pending) :
    Told month { db with webhook_events := events, webhook_outbox := outbox } dispatches := by
  have hfind := find_insert_events hevents
  have hnone := (insert_events_eq_some hevents).1
  have hout : db.webhook_outbox.find e.key = none := by
    have hpaired := h.paired e.key
    rw [hnone] at hpaired
    exact Option.isNone_iff_eq_none.mp (by rw [← Option.not_isSome, ← hpaired]; rfl)
  have hattempts' : ∀ key, ({ db with webhook_events := events, webhook_outbox := outbox } :
      Database).attempts key = db.attempts key := by
    intro key
    rw [Database.attempts, Database.attempts, Table.find_insert houtbox]
    split
    next heq => rw [heq, hkey, hout, Option.elim_some, Option.elim_none, hattempts]
    next => rfl
  have hdispatched : ∀ key, ({ db with webhook_events := events, webhook_outbox := outbox } :
      Database).dispatched key = db.dispatched key := by
    intro key
    rw [Database.dispatched, Database.dispatched, Table.find_insert houtbox]
    split
    next heq => rw [heq, hkey, hout, Option.any_some, Option.any_none, hstatus]; rfl
    next => rfl
  refine ⟨fun key => ?_, fun key => ?_, fun key => ?_, fun key => ?_, fun key => ?_,
    fun o' ho' => ?_, h.rollups⟩
  · rw [hfind, Table.find_insert houtbox, hkey]
    split
    · rfl
    · exact h.paired key
  · rw [h.failures, hattempts']
  · rw [h.successes, hdispatched]
  · rw [hdispatched]
    refine (h.jobs key).trans ?_
    by_cases heq : key = e.key
    · have hfalse : db.dispatched key = false := by
        rw [heq, Database.dispatched, hout, Option.any_none]
      rw [hfalse]
      simp
    · rw [Database.syncs, Database.syncs, hfind, if_neg heq]
  · rw [hdispatched]
    exact h.usage key
  · rw [(Table.insert_eq_some houtbox).2, List.mem_append, List.mem_singleton] at ho'
    rcases ho' with ho' | rfl
    · exact h.dead o' ho'
    · rw [hattempts, hstatus]
      decide

theorem usage_key_injective : Function.Injective usage_key := by
  intro key key' heq
  obtain ⟨hproject, hid⟩ := Prod.mk.inj heq
  have hid' := congrArg String.toList hid
  rw [String.toList_append, String.toList_append, List.append_cancel_left_eq,
    String.toList_inj] at hid'
  exact Prod.ext hproject hid'

theorem meter_eq (month : ℤ → String) (db : Database) (id : Uuid) (e : Event)
    (h : db.usage_events.find (usage_key (e.project_id, e.id)) = none) :
    ∃ (u : UsageEvent) (usage : Table UsageEvent.key) (r : Rollup),
      u.key = usage_key (e.project_id, e.id)
      ∧ r.key = (u.project_id, u.external_account_id, month u.occurred_at, u.kind)
      ∧ r.quantity = u.quantity ∧ db.usage_events.insert u = some usage
      ∧ db.meter month id e = { db with
        usage_events := usage
        usage_monthly_rollups := db.usage_monthly_rollups.upsert r
          (fun old => { old with quantity := old.quantity + r.quantity }) (fun _ => rfl) } := by
  rw [Database.meter]
  dsimp only
  split
  next hnone =>
    obtain ⟨u, hu⟩ := Table.insert_eq_none hnone
    exact absurd (h.symm.trans hu) (by rintro ⟨⟩)
  next usage hinsert => exact ⟨_, usage, _, rfl, rfl, rfl, hinsert, rfl⟩

/-- One row of the outbox is rewritten. -/
structure Rewrites (db db' : Database) (k : String × String) (o o' : Outbox) : Prop where
  old : db.webhook_outbox.find k = some o
  new : ∀ key, db'.webhook_outbox.find key
    = if key = k then some o' else db.webhook_outbox.find key

section Rewrites

variable {k : String × String} {o' : Outbox}

theorem Rewrites.of_modify {f : Outbox → Outbox} (hf : ∀ o, (f o).key = o.key)
    (h : db.webhook_outbox.find k = some o)
    (hdb : db'.webhook_outbox = db.webhook_outbox.modify k f hf) :
    Rewrites db db' k o (f o) where
  old := h
  new key := by
    rw [hdb, Table.find_modify]
    split
    · rw [h, Option.map_some]
    · rfl

theorem Rewrites.isSome (h : Rewrites db db' k o o') (key : String × String) :
    (db'.webhook_outbox.find key).isSome = (db.webhook_outbox.find key).isSome := by
  rw [h.new]
  split
  next heq => rw [heq, h.old]; rfl
  next => rfl

theorem Rewrites.attempts (h : Rewrites db db' k o o') (key : String × String) :
    db'.attempts key = if key = k then o'.attempts else db.attempts key := by
  rw [Database.attempts, h.new]
  split
  · rfl
  · rfl

theorem Rewrites.dispatched (h : Rewrites db db' k o o') (key : String × String) :
    db'.dispatched key = if key = k then decide (o'.status = .dispatched)
      else db.dispatched key := by
  rw [Database.dispatched, h.new]
  split
  · rfl
  · rfl

theorem Rewrites.mem (h : Rewrites db db' k o o') {o₁ : Outbox}
    (ho₁ : o₁ ∈ db'.webhook_outbox.rows) : o₁ = o' ∨ o₁ ∈ db.webhook_outbox.rows := by
  have hfind : db'.webhook_outbox.find o₁.key = some o₁ := Table.find_eq_some.mpr ⟨ho₁, rfl⟩
  rw [h.new] at hfind
  split at hfind
  · exact .inl (Option.some.inj hfind).symm
  · exact .inr (Table.find_eq_some.mp hfind).1

end Rewrites

theorem count_same (l : List Dispatch) (d : Dispatch) : (l ++ [d]).count d = l.count d + 1 := by
  rw [List.count_append, List.count_singleton_self]

theorem count_other (l : List Dispatch) {d d' : Dispatch} (hne : d' ≠ d) :
    (l ++ [d]).count d' = l.count d' := by
  have hnot : d' ∉ [d] := fun hmem => hne (List.mem_singleton.mp hmem)
  rw [List.count_append, List.count_eq_zero_of_not_mem hnot, Nat.add_zero]

theorem dispatch_ne {key' : String × String} {b : Bool} (hne : key ≠ key') :
    (⟨key, b⟩ : Dispatch) ≠ ⟨key', b⟩ :=
  fun heq => hne (congrArg Dispatch.event heq)

theorem Told.pending (h : Told month db dispatches) (ho : db.webhook_outbox.find key = some o)
    (hpending : o.status = .pending) : db.dispatched key = false ∧ o.attempts < 10 := by
  obtain ⟨hle, hdead⟩ := h.dead o (Table.find_eq_some.mp ho).1
  refine ⟨?_, lt_of_le_of_ne hle fun hten => ?_⟩
  · rw [Database.dispatched, ho, Option.any_some, hpending]
    rfl
  · have hstatus := hdead.mpr hten
    rw [hpending] at hstatus
    cases hstatus

theorem complete_connections (month : ℤ → String) (db : Database) (now : ℤ) (id : Uuid)
    (e : Event) : (db.complete month now id e).connections = db.connections := by
  rw [Database.complete, Database.meter]
  dsimp only
  split <;> rfl

theorem complete_events (month : ℤ → String) (db : Database) (now : ℤ) (id : Uuid)
    (e : Event) : (db.complete month now id e).webhook_events = db.webhook_events := by
  rw [Database.complete, Database.meter]
  dsimp only
  split <;> rfl

theorem complete_outbox (month : ℤ → String) (db : Database) (now : ℤ) (id : Uuid)
    (e : Event) : (db.complete month now id e).webhook_outbox
      = db.webhook_outbox.modify (e.project_id, e.id) (Outbox.complete now) (complete_key now) := by
  rw [Database.complete, Database.meter]
  dsimp only
  split <;> rfl

/-- A pending row is completed, with its jobs and its dispatch. -/
theorem Told.complete (h : Told month db dispatches) (now : ℤ) (id : Uuid) {jobs : List SyncJob}
    (he : db.webhook_events.table.find e.key = some e) (ho : db.webhook_outbox.find e.key = some o)
    (hpending : o.status = .pending)
    (hlength : jobs.length = if classify_dispatch e.connector e.operation = .Sync then 1 else 0)
    (hjobs : ∀ j ∈ jobs, (j.project_id, j.event_id) = e.key) :
    Told month (({ db with jobs := db.jobs ++ jobs } : Database).complete month now id e.toEvent)
      (dispatches ++ [⟨e.key, true⟩]) := by
  obtain ⟨hopen, hten⟩ := h.pending ho hpending
  have hnew : db.usage_events.find (usage_key e.key) = none := by
    have husage := h.usage e.key
    rw [hopen] at husage
    exact Option.isNone_iff_eq_none.mp (by rw [← Option.not_isSome, husage]; rfl)
  obtain ⟨u, usage, r, hu, hr, hquantity, hinsert, hmeter⟩ :=
    meter_eq month { db with jobs := db.jobs ++ jobs } id e.toEvent hnew
  rw [Database.complete, hmeter]
  dsimp only at hinsert ⊢
  set db₁ : Database := Database.mk _ _ _ _ _ _ with hdb₁
  have hrewrites : Rewrites db db₁ e.key o (o.complete now) := .of_modify (complete_key now) ho rfl
  refine ⟨fun key => ?_, fun key => ?_, fun key => ?_, fun key => ?_, fun key => ?_,
    fun o' ho' => ?_, fun key => ?_⟩
  · exact (h.paired key).trans (hrewrites.isSome key).symm
  · rw [count_other _ (by simp), h.failures, hrewrites.attempts]
    split
    next heq => rw [heq, Database.attempts, ho]; rfl
    next => rfl
  · rw [hrewrites.dispatched]
    by_cases heq : key = e.key
    · rw [heq, count_same, h.successes, hopen]
      simp [Outbox.complete]
    · rw [count_other _ (dispatch_ne heq), h.successes, if_neg heq]
  · have hscheduled : db₁.scheduled key = db.scheduled key
        ++ jobs.filter (fun j => decide ((j.project_id, j.event_id) = key)) :=
      List.filter_append ..
    have hsyncs : db₁.syncs key = db.syncs key := rfl
    rw [hscheduled, List.length_append, h.jobs, hrewrites.dispatched, hsyncs]
    by_cases heq : key = e.key
    · subst heq
      have hall : jobs.filter (fun j => decide ((j.project_id, j.event_id) = e.key)) = jobs :=
        List.filter_eq_self.mpr fun j hj => decide_eq_true (hjobs j hj)
      rw [hall, hlength, hopen, Database.syncs, he]
      simp [Outbox.complete]
    · have hnone : jobs.filter (fun j => decide ((j.project_id, j.event_id) = key)) = [] := by
        refine List.filter_eq_nil_iff.mpr fun j hj => ?_
        rw [decide_eq_true_eq, hjobs j hj]
        exact Ne.symm heq
      rw [hnone, if_neg heq, List.length_nil, Nat.add_zero]
  · have hu' : u.key = usage_key e.key := hu
    rw [hrewrites.dispatched]
    refine (congrArg Option.isSome (Table.find_insert hinsert _)).trans ?_
    rw [hu']
    by_cases heq : key = e.key
    · rw [if_pos heq, if_pos (congrArg usage_key heq)]
      rfl
    · rw [if_neg heq, if_neg (fun hsame => heq (usage_key_injective hsame))]
      exact h.usage key
  · rcases hrewrites.mem ho' with rfl | ho'
    · have hsame : (o.complete now).attempts = o.attempts := rfl
      refine ⟨hten.le, ⟨?_, fun hattempts => ?_⟩⟩
      · rintro ⟨⟩
      · omega
    · exact h.dead o' ho'
  · refine Eq.trans ?_ (Table.sum_insert hinsert _).symm
    refine (Table.read_upsert (d := r.quantity) db.usage_monthly_rollups r _ _ rfl
      (fun _ => rfl) key).trans ?_
    rw [h.rollups, hr, hquantity, UsageEvent.rolled]
    simp only [eq_comm]

theorem fail_attempts {attempts : ℕ} {code : String} (h : attempts < 10) :
    (o.fail now attempts code).attempts = attempts + 1 := by
  have hmin : min (attempts + 1) 10 = attempts + 1 := by omega
  rw [Outbox.fail]
  split
  · exact hmin
  · exact hmin

theorem Told.fail (h : Told month db dispatches) {held : Held} {err : Error}
    (ho : db.webhook_outbox.find held.event.key = some o) (hpending : o.status = .pending)
    (hattempts : o.attempts = held.attempts) :
    Told month (db.fail now held err) (dispatches ++ [⟨held.event.key, false⟩]) := by
  obtain ⟨hopen, hten⟩ := h.pending ho hpending
  set o' := o.fail now held.attempts (dispatch_error_code err) with ho'
  have hrewrites : Rewrites db (db.fail now held err) held.event.key o o' :=
    .of_modify (fail_key now held.attempts _) ho rfl
  have hfailed : o'.attempts = held.attempts + 1 ∧ o'.status ≠ .dispatched
      ∧ (o'.status = .dead_letter ↔ o'.attempts = 10) := by
    refine ⟨fail_attempts (hattempts ▸ hten), ?_⟩
    rw [ho', Outbox.fail]
    split
    next hle =>
      refine ⟨by rintro ⟨⟩, fun _ => ?_, fun _ => rfl⟩
      dsimp only
      omega
    next hlt =>
      refine ⟨by rintro ⟨⟩, by rintro ⟨⟩, fun heq => ?_⟩
      dsimp only at heq
      omega
  have hdispatched : ∀ key, (db.fail now held err).dispatched key = db.dispatched key := by
    intro key
    rw [hrewrites.dispatched]
    split
    next heq => rw [heq, hopen, decide_eq_false hfailed.2.1]
    next => rfl
  refine ⟨fun key => ?_, fun key => ?_, fun key => ?_, fun key => ?_, fun key => ?_,
    fun o₁ ho₁ => ?_, h.rollups⟩
  · exact (h.paired key).trans (hrewrites.isSome key).symm
  · rw [hrewrites.attempts]
    by_cases heq : key = held.event.key
    · rw [heq, count_same, h.failures, if_pos rfl, Database.attempts, ho, Option.elim_some,
        hattempts, hfailed.1]
    · rw [count_other _ (dispatch_ne heq), h.failures, if_neg heq]
  · rw [count_other _ (by simp), h.successes, hdispatched]
  · rw [hdispatched]
    exact h.jobs key
  · rw [hdispatched]
    exact h.usage key
  · rcases hrewrites.mem ho₁ with rfl | ho₁
    · refine ⟨?_, hfailed.2.2⟩
      rw [hfailed.1]
      omega
    · exact h.dead o₁ ho₁

/-! ## Locks -/

/-- What a run has read of the row it has taken is still so. -/
def Held.Valid (db : Database) (h : Held) : Prop :=
  db.webhook_events.table.find h.event.key = some h.event
    ∧ ∃ o, db.webhook_outbox.find h.event.key = some o ∧ o.status = .pending
      ∧ o.attempts = h.attempts

/-- Every row that is taken is pending, and taken by one run. -/
structure Locked (db : Database) (runs : Table DispatchRun.worker) : Prop where
  valid : ∀ r ∈ runs.rows, ∀ h, r.held = some h → h.Valid db
  single : ∀ r ∈ runs.rows, ∀ r' ∈ runs.rows, ∀ h h', r.held = some h → r'.held = some h' →
    h.event.key = h'.event.key → r = r'

theorem Locked.mono {runs runs' : Table DispatchRun.worker} (h : Locked db runs)
    (hruns : ∀ r ∈ runs'.rows, r.held = none ∨ r ∈ runs.rows)
    (hdb : ∀ r ∈ runs'.rows, ∀ held, r.held = some held → held.Valid db → held.Valid db') :
    Locked db' runs' := by
  have hold : ∀ r ∈ runs'.rows, ∀ held, r.held = some held → r ∈ runs.rows := by
    intro r hr held hheld
    rcases hruns r hr with hnone | hmem
    · rw [hnone] at hheld
      cases hheld
    · exact hmem
  refine ⟨fun r hr held hheld => ?_, fun r hr r' hr' held held' hheld hheld' => ?_⟩
  · exact hdb r hr held hheld (h.valid r (hold r hr held hheld) held hheld)
  · exact h.single r (hold r hr held hheld) r' (hold r' hr' held' hheld') held held' hheld hheld'

theorem valid_insert (hevents : db.webhook_events.insert e = some events)
    (houtbox : db.webhook_outbox.insert o = some outbox) {h : Held} (hvalid : h.Valid db) :
    h.Valid { db with webhook_events := events, webhook_outbox := outbox } := by
  obtain ⟨he, o', ho', hrow⟩ := hvalid
  refine ⟨?_, o', ?_, hrow⟩
  · rw [find_insert_events hevents, if_neg, he]
    rintro heq
    rw [heq, (insert_events_eq_some hevents).1] at he
    cases he
  · rw [Table.find_insert houtbox, if_neg, ho']
    rintro heq
    rw [heq, (Table.insert_eq_some houtbox).1] at ho'
    cases ho'

theorem next_row_eq_some {h : Held} (hrow : s.next_row now = some h) :
    h.Valid s.db ∧ s.locked h.event.key = false := by
  rw [System.next_row] at hrow
  obtain ⟨o, hhead, hmap⟩ := Option.bind_eq_some_iff.mp hrow
  obtain ⟨e, he, rfl⟩ := Option.map_eq_some_iff.mp hmap
  obtain ⟨hmem, hdue⟩ := Table.mem_select (List.mem_of_mem_head? hhead)
  simp only [Bool.and_eq_true, decide_eq_true_eq, Bool.not_eq_true'] at hdue
  obtain ⟨⟨⟨hstatus, -, -⟩, -⟩, hlocked⟩ := hdue
  have hkey : e.key = o.key := (Table.find_eq_some.mp he).2
  have hfind : s.db.webhook_outbox.find o.key = some o := Table.find_eq_some.mpr ⟨hmem, rfl⟩
  refine ⟨⟨?_, o, ?_, hstatus, rfl⟩, ?_⟩
  · rw [hkey]
    exact he
  · rw [hkey]
    exact hfind
  · rw [hkey]
    exact hlocked

theorem Locked.take {worker : ℕ} {h : Held} (hs : Locked s.db s.runs) (hvalid : h.Valid s.db)
    (hfree : s.locked h.event.key = false) {f : DispatchRun → DispatchRun}
    (hf : ∀ r, (f r).worker = r.worker) (hheld : ∀ r, (f r).held = some h) :
    Locked s.db (s.runs.modify worker f hf) := by
  have hother : ∀ r ∈ s.runs.rows, ∀ h', r.held = some h' → h'.event.key ≠ h.event.key := by
    intro r hr h' hh' heq
    have hlocked : s.locked h.event.key = true := by
      refine List.any_eq_true.mpr ⟨r, hr, ?_⟩
      rw [hh', Option.any_some, decide_eq_true heq]
    rw [hfree] at hlocked
    cases hlocked
  refine ⟨fun r hr h' hh' => ?_, fun r hr r' hr' h₁ h₂ hh₁ hh₂ heq => ?_⟩
  · obtain ⟨r₀, hr₀, rfl⟩ := List.mem_map.mp hr
    split at hh'
    · rw [hheld, Option.some_inj] at hh'
      exact hh' ▸ hvalid
    · exact hs.valid r₀ hr₀ h' hh'
  · obtain ⟨r₀, hr₀, rfl⟩ := List.mem_map.mp hr
    obtain ⟨r₁, hr₁, rfl⟩ := List.mem_map.mp hr'
    -- the worker of a run is its key
    by_cases hw₀ : r₀.worker = worker <;> by_cases hw₁ : r₁.worker = worker
    · rw [List.inj_on_of_nodup_map s.runs.nodup hr₀ hr₁ (hw₀.trans hw₁.symm)]
    · rw [if_pos hw₀, hheld, Option.some_inj] at hh₁
      rw [if_neg hw₁] at hh₂
      exact (hother r₁ hr₁ h₂ hh₂ (hh₁ ▸ heq.symm)).elim
    · rw [if_neg hw₀] at hh₁
      rw [if_pos hw₁, hheld, Option.some_inj] at hh₂
      exact (hother r₀ hr₀ h₁ hh₁ (hh₂ ▸ heq)).elim
    · rw [if_neg hw₀] at hh₁ ⊢
      rw [if_neg hw₁] at hh₂ ⊢
      exact hs.single r₀ hr₀ r₁ hr₁ h₁ h₂ hh₁ hh₂ heq

theorem Locked.settled {worker : ℕ} {r : DispatchRun} {held : Held} (hs : Locked s.db s.runs)
    (hr : s.runs.find worker = some r) (hheld : r.held = some held) {o' : Outbox}
    (hrewrites : Rewrites s.db db' held.event.key o o')
    (hevents : db'.webhook_events = s.db.webhook_events) (d : Dispatch)
    (report : DispatchReport → DispatchReport) :
    Locked db' (s.settled worker db' d report).runs := by
  obtain ⟨hmem, hworker⟩ := Table.find_eq_some.mp hr
  have hrows : ∀ r' ∈ (s.settled worker db' d report).runs.rows, ∀ h', r'.held = some h' →
      r' ∈ s.runs.rows ∧ r'.worker ≠ worker := by
    intro r' hr' h' hh'
    obtain ⟨r₀, hr₀, rfl⟩ := List.mem_map.mp hr'
    by_cases hw : r₀.worker = worker
    · rw [if_pos hw] at hh'
      cases hh'
    · rw [if_neg hw]
      exact ⟨hr₀, hw⟩
  refine hs.mono (fun r' hr' => ?_) (fun r' hr' h' hh' hvalid => ?_)
  · cases hh' : r'.held with
    | none => exact .inl rfl
    | some h' => exact .inr (hrows r' hr' h' hh').1
  · obtain ⟨hmem', hne⟩ := hrows r' hr' h' hh'
    obtain ⟨he, o₁, ho₁, hrow⟩ := hvalid
    refine ⟨hevents ▸ he, o₁, ?_, hrow⟩
    rw [hrewrites.new, if_neg, ho₁]
    intro heq
    exact hne (hs.single r' hmem' r hmem h' held hh' hheld heq ▸ hworker)

end Appcall.Events
