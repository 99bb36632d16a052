/-
What the transactions of a sync write.

Apart from a page, every transaction is a sequence of few kinds of writes, each with its
guard: `Change` lists them, and one lemma for each transaction says that it is made of
them. What holds of all jobs is then proved for each kind of write once. A page is
written as a whole, by `Paged`.
-/
import Appcall.Sync.System
import Mathlib.Logic.Relation

set_option autoImplicit false

namespace Appcall.Sync

open Appcall.Oauth (Connection Row)
open Relation (ReflTransGen)

/-! ## Kinds of writes -/

/-- One write, of the database before it. `P` holds of the rows that become pending
by a request or a control, `T` of those that a worker takes. -/
inductive Change (clock : ℤ) (P : Database → JobRow → Prop) (T : JobRow → Prop) :
    Database → Database → Prop where
  | recorded {db : Database} (events : Table JobEvent.key) :
    Change clock P T db { db with sync_job_events := events }
  | scheduled {db db' : Database} {started : ℤ} {r : ScheduleRequest} {row : JobRow}
      (hinsert : db.insert_job started r = some (row, db')) (hP : P db row) :
    Change clock P T db db'
  | cancelled {db : Database} {j : JobRow} (hfind : db.sync_jobs.find j.id = some j)
      (hstale : db.stale j = true) : Change clock P T db (db.cancel_job clock j.id)
  | expired {db : Database} {j : JobRow} (attempts : ℕ)
      (hfind : db.sync_jobs.find j.id = some j) :
    Change clock P T db (db.update_job j.id (fun r => r.expire clock attempts) (fun _ => rfl))
  | taken {db : Database} {j : JobRow} (worker : String) (millis : ℕ) (attempts : JobRow → ℕ)
      (hfind : db.sync_jobs.find j.id = some j) (hclaimable : db.claimable clock j = true)
      (hT : T (j.take clock worker millis (attempts j))) :
    Change clock P T db (db.update_job j.id
      (fun r => r.take clock worker millis (attempts r)) (fun _ => rfl))
  | failed {db : Database} {j : Job} (now : ℤ) (millis : ℕ) (terminal : Bool)
      (hlock : db.lock clock j = .ok ()) :
    Change clock P T db (db.update_job j.id (fun r => r.fail now millis terminal) (fun _ => rfl))
  | controlled {db : Database} {r : JobRow} {c : Row} (action : OperatorAction)
      (project_id account_id : String)
      (hfind : db.sync_jobs.find r.id = some r)
      (hconnection : db.controlled_connection project_id account_id r = some c)
      (hproject : r.project_id = project_id)
      (hallowed : action.allowed r clock = true)
      (hP : action.restarts = true → P db (action.apply r clock c.connection_generation)) :
    Change clock P T db (db.apply_control clock action r c.connection_generation)

theorem changes_keep {clock : ℤ} {P : Database → JobRow → Prop} {T : JobRow → Prop}
    {I : Database → Prop}
    (hstep : ∀ db db', Change clock P T db db' → I db → I db') {db db' : Database}
    (h : ReflTransGen (Change clock P T) db db') (h0 : I db) : I db' := by
  induction h with
  | refl => exact h0
  | tail _ hlast ih => exact hstep _ _ hlast ih

section Transactions

variable {clock : ℤ} {P : Database → JobRow → Prop} {T : JobRow → Prop} {db db' : Database}

variable {job_id : String} {r : ScheduleRequest} {q : ClaimRequest} {j : Option Job} {u : Unit}
  {project_id account_id : String} {action : OperatorAction}

theorem append_event_changes {kind : EventKind} {detail : Detail}
    (h : db.append_event clock job_id kind detail = .ok db') : Change clock P T db db' := by
  obtain ⟨events, -, rfl⟩ := append_event_writes h
  exact .recorded events

theorem find_of_first {p : JobRow → Bool} {le : JobRow → JobRow → Prop} [DecidableRel le]
    {j : JobRow} (h : (db.sync_jobs.select p le 1).head? = some j) :
    db.sync_jobs.find j.id = some j ∧ p j = true := by
  have hmem : j ∈ db.sync_jobs.select p le 1 := List.mem_of_head? h
  exact ⟨Table.find_of_mem_select hmem, (Table.mem_select hmem).2⟩

theorem insert_job_inv {started : ℤ} {row : JobRow}
    (h : db.insert_job started r = some (row, db')) :
    ∃ c, (db.connections.find r.connection_id).filter
        (fun c => decide (c.connection.project_id = r.project_id)) = some c
      ∧ row = r.row started c.connection_generation
      ∧ ∃ jobs, db.sync_jobs.insert row = some jobs ∧ db' = { db with sync_jobs := jobs } := by
  rw [Database.insert_job] at h
  split at h
  next => cases h
  next c hc =>
    split at h
    next => cases h
    next =>
      obtain ⟨jobs, hinsert, hpair⟩ := Option.map_eq_some_iff.mp h
      cases hpair
      exact ⟨c, hc, rfl, jobs, hinsert, rfl⟩

theorem enqueue_changes {started : ℤ} {j : Job} (h : db.enqueue clock started r = .ok (j, db'))
    (hP : ∀ row db', r.validate = .ok () → db.insert_job started r = some (row, db') →
      P db row) : ReflTransGen (Change clock P T) db db' := by
  rw [Database.enqueue] at h
  obtain ⟨⟨⟩, hvalid, h⟩ := bind_eq_ok h
  split at h
  next row db₁ hinsert =>
    obtain ⟨db₂, hevent, h⟩ := bind_eq_ok h
    cases h
    exact .tail (.single (.scheduled hinsert (hP row db₁ hvalid hinsert)))
      (append_event_changes hevent)
  next =>
    split at h
    next => cases h
    next =>
      split at h
      next => cases h
      next =>
        cases h
        exact .refl

theorem cancel_stale_jobs_changes {locked : ℕ → JobRow → Bool} {n : ℕ}
    (h : Database.cancel_stale_jobs clock locked n db = .ok db') :
    ReflTransGen (Change clock P T) db db' := by
  induction n generalizing db with
  | zero =>
    cases h
    exact .refl
  | succ n ih =>
    rw [Database.cancel_stale_jobs] at h
    split at h
    next =>
      cases h
      exact .refl
    next j hfirst =>
      obtain ⟨hfind, hstale⟩ := find_of_first hfirst
      rw [Bool.and_eq_true] at hstale
      obtain ⟨db₁, hevent, h⟩ := bind_eq_ok h
      exact .head (.cancelled hfind hstale.1) (.head (append_event_changes hevent) (ih h))

theorem candidate_inv {locked : JobRow → Bool} {j : JobRow}
    (h : db.candidate clock locked = some j) :
    db.sync_jobs.find j.id = some j ∧ db.claimable clock j = true := by
  obtain ⟨hfind, hp⟩ := find_of_first h
  rw [Bool.and_eq_true] at hp
  exact ⟨hfind, hp.1⟩

theorem claim_loop_changes {max_attempts n : ℕ}
    (h : Database.claim_loop clock q max_attempts n db = .ok (j, db'))
    (hT : ∀ row : JobRow, j = some row.job → T row) : ReflTransGen (Change clock P T) db db' := by
  induction n generalizing db with
  | zero =>
    cases h
    exact .refl
  | succ n ih =>
    rw [Database.claim_loop] at h
    split at h
    next =>
      cases h
      exact .refl
    next previous hcandidate =>
      obtain ⟨hfind, hclaimable⟩ := candidate_inv hcandidate
      split at h
      next =>
        dsimp only at h
        split at h
        next =>
          -- abandoned once too often: the loop goes on without it
          obtain ⟨db₁, hexpired, h⟩ := bind_eq_ok h
          obtain ⟨db₂, hfailed, h⟩ := bind_eq_ok h
          exact .head (.expired _ hfind) (.head (append_event_changes hexpired)
            (.head (append_event_changes hfailed) (ih h)))
        next =>
          obtain ⟨db₁, hexpired, h⟩ := bind_eq_ok h
          obtain ⟨db₂, hclaimed, h⟩ := bind_eq_ok h
          cases h
          exact .head (.taken q.worker q.millis (fun _ => _) hfind hclaimable (hT _ rfl))
            (.head (append_event_changes hexpired) (.single (append_event_changes hclaimed)))
      next =>
        obtain ⟨db₁, hclaimed, h⟩ := bind_eq_ok h
        cases h
        exact .head (.taken q.worker q.millis JobRow.attempts hfind hclaimable (hT _ rfl))
          (.single (append_event_changes hclaimed))

theorem claim_with_policy_inv (h : db.claim_with_policy clock q = .ok (j, db')) :
    ∃ max_attempts db₁,
      Database.cancel_stale_jobs clock q.locked_stale MAX_RECOVERIES_PER_CLAIM db = .ok db₁
      ∧ Database.claim_loop clock q max_attempts MAX_RECOVERIES_PER_CLAIM db₁ = .ok (j, db') := by
  rw [Database.claim_with_policy] at h
  split at h
  next => cases h
  next =>
    obtain ⟨max_attempts, -, h⟩ := bind_eq_ok h
    obtain ⟨-, -, h⟩ := bind_eq_ok h
    obtain ⟨db₁, hstale, h⟩ := bind_eq_ok h
    exact ⟨max_attempts, db₁, hstale, h⟩

theorem claim_with_policy_changes (h : db.claim_with_policy clock q = .ok (j, db'))
    (hT : ∀ row : JobRow, j = some row.job → T row) : ReflTransGen (Change clock P T) db db' := by
  obtain ⟨max_attempts, db₁, hstale, hloop⟩ := claim_with_policy_inv h
  exact (cancel_stale_jobs_changes hstale).trans (claim_loop_changes hloop hT)

theorem fail_with_error_changes {now : ℤ} {j : Job} {delay : ℕ} {terminal : Bool}
    {error : Option Error}
    (h : db.fail_with_error clock now j delay terminal error = .ok (u, db')) :
    ReflTransGen (Change clock P T) db db' := by
  rw [Database.fail_with_error] at h
  obtain ⟨⟨⟩, hlock, h⟩ := bind_eq_ok h
  obtain ⟨db₁, hevent, h⟩ := bind_eq_ok h
  cases h
  exact .tail (.single (.failed now _ terminal hlock)) (append_event_changes hevent)

theorem cancel_stale_changes {j : Job} (h : db.cancel_stale clock j = .ok (u, db')) :
    ReflTransGen (Change clock P T) db db' := by
  rw [Database.cancel_stale] at h
  split at h
  next => cases h
  next r hfind =>
    split at h
    next hguard =>
      simp only [Bool.and_eq_true, decide_eq_true_eq] at hguard
      obtain ⟨db₁, hevent, h⟩ := bind_eq_ok h
      cases h
      have hid : r.id = j.id := (Table.find_eq_some.mp hfind).2
      have hstale : db.stale r = true := by
        rw [Database.stale, JobRow.unfinished, hguard.1.1.1.1.2, hguard.2]
        rfl
      rw [← hid] at hfind hevent
      exact .tail (.single (.cancelled hfind hstale)) (append_event_changes hevent)
    next => cases h

theorem control_inv (h : db.control clock project_id account_id job_id action = .ok (u, db')) :
    ∃ r c events, valid_control project_id account_id job_id = true
      ∧ db.sync_jobs.find job_id = some r ∧ r.project_id = project_id
      ∧ db.controlled_connection project_id account_id r = some c
      ∧ action.allowed r clock = true
      ∧ db' = { db.apply_control clock action r c.connection_generation with
          sync_job_events := events } := by
  rw [Database.control] at h
  split at h
  next => cases h
  next hvalid =>
    split at h
    next => cases h
    next r hr =>
      split at h
      next => cases h
      next c hc =>
        split at h
        next => cases h
        next hallowed =>
          obtain ⟨hfind, hproject⟩ := Option.filter_eq_some_iff.mp hr
          obtain ⟨db₁, hevent, h⟩ := bind_eq_ok h
          cases h
          obtain ⟨events, -, rfl⟩ := append_event_writes hevent
          refine ⟨r, c, events, by simpa using hvalid, hfind, of_decide_eq_true hproject, hc,
            by simpa using hallowed, rfl⟩

theorem control_changes (h : db.control clock project_id account_id job_id action = .ok (u, db'))
    (hP : ∀ r c, valid_control project_id account_id job_id = true →
      db.sync_jobs.find job_id = some r → r.project_id = project_id →
      db.controlled_connection project_id account_id r = some c →
      action.allowed r clock = true → action.restarts = true →
      P db (action.apply r clock c.connection_generation)) :
    ReflTransGen (Change clock P T) db db' := by
  obtain ⟨r, c, events, hvalid, hfind, hproject, hc, hallowed, rfl⟩ := control_inv h
  have hrestarts := hP r c hvalid hfind hproject hc hallowed
  obtain rfl : r.id = job_id := (Table.find_eq_some.mp hfind).2
  exact .tail (.single (.controlled action project_id account_id hfind hc hproject hallowed
    hrestarts)) (.recorded events)

end Transactions

/-! ## Pages -/

/-- A page that passes the checks of `commit_page_checked`: it is well formed, the lease is
the claim's own, the page is the next one, and its cursor and the next are not visited. -/
structure Checked (clock : ℤ) (j : Job) (cursor : String) (page : Page)
    (connection : Option Connection) (db : Database) : Prop where
  valid : page.validate = .ok ()
  lock : db.lock clock j = .ok ()
  same : ∀ c, connection = some c → db.same_connection c j.connection_generation = true
  persisted : db.persisted j = .ok cursor
  next : page.next_cursor = "" ∨ page.next_cursor ≠ cursor
    ∧ db.sync_job_cursor_visits.find (j.id, page.next_cursor) = none
  fresh : db.sync_job_cursor_visits.find (j.id, cursor) = none

/-- A page that is committed: it passes the checks, and everything is written together. -/
structure Paged (env : Env) (clock now : ℤ) (j : Job) (cursor : String) (page : Page)
    (connection : Option Connection) (db db' : Database) : Prop
    extends Checked clock j cursor page connection db where
  writes : ∃ visits db₁, db.sync_job_cursor_visits.insert ⟨j.id, cursor⟩ = some visits
    ∧ (db.write_page env now j cursor page visits).append_event clock j.id .page
        (page_detail page) = .ok db₁
    ∧ if page.next_cursor = "" then db₁.append_event clock j.id .succeeded {} = .ok db'
      else db' = db₁

variable {env : Env} {j : Job} {cursor : String} {page : Page} {connection : Option Connection}

theorem commit_page_inv {clock now : ℤ} {db db' : Database} {u : Unit}
    (h : db.commit_page_checked env clock now j cursor page connection = .ok (u, db')) :
    Paged env clock now j cursor page connection db db' := by
  rw [Database.commit_page_checked] at h
  obtain ⟨⟨⟩, hvalid, h⟩ := bind_eq_ok h
  split at h
  next => cases h
  next hcycle =>
    obtain ⟨⟨⟩, hlock, h⟩ := bind_eq_ok h
    split at h
    next => cases h
    next hsame =>
      obtain ⟨persisted, hpersisted, h⟩ := bind_eq_ok h
      split at h
      next => cases h
      next heq =>
        rw [ne_eq, not_not] at heq
        rw [heq] at hpersisted
        split at h
        next => cases h
        next hvisited =>
          split at h
          next => cases h
          next visits hvisits =>
            obtain ⟨db₁, hpage, h⟩ := bind_eq_ok h
            refine ⟨⟨hvalid, hlock, ?_, hpersisted, ?_, (Table.insert_eq_some hvisits).1⟩, visits,
              db₁, hvisits, hpage, ?_⟩
            · rintro c rfl
              simpa using hsame
            · rw [not_and_or, not_not] at hcycle hvisited
              refine or_iff_not_imp_left.mpr fun hmore => ⟨hcycle.resolve_left hmore, ?_⟩
              simpa using hvisited.resolve_left hmore
            · by_cases hlast : page.next_cursor = ""
              · rw [if_pos hlast] at h ⊢
                obtain ⟨db₂, hsucceeded, h⟩ := bind_eq_ok h
                cases h
                exact hsucceeded
              · rw [if_neg hlast] at h ⊢
                cases h
                rfl

theorem Paged.frame {clock now : ℤ} {db db' : Database}
    (h : Paged env clock now j cursor page connection db db') :
    ∃ visits events, db.sync_job_cursor_visits.insert ⟨j.id, cursor⟩ = some visits
      ∧ db' = { db.write_page env now j cursor page visits with sync_job_events := events } := by
  obtain ⟨visits, db₁, hvisits, hpage, hlast⟩ := h.writes
  obtain ⟨events, -, rfl⟩ := append_event_writes hpage
  split at hlast
  next =>
    obtain ⟨events', -, rfl⟩ := append_event_writes hlast
    exact ⟨visits, events', hvisits, rfl⟩
  next =>
    cases hlast
    exact ⟨visits, events, hvisits, rfl⟩

theorem lock_inv {db : Database} {clock : ℤ} (h : db.lock clock j = .ok ()) :
    ∃ r c, db.sync_jobs.find j.id = some r ∧ db.connection_of r = some c
      ∧ j.holds clock r = true ∧ r.connection_generation = c.connection_generation := by
  rw [Database.lock] at h
  split at h
  next => cases h
  next r hfind =>
    split at h
    next => cases h
    next c hc =>
      split at h
      next hguard =>
        rw [Bool.and_eq_true, decide_eq_true_eq] at hguard
        exact ⟨r, c, hfind, hc, hguard.1, hguard.2⟩
      next =>
        split at h
        next => cases h
        next => cases h

/-- The usage of a page depends on the connections and the usage that is there, and
nothing else is written with it. -/
theorem meter_page_frame (stored db : Database) (env : Env) (now : ℤ) (j : Job)
    (cursor : String) (records : List Message) (hconnections : stored.connections = db.connections)
    (hevents : stored.usage_events = db.usage_events)
    (hrollups : stored.usage_monthly_rollups = db.usage_monthly_rollups) :
    stored.meter_page env now j cursor records
      = { stored with
          usage_events := (db.meter_page env now j cursor records).usage_events
          usage_monthly_rollups :=
            (db.meter_page env now j cursor records).usage_monthly_rollups } := by
  rw [Database.meter_page, Database.meter_page]
  split
  next => rw [← hevents, ← hrollups]
  next =>
    rw [Database.meter, Database.meter, hconnections, hevents, hrollups]
    split
    next => rw [← hconnections, ← hevents, ← hrollups]
    next c hc =>
      dsimp only
      split
      next => rw [← hconnections, ← hevents, ← hrollups]
      next => rfl

theorem write_page_events (db : Database) (env : Env) (now : ℤ) (j : Job) (cursor : String)
    (page : Page) (visits : Table Visit.key) :
    (db.write_page env now j cursor page visits).sync_job_events = db.sync_job_events :=
  (congrArg Database.sync_job_events (meter_page_frame
    (({ db with sync_job_cursor_visits := visits }).store_messages j now page.records) db env now
    j cursor page.records rfl rfl rfl) :)

/-- What a page writes, table by table. -/
structure Written (env : Env) (now : ℤ) (j : Job) (cursor : String) (page : Page)
    (visits : Table Visit.key) (db db' : Database) : Prop where
  connections : db'.connections = db.connections
  jobs : db'.sync_jobs = (db.update_job j.id (fun r => r.finish_page now page.next_cursor)
    (fun _ => rfl)).sync_jobs
  checkpoints : db'.sync_job_checkpoints
    = (db.checkpoint j page.next_cursor).sync_job_checkpoints
  visits : db'.sync_job_cursor_visits = visits
  messages : db'.synced_messages = page.records.foldl (store_message j now) db.synced_messages
  usage : db'.usage_events = (db.meter_page env now j cursor page.records).usage_events
  rollups : db'.usage_monthly_rollups
    = (db.meter_page env now j cursor page.records).usage_monthly_rollups

theorem Paged.written {clock now : ℤ} {db db' : Database}
    (h : Paged env clock now j cursor page connection db db') :
    ∃ visits, db.sync_job_cursor_visits.insert ⟨j.id, cursor⟩ = some visits
      ∧ Written env now j cursor page visits db db' := by
  obtain ⟨visits, events, hvisits, rfl⟩ := h.frame
  have hmeter := meter_page_frame
    (({ db with sync_job_cursor_visits := visits }).store_messages j now page.records) db env now
    j cursor page.records rfl rfl rfl
  exact ⟨visits, hvisits, (congrArg Database.connections hmeter :),
    (congrArg (fun d : Database => (d.update_job j.id
      (fun r => r.finish_page now page.next_cursor) (fun _ => rfl)).sync_jobs) hmeter :),
    (congrArg (fun d => (d.checkpoint j page.next_cursor).sync_job_checkpoints) hmeter :),
    (congrArg Database.sync_job_cursor_visits hmeter :),
    (congrArg Database.synced_messages hmeter :), (congrArg Database.usage_events hmeter :),
    (congrArg Database.usage_monthly_rollups hmeter :)⟩

end Appcall.Sync
