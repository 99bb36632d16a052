/-
The lease of a claim fences its writes, and a page is one write.

A page and a failure are written only while the claim is the job's current lease; any
other call leaves all tables as they are. A page writes its visit, its records, its
checkpoint, the job and the history together. Between two resets of its checkpoint a job
commits a cursor at most once, so it ends when the provider's cursors do. The usage of a page
is written with it unless there is a usage event of its id. That id has the job and the cursor
but not the generation, and the visits exclude a second page of a cursor already: the id is
taken only after a reset, and what the page brings then, perhaps for another account, is not
metered. In a run without such a page every page brings its usage.
-/
import Appcall.Sync.Changes
import Mathlib.Data.Finset.Card

set_option autoImplicit false

namespace Appcall.Sync

open Appcall.Oauth (Connection Row)

/-! ## The fence -/

/-- The claim is the job's current lease, under the current generation. -/
def Database.CurrentLease (db : Database) (clock : ℤ) (j : Job) : Prop :=
  ∃ r c, db.sync_jobs.find j.id = some r ∧ db.connection_of r = some c
    ∧ r.worker_id = j.worker_id ∧ r.leased_until = j.leased_until ∧ r.status = .running
    ∧ (∃ t, r.leased_until = some t ∧ clock < t)
    ∧ r.connection_generation = c.connection_generation

variable {db : Database} {clock : ℤ} {j : Job} {env : Env} {s : System} {cursor : String}
  {db' : Database}

theorem lock_current (h : db.lock clock j = .ok ()) : db.CurrentLease clock j := by
  obtain ⟨r, c, hfind, hc, hholds, hgeneration⟩ := lock_inv h
  simp only [Job.holds, JobRow.leased, Bool.and_eq_true, decide_eq_true_eq,
    Option.any_eq_true] at hholds
  obtain ⟨⟨⟨⟨-, hworker⟩, huntil⟩, -⟩, hstatus, hlease⟩ := hholds
  exact ⟨r, c, hfind, hc, hworker, huntil, hstatus, hlease, hgeneration⟩

theorem commit_page_fenced {age : ℕ} {f : Fetched} {for_connection : Bool}
    (h : ¬ s.db.CurrentLease s.clock f.job) :
    step env s (.commit_page age f for_connection cursor) = s := by
  rw [step]
  split
  next => rfl
  next db hok => exact absurd (lock_current (commit_page_inv hok).lock) h

theorem fail_fenced {age : ℕ} {delay : ℕ} {terminal : Bool} {error : Option Error}
    (h : ¬ s.db.CurrentLease s.clock j) : step env s (.fail age j delay terminal error) = s := by
  have hfails : ∃ e,
      s.db.fail_with_error s.clock (s.clock - age) j delay terminal error = .error e := by
    rw [Database.fail_with_error]
    cases hlock : s.db.lock s.clock j with
    | error e => exact ⟨e, rfl⟩
    | ok u => exact absurd (lock_current hlock) h
  obtain ⟨e, he⟩ := hfails
  rw [step, he]
  rfl

/-! ## One write -/

/-- The usage of a page is written: an event of its id, which is new, and the month of its
account counts it. -/
def Metered (env : Env) (now : ℤ) (j : Job) (cursor : String) (page : Page)
    (db db' : Database) : Prop :=
  db.usage_events.find (usage_id env j cursor) = none
    ∧ ∃ e, db'.usage_events.find (usage_id env j cursor) = some e
      ∧ e.quantity = page.records.length ∧ e.project_id = j.project_id
      ∧ db'.usage_monthly_rollups.read (j.project_id, e.external_account_id, env.month now)
          (fun r => r.quantity)
        = db.usage_monthly_rollups.read (j.project_id, e.external_account_id, env.month now)
          (fun r => r.quantity) + page.records.length

/-- A page that was committed, in all its tables. -/
structure PageWritten (env : Env) (now : ℤ) (j : Job) (cursor : String) (page : Page)
    (db db' : Database) : Prop where
  visit : db.sync_job_cursor_visits.find (j.id, cursor) = none
    ∧ db'.sync_job_cursor_visits.find (j.id, cursor) = some ⟨j.id, cursor⟩
  records : db'.synced_messages = page.records.foldl (store_message j now) db.synced_messages
  checkpoint : db'.sync_job_checkpoints.find j.id
    = some ⟨j.id, page.next_cursor, j.connection_generation⟩
  job : ∃ r, db.sync_jobs.find j.id = some r
    ∧ db'.sync_jobs.find j.id = some (r.finish_page now page.next_cursor)
  event : ∃ e, db'.sync_job_events.find e.key = some e ∧ db.sync_job_events.find e.key = none
    ∧ e.job_id = j.id ∧ e.kind = .page ∧ e.detail = page_detail page
  finished : page.next_cursor = "" → ∃ e, db'.sync_job_events.find e.key = some e
    ∧ db.sync_job_events.find e.key = none ∧ e.job_id = j.id ∧ e.kind = .succeeded
  /-- The first page of a cursor brings its usage with it. -/
  metered : page.records ≠ [] → db.usage_events.find (usage_id env j cursor) = none →
    Metered env now j cursor page db db'
  /-- Usage that is there stays as it is. -/
  unmetered : page.records = [] ∨ db.usage_events.find (usage_id env j cursor) ≠ none →
    db'.usage_events = db.usage_events
      ∧ db'.usage_monthly_rollups = db.usage_monthly_rollups

theorem lock_connection (h : db.lock clock j = .ok ()) :
    ∃ c, (db.connections.find j.connection_id).filter
      (fun c => decide (c.connection.project_id = j.project_id)) = some c := by
  obtain ⟨r, c, -, hc, hholds, -⟩ := lock_inv h
  simp only [Job.holds, Bool.and_eq_true, decide_eq_true_eq] at hholds
  obtain ⟨⟨⟨⟨⟨⟨hproject, hconnection⟩, -⟩, -⟩, -⟩, -⟩, -⟩ := hholds
  rw [Database.connection_of, hproject, hconnection] at hc
  exact ⟨c, hc⟩

theorem meter_free {now : ℤ} {quantity : ℕ} {c : Row}
    (hc : (db.connections.find j.connection_id).filter
      (fun c => decide (c.connection.project_id = j.project_id)) = some c)
    (hfree : db.usage_events.find (usage_id env j cursor) = none) :
    ∃ e, (db.meter env now j cursor quantity).usage_events.find (usage_id env j cursor) = some e
      ∧ e.quantity = quantity ∧ e.project_id = j.project_id
      ∧ (db.meter env now j cursor quantity).usage_monthly_rollups.read
          (j.project_id, e.external_account_id, env.month now) (fun r => r.quantity)
        = db.usage_monthly_rollups.read
          (j.project_id, e.external_account_id, env.month now) (fun r => r.quantity)
          + quantity := by
  rw [Database.meter, hc]
  dsimp only
  split
  next hnone =>
    -- the id is free, so the event is inserted
    obtain ⟨e, hfind⟩ := Table.insert_eq_none hnone
    rw [hfree] at hfind
    cases hfind
  next events hinsert =>
    refine ⟨_, (Table.find_insert hinsert _).trans (if_pos rfl), rfl, rfl, ?_⟩
    have hread := Table.read_upsert (m := fun r : Rollup => (r.quantity : ℤ)) (d := quantity)
      db.usage_monthly_rollups
      ⟨j.project_id, c.connection.external_account_id, env.month now, quantity⟩
      (fun r => { r with quantity := r.quantity + quantity }) (fun _ => rfl) rfl
      (fun r => by simp) (j.project_id, c.connection.external_account_id, env.month now)
    rw [hread]
    exact congrArg _ (if_pos rfl)

theorem meter_taken {now : ℤ} {quantity : ℕ}
    (htaken : db.usage_events.find (usage_id env j cursor) ≠ none) :
    db.meter env now j cursor quantity = db := by
  rw [Database.meter]
  split
  next => rfl
  next c hc =>
    dsimp only
    split
    next => rfl
    next events hinsert => exact absurd (Table.insert_eq_some hinsert).1 htaken

theorem append_event_new {job_id : String} {kind : EventKind} {detail : Detail}
    (h : db.append_event clock job_id kind detail = .ok db') :
    ∃ e : JobEvent, db'.sync_job_events.find e.key = some e
      ∧ db.sync_job_events.find e.key = none
      ∧ e.job_id = job_id ∧ e.kind = kind ∧ e.detail = detail := by
  obtain ⟨events, hinsert, rfl⟩ := append_event_writes h
  exact ⟨_, (Table.find_insert hinsert _).trans (if_pos rfl), (Table.insert_eq_some hinsert).1,
    rfl, rfl, rfl⟩

theorem append_event_keeps {job_id : String} {kind : EventKind} {detail : Detail}
    (h : db.append_event clock job_id kind detail = .ok db') {e : JobEvent}
    (he : db.sync_job_events.find e.key = some e) : db'.sync_job_events.find e.key = some e := by
  obtain ⟨events, hinsert, rfl⟩ := append_event_writes h
  refine (Table.find_insert hinsert _).trans ?_
  rw [if_neg, he]
  intro hkey
  rw [hkey, (Table.insert_eq_some hinsert).1] at he
  cases he

theorem Paged.page_written {now : ℤ} {page : Page} {connection : Option Connection}
    (h : Paged env clock now j cursor page connection db db') :
    PageWritten env now j cursor page db db' := by
  obtain ⟨visits, hvisits, hw⟩ := h.written
  obtain ⟨c, hc⟩ := lock_connection h.lock
  obtain ⟨visits', db₁, -, hpage, hlast⟩ := h.writes
  obtain ⟨e, he, hnew, hjob, hkind, hdetail⟩ := append_event_new hpage
  have hevents := write_page_events db env now j cursor page visits'
  rw [hevents] at hnew
  refine ⟨?_, hw.messages, ?_, ?_, ⟨e, ?_, hnew, hjob, hkind, hdetail⟩, ?_, ?_, ?_⟩
  · rw [hw.visits, Table.find_insert hvisits]
    exact ⟨(Table.insert_eq_some hvisits).1, if_pos rfl⟩
  · rw [hw.checkpoints, Database.checkpoint]
    refine (Table.find_upsert_self _ _ _ _).trans ?_
    cases hfind : db.sync_job_checkpoints.find j.id with
    | none => rfl
    | some c =>
      have hid : c.job_id = j.id := (Table.find_eq_some.mp hfind).2
      rw [Option.elim_some, hid]
  · obtain ⟨r, -, hfind, -⟩ := lock_inv h.lock
    refine ⟨r, hfind, ?_⟩
    rw [hw.jobs]
    exact Table.find_modify_self hfind (fun r => r.finish_page now page.next_cursor)
      (fun _ => rfl)
  · split at hlast
    next => exact append_event_keeps hlast he
    next =>
      rw [hlast]
      exact he
  · intro hnext
    rw [if_pos hnext] at hlast
    obtain ⟨e', he', hnew', hjob', hkind', -⟩ := append_event_new hlast
    refine ⟨e', he', ?_, hjob', hkind'⟩
    -- what is new after the page's event is new before it
    cases hbefore : db.sync_job_events.find e'.key with
    | none => rfl
    | some e'' =>
      obtain ⟨hmem, hkey⟩ := Table.find_eq_some.mp hbefore
      rw [← hkey, ← hevents] at hbefore
      have hkept := append_event_keeps hpage hbefore
      rw [hkey, hnew'] at hkept
      cases hkept
  · intro hrecords hfree
    rw [Metered, hw.usage, hw.rollups, Database.meter_page, if_neg hrecords]
    exact ⟨hfree, meter_free hc hfree⟩
  · intro hnone
    rw [hw.usage, hw.rollups, Database.meter_page]
    split
    next => exact ⟨rfl, rfl⟩
    next hrecords =>
      rw [meter_taken (hnone.resolve_left hrecords)]
      exact ⟨rfl, rfl⟩

/-- The step comes to the usage of a page with records, and there is an event of its id. -/
def System.usage_taken (env : Env) (s : System) (op : Op) : Prop :=
  ∃ age f for_connection cursor, op = .commit_page age f for_connection cursor
    ∧ Checked s.clock f.job cursor f.page (if for_connection then some f.connection else none) s.db
    ∧ f.page.records ≠ [] ∧ s.db.usage_events.find (usage_id env f.job cursor) ≠ none

/-- If the step commits a page with records, it writes the usage of the page with it. -/
def System.writes_usage (env : Env) (s : System) (op : Op) : Prop :=
  ∀ age f for_connection cursor db', op = .commit_page age f for_connection cursor →
    s.commit env age f for_connection cursor = .ok ((), db') → f.page.records ≠ [] →
    Metered env (s.clock - age) f.job cursor f.page s.db db'

theorem writes_usage_of_free {op : Op} (h : ¬ s.usage_taken env op) : s.writes_usage env op := by
  intro age f for_connection cursor db' hop hok hrecords
  have hpaged := commit_page_inv hok
  refine hpaged.page_written.metered hrecords ?_
  by_contra htaken
  exact h ⟨age, f, for_connection, cursor, hop, hpaged.toChecked, hrecords, htaken⟩

/-! ## Each cursor once -/

/-- The step resets the checkpoint of a job: it takes back where the job has been. -/
def System.forgets (env : Env) (id : String) (s : System) (op : Op) : Prop :=
  ∃ cursor, s.db.sync_job_cursor_visits.find (id, cursor) ≠ none
    ∧ (step env s op).db.sync_job_cursor_visits.find (id, cursor) = none

/-- The pages of a job among those committed. -/
def pages_of (id : String) (log : List Commit) : List Commit :=
  log.filter (fun e => decide (e.fetched.job.id = id))

theorem pages_of_append_singleton (id : String) (log : List Commit) (e : Commit) :
    pages_of id (log ++ [e])
      = pages_of id log ++ if e.fetched.job.id = id then [e] else [] := by
  rw [pages_of, pages_of, List.filter_append]
  by_cases hid : e.fetched.job.id = id
  · simp [hid]
  · simp [hid]

theorem step_committed (env : Env) (s : System) (op : Op) :
    (step env s op).committed = s.committed
      ∨ ∃ e : Commit, (step env s op).committed = e :: s.committed
        ∧ s.db.sync_job_cursor_visits.find (e.fetched.job.id, e.cursor) = none
        ∧ (step env s op).db.sync_job_cursor_visits.find (e.fetched.job.id, e.cursor) ≠ none := by
  cases op with
  | tick d => exact .inl rfl
  | connect c => exact .inl rfl
  | update_connection id marker intent new => exact .inl rfl
  | enqueue age r => exact .inl rfl
  | claim q =>
    left
    rw [step]
    split <;> rfl
  | fetch j page connection =>
    left
    rw [step]
    split <;> rfl
  | commit_page age f for_connection cursor =>
    rw [step]
    split
    next => exact .inl rfl
    next db hok =>
      have hw := (commit_page_inv hok).page_written
      have hvisited : db.sync_job_cursor_visits.find (f.job.id, cursor) ≠ none := by
        rw [hw.visit.2]
        exact Option.some_ne_none _
      exact .inr ⟨_, rfl, hw.visit.1, hvisited⟩
  | fail age j delay terminal error => exact .inl rfl
  | cancel_stale j => exact .inl rfl
  | control project_id account_id job_id action => exact .inl rfl

theorem pages_once (env : Env) (id : String) {ops : List Op}
    (h : Machine.Meets (step env) (fun s op => ¬ s.forgets env id op) s ops) :
    ∃ new, (Machine.run (step env) s ops).committed = new ++ s.committed
      ∧ ((pages_of id new).map Commit.cursor).Nodup
      ∧ ∀ e ∈ pages_of id new,
        s.db.sync_job_cursor_visits.find (id, e.cursor) = none := by
  induction ops generalizing s with
  | nil => exact ⟨[], rfl, List.nodup_nil, fun e he => absurd he List.not_mem_nil⟩
  | cons op ops ih =>
    obtain ⟨hkept, hrest⟩ := h
    obtain ⟨new, hrun, hnodup, hfresh⟩ := ih hrest
    rw [Machine.run_cons]
    -- a cursor the job had visited before the step is still visited after it
    have hold : ∀ e ∈ pages_of id new,
        s.db.sync_job_cursor_visits.find (id, e.cursor) = none := by
      intro e he
      by_contra hvisited
      exact hkept ⟨e.cursor, hvisited, hfresh e he⟩
    rcases step_committed env s op with hsame | ⟨e, hcommit, hbefore, hafter⟩
    · rw [hsame] at hrun
      exact ⟨new, hrun, hnodup, hold⟩
    · rw [hcommit] at hrun
      refine ⟨new ++ [e], by rw [hrun, List.append_assoc, List.singleton_append], ?_, ?_⟩
      · rw [pages_of_append_singleton]
        split
        next hid =>
          rw [List.map_append, List.map_singleton, ← List.concat_eq_append, List.nodup_concat]
          refine ⟨?_, hnodup⟩
          intro hmem
          -- the page of the step was visited, and the later ones were not
          obtain ⟨e', he', hcursor⟩ := List.mem_map.mp hmem
          rw [hid, ← hcursor] at hafter
          exact hafter (hfresh e' he')
        next =>
          rw [List.append_nil]
          exact hnodup
      · intro e' he'
        rw [pages_of_append_singleton, List.mem_append] at he'
        rcases he' with hnew | hlast
        · exact hold e' hnew
        · split at hlast
          next hid =>
            rw [List.mem_singleton] at hlast
            rw [hlast, ← hid]
            exact hbefore
          next => cases hlast

/-- **Leases fence.** In every state, a page or a failure of a claim that is not the
current lease changes nothing, and a page is one write. In every run that does not reset a
job's checkpoint, the job commits each cursor at most once, and no more pages than there are
cursors. In every run that comes to no page with records whose usage id is taken, each page
brings its usage. -/
theorem sync_lease_fencing (env : Env) (s : System) :
    (∀ age f for_connection cursor, ¬ s.db.CurrentLease s.clock f.job →
      step env s (.commit_page age f for_connection cursor) = s)
    ∧ (∀ age j delay terminal error, ¬ s.db.CurrentLease s.clock j →
      step env s (.fail age j delay terminal error) = s)
    ∧ (∀ age f for_connection cursor db',
      s.commit env age f for_connection cursor = .ok ((), db') →
      PageWritten env (s.clock - age) f.job cursor f.page s.db db')
    ∧ (∀ age f for_connection cursor e,
      s.commit env age f for_connection cursor = .error e →
      step env s (.commit_page age f for_connection cursor) = s)
    ∧ (∀ id ops, Machine.Meets (step env) (fun s op => ¬ s.forgets env id op) s ops →
      ∃ new, (Machine.run (step env) s ops).committed = new ++ s.committed
        ∧ ((pages_of id new).map Commit.cursor).Nodup
        ∧ ∀ cursors : Finset String, (∀ e ∈ pages_of id new, e.cursor ∈ cursors) →
          (pages_of id new).length ≤ cursors.card)
    ∧ ∀ ops, Machine.Meets (step env) (fun s op => ¬ s.usage_taken env op) s ops →
      Machine.Meets (step env) (fun s op => s.writes_usage env op) s ops := by
  refine ⟨fun _ _ _ _ h => commit_page_fenced h, fun _ _ _ _ _ h => fail_fenced h,
    fun _ _ _ _ _ hok => (commit_page_inv hok).page_written, ?_, ?_,
    fun ops hops => hops.imp fun _ _ => writes_usage_of_free⟩
  · intro age f for_connection cursor e herror
    rw [step, herror]
  · intro id ops hops
    obtain ⟨new, hrun, hnodup, -⟩ := pages_once env id hops
    refine ⟨new, hrun, hnodup, ?_⟩
    intro cursors hcursors
    rw [← List.length_map (f := Commit.cursor), ← List.toFinset_card_of_nodup hnodup]
    apply Finset.card_le_card
    intro cursor hmem
    obtain ⟨e, he, rfl⟩ := List.mem_map.mp (List.mem_toFinset.mp hmem)
    exact hcursors e he

namespace Sample

/-- A job commits a page, its connection is bound to another account, and an operator
restarts the job, which a worker claims again. -/
def restarted : List Op :=
  [.enqueue 0 (request "a"),
   .claim (claim "w" 60000),
   .commit_page 0 ⟨job "a" "w" 60000000 1, page "next", connection, 1⟩ true "",
   .update_connection "c" none none { connection with external_account_id := "second" },
   .claim (claim "w" 60000),
   .control "p" "" "a" .RunNow,
   .claim (claim "w" 60000)]

/-- The first page under the new account. -/
def restarted_page : Fetched :=
  ⟨job "a" "w" 60000000 2, page "next",
    { connection with external_account_id := "second" }, 2⟩

end Sample

/-- A page of the restarted job is committed and brings a record, but no usage. -/
theorem restarted_page_not_metered :
    let s := Machine.run (step Sample.env) (System.init Sample.database 0) Sample.restarted
    ∃ db', s.commit Sample.env 0 Sample.restarted_page true "" = .ok ((), db')
      ∧ Sample.restarted_page.page.records ≠ []
      ∧ db'.usage_events.rows = s.db.usage_events.rows
      ∧ db'.usage_monthly_rollups.rows = s.db.usage_monthly_rollups.rows := by
  intro s
  have hsame : (match s.commit Sample.env 0 Sample.restarted_page true "" with
      | .ok (_, db') => decide (db'.usage_events.rows = s.db.usage_events.rows)
        && decide (db'.usage_monthly_rollups.rows = s.db.usage_monthly_rollups.rows)
      | .error _ => false) = true := by
    decide
  cases hcommit : s.commit Sample.env 0 Sample.restarted_page true "" with
  | error e =>
    rw [hcommit] at hsame
    cases hsame
  | ok w =>
    rw [hcommit, Bool.and_eq_true, decide_eq_true_eq, decide_eq_true_eq] at hsame
    exact ⟨w.2, rfl, List.cons_ne_nil _ _, hsame.1, hsame.2⟩

end Appcall.Sync
