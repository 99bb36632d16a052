/-
A sync does not cross the generation of its connection.

A page that is committed was fetched under the generation the connection has at the
commit; what a job has recorded of its way (checkpoint and visited cursors) was recorded
under the generation the job is of; and a listed message came with a page fetched under
the current generation, from the account that the connection has now.
`commit_page_for_connection` checks the generation of the claim. `commit_page` checks
the lease alone, which names no generation: it is as good only while a lease (a worker
and an end) is not given out a second time under another generation.
-/
import Appcall.Sync.Messages
import Appcall.Sync.Leases

set_option autoImplicit false

namespace Appcall.Sync

open Appcall.Oauth (Connection Row bump_connection_generation)
open Relation (ReflTransGen)

/-! ## Workers -/

/-- The lease of the claim was given out again under another generation. -/
def System.reissued (s : System) (j : Job) : Prop :=
  ∃ j' ∈ s.claims, j'.id = j.id ∧ j'.worker_id = j.worker_id
    ∧ j'.leased_until = j.leased_until ∧ j'.connection_generation ≠ j.connection_generation

/-- Workers fetch under a claim of theirs and commit what they fetched. -/
def Op.genuine (s : System) : Op → Prop
  | .fetch j _ _ => j ∈ s.claims
  | .commit_page _ f _ _ => f ∈ s.fetched
  | _ => True

/-- A page that is committed without its connection has a lease given out once. -/
def Op.unrepeated (s : System) : Op → Prop
  | .commit_page _ f for_connection _ => for_connection = false → ¬ s.reissued f.job
  | _ => True

/-! ## Connections -/

section Connections

/-- The row of a connection may move to a later generation; within one, its account
stays. -/
def Advances (r r' : Row) : Prop :=
  r.connection_generation ≤ r'.connection_generation
    ∧ (r'.connection_generation = r.connection_generation →
      r'.connection.external_account_id = r.connection.external_account_id)
    ∧ r'.connection.project_id = r.connection.project_id

theorem Advances.refl (r : Row) : Advances r r := ⟨le_rfl, fun _ => rfl, rfl⟩

theorem updated_row_advances (clock : ℤ) (marker : Option Oauth.Marker)
    (intent : Option (Oauth.Intent String)) (new : Connection) (r : Row) :
    Advances r (updated_row clock marker intent new r) := by
  rw [Advances, updated_row, bump_connection_generation]
  dsimp only
  split
  next =>
    refine ⟨Nat.le_succ _, ?_, rfl⟩
    intro hsame
    omega
  next hnone =>
    refine ⟨le_rfl, ?_, rfl⟩
    intro _
    by_contra hne
    exact hnone (.inl (Ne.symm hne))

def Later (db db' : Database) : Prop :=
  ∀ id r, db.connections.find id = some r →
    ∃ r', db'.connections.find id = some r' ∧ Advances r r'

theorem Later.of_eq {db db' : Database} (h : db'.connections = db.connections) :
    Later db db' := by
  intro id r hr
  rw [h]
  exact ⟨r, hr, .refl r⟩

theorem connect_later (db : Database) (clock : ℤ) (c : Connection) :
    Later db (db.connect clock c) := by
  rw [Database.connect]
  split
  next => exact .of_eq rfl
  next connections hinsert =>
    intro id r hr
    refine ⟨r, ?_, .refl r⟩
    refine (Table.find_insert hinsert id).trans ?_
    rw [if_neg, hr]
    rintro rfl
    rw [(Table.insert_eq_some hinsert).1] at hr
    cases hr

theorem update_connection_later (db : Database) (clock : ℤ) (id : String)
    (marker : Option Oauth.Marker) (intent : Option (Oauth.Intent String)) (new : Connection) :
    Later db (db.update_connection clock id marker intent new) := by
  intro id' r hr
  by_cases hid : id' = id
  · refine ⟨updated_row clock marker intent new r, ?_, updated_row_advances ..⟩
    rw [hid] at hr ⊢
    exact Table.find_modify_self hr (updated_row clock marker intent new) (fun _ => rfl)
  · refine ⟨r, ?_, .refl r⟩
    rw [← hr]
    exact Table.find_modify_other db.connections (updated_row clock marker intent new)
      (fun _ => rfl) hid

end Connections

/-! ## What the jobs have recorded -/

def last_page (log : List Commit) (id : String) : Option Commit :=
  log.find? (fun e => decide (e.fetched.job.id = id))

/-- The newest page of a job that starts at a cursor. -/
def last_page_at (log : List Commit) (id cursor : String) : Option Commit :=
  log.find? (fun e => decide (e.fetched.job.id = id) && decide (e.cursor = cursor))

/-- The checkpoint and the visited cursors of a job were recorded under the generation
of the job. -/
structure Database.Tied (log : List Commit) (db : Database) : Prop where
  checkpoint : ∀ id cp, db.sync_job_checkpoints.find id = some cp →
    ∃ r e, db.sync_jobs.find id = some r ∧ last_page log id = some e
      ∧ e.generation = r.connection_generation ∧ cp.cursor = e.fetched.page.next_cursor
  visit : ∀ id cursor, db.sync_job_cursor_visits.find (id, cursor) ≠ none →
    ∃ r e, db.sync_jobs.find id = some r ∧ last_page_at log id cursor = some e
      ∧ e.generation = r.connection_generation

section Tied

variable {log : List Commit} {db : Database}

variable {db' : Database} {id : String} {f : JobRow → JobRow} {hf : ∀ r, (f r).id = r.id}
  {clock : ℤ}

/-- A write of the jobs that keeps the generation of every job that has recorded
anything. -/
theorem Database.Tied.of_jobs (h : db.Tied log) (hjobs : ∀ id r, db.sync_jobs.find id = some r →
      (db.sync_job_checkpoints.find id ≠ none
        ∨ ∃ cursor, db.sync_job_cursor_visits.find (id, cursor) ≠ none) →
      ∃ r', db'.sync_jobs.find id = some r'
        ∧ r'.connection_generation = r.connection_generation)
    (hcheckpoints : db'.sync_job_checkpoints = db.sync_job_checkpoints)
    (hvisits : db'.sync_job_cursor_visits = db.sync_job_cursor_visits) : db'.Tied log := by
  refine ⟨?_, ?_⟩
  · intro id cp hcp
    rw [hcheckpoints] at hcp
    obtain ⟨r, e, hr, he, hgeneration, hcursor⟩ := h.checkpoint id cp hcp
    obtain ⟨r', hr', hsame⟩ := hjobs id r hr (.inl (by rw [hcp]; exact Option.some_ne_none _))
    exact ⟨r', e, hr', he, by rw [hsame, hgeneration], hcursor⟩
  · intro id cursor hvisited
    rw [hvisits] at hvisited
    obtain ⟨r, e, hr, he, hgeneration⟩ := h.visit id cursor hvisited
    obtain ⟨r', hr', hsame⟩ := hjobs id r hr (.inr ⟨cursor, hvisited⟩)
    exact ⟨r', e, hr', he, by rw [hsame, hgeneration]⟩

theorem Database.Tied.update_job (h : db.Tied log)
    (hgeneration : ∀ r, db.sync_jobs.find id = some r →
      (f r).connection_generation = r.connection_generation) :
    (db.update_job id f hf).Tied log := by
  refine h.of_jobs ?_ rfl rfl
  intro id' r hr _
  by_cases hid : id' = id
  · rw [hid] at hr ⊢
    exact ⟨f r, Table.find_modify_self hr f hf, hgeneration r hr⟩
  · exact ⟨r, (Table.find_modify_other db.sync_jobs f hf hid).trans hr, rfl⟩

theorem forget_checkpoint (db : Database) (id id' : String) :
    (db.forget id).sync_job_checkpoints.find id'
      = if id' = id then none else db.sync_job_checkpoints.find id' := by
  refine (Table.find_delete _ _ _).trans ?_
  cases hfind : db.sync_job_checkpoints.find id' with
  | none => simp
  | some cp =>
    have hid : cp.job_id = id' := (Table.find_eq_some.mp hfind).2
    by_cases h : id' = id
    · simp [hid, h]
    · simp [hid, h]

theorem forget_visit (db : Database) (id id' cursor : String) :
    (db.forget id).sync_job_cursor_visits.find (id', cursor)
      = if id' = id then none else db.sync_job_cursor_visits.find (id', cursor) := by
  refine (Table.find_delete _ _ _).trans ?_
  cases hfind : db.sync_job_cursor_visits.find (id', cursor) with
  | none => simp
  | some v =>
    have hid : v.job_id = id' := congrArg Prod.fst (Table.find_eq_some.mp hfind).2
    by_cases h : id' = id
    · simp [hid, h]
    · simp [hid, h]

theorem Database.Tied.forget (h : db.Tied log) : ((db.update_job id f hf).forget id).Tied log := by
  refine ⟨?_, ?_⟩
  · intro id' cp hcp
    rw [forget_checkpoint] at hcp
    split at hcp
    next => cases hcp
    next hid =>
      obtain ⟨r, e, hr, he⟩ := h.checkpoint id' cp hcp
      exact ⟨r, e, (Table.find_modify_other db.sync_jobs f hf hid).trans hr, he⟩
  · intro id' cursor hvisited
    rw [forget_visit] at hvisited
    split at hvisited
    next => exact absurd rfl hvisited
    next hid =>
      obtain ⟨r, e, hr, he⟩ := h.visit id' cursor hvisited
      exact ⟨r, e, (Table.find_modify_other db.sync_jobs f hf hid).trans hr, he⟩

theorem Database.Tied.control {r : JobRow} (h : db.Tied log)
    (hfind : db.sync_jobs.find r.id = some r) (action : OperatorAction) (generation : ℕ) :
    (db.apply_control clock action r generation).Tied log := by
  rw [Database.apply_control]
  split
  next => exact h.forget
  next hkeeps =>
    refine h.update_job ?_
    intro r' hr'
    rw [hfind] at hr'
    cases hr'
    cases action with
    | RunNow => exact (by simpa [OperatorAction.restarts] using hkeeps :
        r.connection_generation = generation).symm
    | ResetAttempts => exact (by simpa [OperatorAction.restarts] using hkeeps :
        r.connection_generation = generation).symm
    | Cancel => rfl

theorem Change.tied {P : Database → JobRow → Prop} {T : JobRow → Prop}
    (hc : Change clock P T db db') (h : db.Tied log) : db'.Tied log := by
  cases hc with
  | recorded events => exact ⟨h.checkpoint, h.visit⟩
  | scheduled hinsert hP =>
    obtain ⟨c, -, -, jobs, hjobs, rfl⟩ := insert_job_inv hinsert
    refine h.of_jobs ?_ rfl rfl
    intro id r hr _
    refine ⟨r, (Table.find_insert hjobs id).trans ?_, rfl⟩
    rw [if_neg, hr]
    rintro rfl
    rw [(Table.insert_eq_some hjobs).1] at hr
    cases hr
  | cancelled hfind hstale => exact h.forget
  | expired attempts hfind => exact h.update_job (fun _ _ => rfl)
  | taken worker millis attempts hfind hclaimable hT => exact h.update_job (fun _ _ => rfl)
  | failed now millis terminal hlock => exact h.update_job (fun _ _ => rfl)
  | controlled action project_id account_id hfind hconnection hproject hallowed hP =>
    exact h.control hfind action _

theorem lock_connection_row {j : Job} (h : db.lock clock j = .ok ()) :
    ∃ r c, db.sync_jobs.find j.id = some r ∧ db.connections.find j.connection_id = some c
      ∧ r.status = .running ∧ r.worker_id = j.worker_id ∧ r.leased_until = j.leased_until
      ∧ r.connection_generation = c.connection_generation := by
  obtain ⟨r, c, hfind, hc, hholds, hgeneration⟩ := lock_inv h
  simp only [Job.holds, JobRow.leased, Bool.and_eq_true, decide_eq_true_eq] at hholds
  obtain ⟨⟨⟨⟨⟨⟨-, hconnection⟩, -⟩, hworker⟩, huntil⟩, -⟩, hstatus, -⟩ := hholds
  obtain ⟨hfind_c, -⟩ := Option.filter_eq_some_iff.mp hc
  rw [hconnection] at hfind_c
  exact ⟨r, c, hfind, hfind_c, hstatus, hworker, huntil, hgeneration⟩

theorem checkpoint_other (db : Database) (j : Job) (next_cursor : String) (hid : id ≠ j.id) :
    (db.checkpoint j next_cursor).sync_job_checkpoints.find id
      = db.sync_job_checkpoints.find id :=
  Table.find_upsert_other db.sync_job_checkpoints _ (fun c => { c with
    cursor := next_cursor
    connection_generation := j.connection_generation }) (fun _ => rfl) hid

theorem Paged.tied {env : Env} {now : ℤ} {f : Fetched} {cursor : String}
    {connection : Option Connection} (for_connection : Bool)
    (hp : Paged env clock now f.job cursor f.page connection db db') (h : db.Tied log) :
    db'.Tied (db.commit_entry f for_connection cursor :: log) := by
  obtain ⟨visits, hvisits, hw⟩ := hp.written
  obtain ⟨r, c, hr, hc, -, -, -, hgeneration⟩ := lock_connection_row hp.lock
  have hentry : (db.commit_entry f for_connection cursor).generation
      = r.connection_generation := by
    rw [Database.commit_entry, hc, hgeneration]
    rfl
  -- the job is there after the page, of the same generation
  have hjob : ∃ r', db'.sync_jobs.find f.job.id = some r'
      ∧ r'.connection_generation = r.connection_generation := by
    refine ⟨r.finish_page now f.page.next_cursor, ?_, rfl⟩
    rw [hw.jobs]
    exact Table.find_modify_self hr (fun r => r.finish_page now f.page.next_cursor)
      (fun _ => rfl)
  have hother : ∀ id, id ≠ f.job.id → db'.sync_jobs.find id = db.sync_jobs.find id := by
    intro id hid
    rw [hw.jobs]
    exact Table.find_modify_other db.sync_jobs
      (fun r => r.finish_page now f.page.next_cursor) (fun _ => rfl) hid
  obtain ⟨r', hr', hsame⟩ := hjob
  refine ⟨?_, ?_⟩
  · intro id cp hcp
    by_cases hid : id = f.job.id
    · have hself := hp.page_written.checkpoint
      rw [hid, hself] at hcp
      cases hcp
      rw [hid]
      refine ⟨r', _, hr', List.find?_cons_of_pos (decide_eq_true rfl), ?_, rfl⟩
      rw [hentry, hsame]
    · rw [hw.checkpoints, checkpoint_other db _ _ hid] at hcp
      obtain ⟨r₀, e, hr₀, he, hg, hcursor⟩ := h.checkpoint id cp hcp
      refine ⟨r₀, e, (hother id hid).trans hr₀, ?_, hg, hcursor⟩
      rw [last_page, List.find?_cons_of_neg, ← last_page, he]
      exact fun hdec => hid (of_decide_eq_true hdec).symm
  · intro id cursor' hvisited
    by_cases hid : id = f.job.id ∧ cursor' = cursor
    · obtain ⟨rfl, rfl⟩ := hid
      refine ⟨r', _, hr', List.find?_cons_of_pos (by simp [Database.commit_entry]), ?_⟩
      rw [hentry, hsame]
    · have hold : db.sync_job_cursor_visits.find (id, cursor') ≠ none := by
        rw [hw.visits, Table.find_insert hvisits, if_neg] at hvisited
        · exact hvisited
        · intro hkey
          exact hid ⟨congrArg Prod.fst hkey, congrArg Prod.snd hkey⟩
      obtain ⟨r₀, e, hr₀, he, hg⟩ := h.visit id cursor' hold
      have hlog : last_page_at (db.commit_entry f for_connection cursor :: log) id cursor'
          = some e := by
        rw [last_page_at, List.find?_cons_of_neg, ← last_page_at, he]
        intro hboth
        rw [Bool.and_eq_true] at hboth
        exact hid ⟨(of_decide_eq_true hboth.1).symm, (of_decide_eq_true hboth.2).symm⟩
      by_cases hsame_id : id = f.job.id
      · subst hsame_id
        rw [hr] at hr₀
        cases hr₀
        exact ⟨r', e, hr', hlog, by rw [hsame, hg]⟩
      · exact ⟨r₀, e, (hother id hsame_id).trans hr₀, hlog, hg⟩

end Tied

/-! ## Who brought a message -/

/-- The page brought a record of this key. -/
def Commit.brought (e : Commit) (key : String × String × String) : Bool :=
  decide (e.fetched.job.project_id = key.1) && decide (e.fetched.job.connection_id = key.2.1)
    && e.fetched.page.records.any (fun m => decide (m.id = key.2.2))

/-- The newest page that brought a record of this key. -/
def last_brought (log : List Commit) (key : String × String × String) : Option Commit :=
  log.find? (fun e => e.brought key)

/-- A message of a generation is that of the newest page that brought its key, which
was fetched by a claim of this generation. -/
def Database.Authored (log : List Commit) (db : Database) : Prop :=
  ∀ key row, db.synced_messages.find key = some row →
    ∀ generation, row.connection_generation = some generation →
      ∃ e, last_brought log key = some e
        ∧ e.fetched.job.connection_generation = generation
        ∧ row.message ∈ e.fetched.page.records

theorem store_messages_find (j : Job) (now : ℤ) (records : List Message)
    (t : Table StoredMessage.key) (key : String × String × String) :
    ((∀ m ∈ records, (j.message now m).key ≠ key)
        ∧ (records.foldl (store_message j now) t).find key = t.find key)
      ∨ ∃ m ∈ records, (j.message now m).key = key
        ∧ ∃ row, (records.foldl (store_message j now) t).find key = some row
          ∧ row.connection_generation = some j.connection_generation ∧ row.message = m := by
  induction records generalizing t with
  | nil => exact .inl ⟨fun m hm => absurd hm List.not_mem_nil, rfl⟩
  | cons m records ih =>
    rw [List.foldl_cons]
    rcases ih (store_message j now t m) with ⟨hnone, hsame⟩ | ⟨m', hm', hkey, hrow⟩
    · by_cases hkey : (j.message now m).key = key
      · refine .inr ⟨m, List.mem_cons_self, hkey, ?_⟩
        rw [hsame, ← hkey]
        refine ⟨_, Table.find_upsert_self t (j.message now m) (j.message now m).overwrite
          (fun _ => rfl), ?_⟩
        cases hfind : t.find (j.message now m).key with
        | none => exact ⟨rfl, rfl⟩
        | some old =>
          -- the row that is overwritten has the id of the record
          have hid : old.message.id = m.id :=
            congrArg (fun k => k.2.2) (Table.find_eq_some.mp hfind).2
          refine ⟨rfl, ?_⟩
          rw [Option.elim_some, StoredMessage.overwrite, hid]
          rfl
      · left
        refine ⟨?_, ?_⟩
        · intro m' hm'
          rcases List.mem_cons.mp hm' with rfl | hm'
          · exact hkey
          · exact hnone m' hm'
        · rw [hsame]
          exact Table.find_upsert_other t (j.message now m) (j.message now m).overwrite
            (fun _ => rfl) (Ne.symm hkey)
    · exact .inr ⟨m', List.mem_cons_of_mem _ hm', hkey, hrow⟩

variable {env : Env} {clock : ℤ} {cursor : String} {db' : Database} {P : Database → JobRow → Prop}
  {s : System}

theorem Paged.authored {now : ℤ} {f : Fetched} {connection : Option Connection} {log : List Commit}
    {db : Database} (for_connection : Bool)
    (hp : Paged env clock now f.job cursor f.page connection db db') (h : db.Authored log) :
    db'.Authored (db.commit_entry f for_connection cursor :: log) := by
  obtain ⟨visits, -, hw⟩ := hp.written
  intro key row hrow generation hgeneration
  rw [hw.messages] at hrow
  rcases store_messages_find f.job now f.page.records db.synced_messages key with
    ⟨hnone, hsame⟩ | ⟨m, hm, hkey, row', hrow', hg, hmessage⟩
  · rw [hsame] at hrow
    obtain ⟨e, he, hjob, hmem⟩ := h key row hrow generation hgeneration
    refine ⟨e, ?_, hjob, hmem⟩
    rw [last_brought, List.find?_cons_of_neg, ← last_brought, he]
    intro hbrought
    -- the page brought no record of the key
    simp only [Commit.brought, Bool.and_eq_true, List.any_eq_true] at hbrought
    obtain ⟨⟨hproject, hconnection⟩, m, hm, hid⟩ := hbrought
    apply hnone m hm
    have h1 : f.job.project_id = key.1 := of_decide_eq_true hproject
    have h2 : f.job.connection_id = key.2.1 := of_decide_eq_true hconnection
    have h3 : m.id = key.2.2 := of_decide_eq_true hid
    simp [StoredMessage.key, Job.message, h1, h2, h3]
  · rw [hrow'] at hrow
    cases hrow
    rw [hg] at hgeneration
    cases hgeneration
    refine ⟨_, List.find?_cons_of_pos ?_, rfl, ?_⟩
    · rw [← hkey]
      simp only [Commit.brought, Database.commit_entry, StoredMessage.key, Job.message,
        decide_true, Bool.true_and, List.any_eq_true]
      exact ⟨m, hm, decide_eq_true rfl⟩
    · rw [hmessage]
      exact hm

/-! ## Leases -/

/-- Every running job was claimed as it is. -/
def Database.Claimed (claims : List Job) (db : Database) : Prop :=
  ∀ id r, db.sync_jobs.find id = some r → r.status = .running →
    ∃ j ∈ claims, j.id = r.id ∧ j.worker_id = r.worker_id ∧ j.leased_until = r.leased_until
      ∧ j.connection_generation = r.connection_generation

section Claimed

variable {claims : List Job} {db : Database}

theorem Database.Claimed.update_job {id : String} {f : JobRow → JobRow}
    {hf : ∀ r, (f r).id = r.id} (h : db.Claimed claims)
    (hrunning : ∀ r, db.sync_jobs.find id = some r → (f r).status = .running →
      (f r).job ∈ claims) : (db.update_job id f hf).Claimed claims := by
  intro id' r hr hstatus
  rw [Database.update_job, Table.find_modify] at hr
  by_cases hid : id' = id
  · rw [if_pos hid] at hr
    obtain ⟨r₀, hr₀, rfl⟩ := Option.map_eq_some_iff.mp hr
    exact ⟨(f r₀).job, hrunning r₀ hr₀ hstatus, rfl, rfl, rfl, rfl⟩
  · rw [if_neg hid] at hr
    exact h id' r hr hstatus

variable {db' : Database}

theorem Database.Claimed.of_jobs (h : db.Claimed claims) (hjobs : db'.sync_jobs = db.sync_jobs) :
    db'.Claimed claims := by
  rw [Database.Claimed, hjobs]
  exact h

theorem Change.claimed {clock : ℤ} {P : Database → JobRow → Prop}
    (hc : Change clock P (fun row => row.job ∈ claims) db db') (h : db.Claimed claims) :
    db'.Claimed claims := by
  cases hc with
  | recorded events => exact h.of_jobs rfl
  | scheduled hinsert hP =>
    obtain ⟨c, -, hrow, jobs, hjobs, rfl⟩ := insert_job_inv hinsert
    intro id r hr hstatus
    rw [Table.find_insert hjobs] at hr
    split at hr
    next =>
      cases hr
      rw [hrow] at hstatus
      cases hstatus
    next => exact h id r hr hstatus
  | @cancelled j hfind hstale =>
    have hcancelled : (db.update_job j.id
        (fun r => r.cancel clock "connection generation changed")
        (fun _ => rfl)).Claimed claims :=
      h.update_job (fun _ _ hstatus => by cases hstatus)
    exact hcancelled.of_jobs rfl
  | expired attempts hfind => exact h.update_job (fun _ _ hstatus => by cases hstatus)
  | @taken j worker millis attempts hfind hclaimable hT =>
    refine h.update_job ?_
    intro r hr _
    rw [hfind] at hr
    cases hr
    exact hT
  | failed now millis terminal hlock =>
    refine h.update_job ?_
    intro r _ hstatus
    cases terminal <;> cases hstatus
  | @controlled r c action project_id account_id hfind hconnection hproject hallowed hP =>
    have hupdated : (db.update_job r.id
        (fun r => action.apply r clock c.connection_generation)
        (by intro r; cases action <;> rfl)).Claimed claims := by
      refine h.update_job ?_
      intro r _ hstatus
      cases action <;> cases hstatus
    rw [Database.apply_control]
    split
    next => exact hupdated.of_jobs rfl
    next => exact hupdated

theorem Paged.claimed {env : Env} {clock now : ℤ} {j : Job} {cursor : String} {page : Page}
    {connection : Option Connection} (hp : Paged env clock now j cursor page connection db db')
    (h : db.Claimed claims) : db'.Claimed claims := by
  obtain ⟨visits, -, hw⟩ := hp.written
  have hfinished : (db.update_job j.id (fun r => r.finish_page now page.next_cursor)
      (fun _ => rfl)).Claimed claims := by
    refine h.update_job ?_
    intro r _ hstatus
    rw [JobRow.finish_page] at hstatus
    dsimp only at hstatus
    split at hstatus <;> cases hstatus
  exact hfinished.of_jobs hw.jobs

end Claimed

theorem Change.connections {T : JobRow → Prop} {db : Database} (hc : Change clock P T db db') :
    db'.connections = db.connections := by
  cases hc with
  | scheduled hinsert hP =>
    obtain ⟨c, -, -, jobs, -, rfl⟩ := insert_job_inv hinsert
    rfl
  | controlled action project_id account_id hfind hconnection hproject hallowed hP =>
    rw [Database.apply_control]
    split <;> rfl
  | _ => rfl

theorem Change.messages {T : JobRow → Prop} {db : Database} (hc : Change clock P T db db') :
    db'.synced_messages = db.synced_messages := by
  cases hc with
  | scheduled hinsert hP =>
    obtain ⟨c, -, -, jobs, -, rfl⟩ := insert_job_inv hinsert
    rfl
  | controlled action project_id account_id hfind hconnection hproject hallowed hP =>
    rw [Database.apply_control]
    split <;> rfl
  | _ => rfl

/-! ## Runs -/

/-- What holds in every state of a run. -/
structure System.Isolated (s : System) : Prop where
  claimed : s.db.Claimed s.claims
  fetched : ∀ f ∈ s.fetched, f.generation = f.job.connection_generation
    ∧ f.connection.id = f.job.connection_id
  committed : ∀ e ∈ s.committed, e.fetched.generation = e.generation
    ∧ e.fetched.job.connection_generation = e.generation
    ∧ ∃ c, s.db.connections.find e.fetched.job.connection_id = some c
      ∧ e.generation ≤ c.connection_generation
      ∧ (e.generation = c.connection_generation →
        e.account = c.connection.external_account_id)
  tied : s.db.Tied s.committed
  authored : s.db.Authored s.committed

theorem System.Isolated.changes (h : s.Isolated) {claims : List Job} {db : Database}
    (hmore : s.claims ⊆ claims)
    (hc : ReflTransGen (Change s.clock P (fun row => row.job ∈ claims)) s.db db) :
    ({ s with db := db, claims := claims } : System).Isolated := by
  have hclaimed : s.db.Claimed claims := by
    intro id r hr hstatus
    obtain ⟨j, hj, hsame⟩ := h.claimed id r hr hstatus
    exact ⟨j, hmore hj, hsame⟩
  have hconnections : db.connections = s.db.connections :=
    changes_keep (I := fun d : Database => d.connections = s.db.connections)
      (fun _ _ hc h => hc.connections.trans h) hc rfl
  have hmessages : db.synced_messages = s.db.synced_messages :=
    changes_keep (I := fun d : Database => d.synced_messages = s.db.synced_messages)
      (fun _ _ hc h => hc.messages.trans h) hc rfl
  refine ⟨changes_keep (fun _ _ hc => Change.claimed hc) hc hclaimed, h.fetched, ?_,
    changes_keep (fun _ _ hc => Change.tied hc) hc h.tied, ?_⟩
  · intro e he
    change _ ∧ _ ∧ ∃ c, db.connections.find _ = some c ∧ _
    rw [hconnections]
    exact h.committed e he
  · intro key row hrow
    change db.synced_messages.find key = some row at hrow
    rw [hmessages] at hrow
    exact h.authored key row hrow

theorem System.Isolated.later (h : s.Isolated) {db : Database} (hlater : Later s.db db)
    (hjobs : db.sync_jobs = s.db.sync_jobs)
    (hcheckpoints : db.sync_job_checkpoints = s.db.sync_job_checkpoints)
    (hvisits : db.sync_job_cursor_visits = s.db.sync_job_cursor_visits)
    (hmessages : db.synced_messages = s.db.synced_messages) :
    ({ s with db := db } : System).Isolated := by
  refine ⟨h.claimed.of_jobs hjobs, h.fetched, ?_, ?_, ?_⟩
  · intro e he
    obtain ⟨hfetched, hjob, c, hc, hle, haccount⟩ := h.committed e he
    obtain ⟨c', hc', hadvance, hsame, -⟩ := hlater _ c hc
    refine ⟨hfetched, hjob, c', hc', hle.trans hadvance, ?_⟩
    intro heq
    have hstill : c'.connection_generation = c.connection_generation := by omega
    rw [hsame hstill]
    exact haccount (heq.trans hstill)
  · refine h.tied.of_jobs ?_ hcheckpoints hvisits
    intro id r hr _
    exact ⟨r, by rw [hjobs]; exact hr, rfl⟩
  · intro key row hrow
    change db.synced_messages.find key = some row at hrow
    rw [hmessages] at hrow
    exact h.authored key row hrow

theorem commit_generation (h : s.Isolated) {now : ℤ} {f : Fetched} {for_connection : Bool} {c : Row}
    (hf : f ∈ s.fetched) (hissued : for_connection = false → ¬ s.reissued f.job)
    (hp : Paged env s.clock now f.job cursor f.page
      (if for_connection then some f.connection else none) s.db db')
    (hc : s.db.connections.find f.job.connection_id = some c) :
    f.job.connection_generation = c.connection_generation := by
  cases hchecked : for_connection with
  | true =>
    rw [hchecked, if_pos rfl] at hp
    have hsame := hp.same f.connection rfl
    rw [Database.same_connection, (h.fetched f hf).2, hc] at hsame
    simp only [Option.any_some, Bool.and_eq_true, decide_eq_true_eq] at hsame
    exact hsame.2.symm
  | false =>
    -- the lease names the claim, and with it the generation
    obtain ⟨r, c', hr, hc', hstatus, hworker, huntil, hgeneration⟩ :=
      lock_connection_row hp.lock
    rw [hc] at hc'
    cases hc'
    obtain ⟨j, hj, hid, hj_worker, hj_until, hj_generation⟩ := h.claimed _ r hr hstatus
    by_contra hne
    apply hissued hchecked
    refine ⟨j, hj, hid.trans (Table.find_eq_some.mp hr).2, hj_worker.trans hworker,
      hj_until.trans huntil, ?_⟩
    rw [hj_generation, hgeneration]
    exact Ne.symm hne

/-- One step: fetches and commits stay with their generation. -/
theorem step_isolated {op : Op} (hgenuine : op.genuine s) (hunrepeated : op.unrepeated s)
    (h : s.Isolated) : (step env s op).Isolated := by
  have hsame : ∀ {db : Database} {P : Database → JobRow → Prop},
      ReflTransGen (Change s.clock P (fun row => row.job ∈ s.claims)) s.db db →
      ({ s with db := db } : System).Isolated :=
    fun hc => h.changes (fun _ hj => hj) hc
  cases op with
  | tick d => exact ⟨h.claimed, h.fetched, h.committed, h.tied, h.authored⟩
  | connect c =>
    refine h.later (connect_later s.db s.clock c) ?_ ?_ ?_ ?_ <;>
      (rw [Database.connect]; split <;> rfl)
  | update_connection id marker intent new =>
    exact h.later (update_connection_later _ _ _ _ _ _) rfl rfl rfl rfl
  | enqueue age r =>
    rw [step]
    cases hok : s.db.enqueue s.clock (s.clock - age) r with
    | error e => exact h
    | ok w => exact hsame (enqueue_changes (P := fun _ _ => True) hok (fun _ _ _ _ => trivial))
  | claim q =>
    rw [step]
    split
    next => exact h
    next j db hok =>
      refine h.changes (List.subset_append_right _ _)
        (claim_with_policy_changes (P := fun _ _ => True) hok ?_)
      rintro row rfl
      exact List.mem_append_left _ List.mem_cons_self
  | fetch j page connection =>
    rw [step]
    split
    next => exact h
    next f hf =>
      refine ⟨h.claimed, ?_, h.committed, h.tied, h.authored⟩
      intro f' hf'
      rcases List.mem_cons.mp hf' with rfl | hf'
      · rw [Database.fetch] at hf
        split at hf
        next => cases hf
        next hconnection =>
          obtain ⟨generation, -, hf⟩ := bind_eq_ok hf
          split at hf
          next => cases hf
          next hgeneration =>
            cases hf
            rw [not_or, not_not] at hconnection
            exact ⟨not_not.mp hgeneration, hconnection.1⟩
      · exact h.fetched f' hf'
  | commit_page age f for_connection cursor =>
    rw [step]
    split
    next => exact h
    next db hok =>
      have hp := commit_page_inv hok
      obtain ⟨visits, -, hw⟩ := hp.written
      obtain ⟨r, c, -, hc, -⟩ := lock_connection_row hp.lock
      have hgeneration := commit_generation h hgenuine hunrepeated hp hc
      refine ⟨hp.claimed h.claimed, h.fetched, ?_, hp.tied for_connection h.tied,
        hp.authored for_connection h.authored⟩
      intro e he
      change _ ∧ _ ∧ ∃ c, db.connections.find _ = some c ∧ _
      rw [hw.connections]
      rcases List.mem_cons.mp he with rfl | he
      · have hentry : (s.db.commit_entry f for_connection cursor).generation
            = c.connection_generation := by
          rw [Database.commit_entry, hc]
          rfl
        refine ⟨?_, ?_, c, hc, hentry.le, ?_⟩
        · rw [hentry, ← hgeneration]
          exact (h.fetched f hgenuine).1
        · rw [hentry]
          exact hgeneration
        · intro _
          rw [Database.commit_entry, hc]
          rfl
      · exact h.committed e he
  | fail age j delay terminal error =>
    rw [step]
    cases hok : s.db.fail_with_error s.clock (s.clock - age) j delay terminal error with
    | error e => exact h
    | ok w => exact hsame (fail_with_error_changes (P := fun _ _ => True) hok)
  | cancel_stale j =>
    rw [step]
    cases hok : s.db.cancel_stale s.clock j with
    | error e => exact h
    | ok w => exact hsame (cancel_stale_changes (P := fun _ _ => True) hok)
  | control project_id account_id job_id action =>
    rw [step]
    cases hok : s.db.control s.clock project_id account_id job_id action with
    | error e => exact h
    | ok w =>
      exact hsame (control_changes (P := fun _ _ => True) hok (fun _ _ _ _ _ _ _ _ => trivial))

theorem restart_forgets {db : Database} {project_id account_id job_id : String}
    {action : OperatorAction} {r : JobRow} {c : Row}
    (h : db.control clock project_id account_id job_id action = .ok ((), db'))
    (hrestarts : action.restarts = true) (hr : db.sync_jobs.find job_id = some r)
    (hc : db.connection_of r = some c)
    (hgeneration : r.connection_generation ≠ c.connection_generation) :
    db'.sync_job_checkpoints.find job_id = none
      ∧ ∀ cursor, db'.sync_job_cursor_visits.find (job_id, cursor) = none := by
  obtain ⟨r', c', events, -, hr', hproject, hc', -, rfl⟩ := control_inv h
  rw [hr] at hr'
  cases hr'
  have hid : r.id = job_id := (Table.find_eq_some.mp hr).2
  -- the connection of the operator's account is the one of the job
  obtain ⟨hfind', -⟩ := Option.filter_eq_some_iff.mp hc'
  obtain ⟨hfind, -⟩ := Option.filter_eq_some_iff.mp hc
  rw [hfind'] at hfind
  cases hfind
  have hforgets : (action.restarts
      && decide (r.connection_generation ≠ c.connection_generation)) = true := by
    rw [hrestarts, decide_eq_true hgeneration]
    rfl
  have happlied : db.apply_control clock action r c.connection_generation
      = (db.update_job r.id (fun r => action.apply r clock c.connection_generation)
        (by intro r; cases action <;> rfl)).forget r.id := by
    rw [Database.apply_control, if_pos hforgets]
  rw [happlied]
  refine ⟨?_, ?_⟩
  · exact (forget_checkpoint _ r.id job_id).trans (if_pos hid.symm)
  · intro cursor
    exact (forget_visit _ r.id job_id cursor).trans (if_pos hid.symm)

theorem cursor_current (h : s.Isolated) {j : Job} (hcursor : s.db.cursor s.clock j = .ok cursor) :
    cursor = "" ∨ ∃ c e, s.db.connections.find j.connection_id = some c
      ∧ last_page s.committed j.id = some e ∧ e.generation = c.connection_generation
      ∧ cursor = e.fetched.page.next_cursor := by
  rw [Database.cursor] at hcursor
  obtain ⟨⟨⟩, hlock, hpersisted⟩ := bind_eq_ok hcursor
  obtain ⟨r, c, hr, hc, -, -, -, hgeneration⟩ := lock_connection_row hlock
  rw [Database.persisted] at hpersisted
  split at hpersisted
  next =>
    cases hpersisted
    exact .inl rfl
  next cp hcp =>
    split at hpersisted
    next =>
      cases hpersisted
      obtain ⟨r', e, hr', he, hg, hnext⟩ := h.tied.checkpoint j.id cp hcp
      rw [hr] at hr'
      cases hr'
      exact .inr ⟨c, e, hc, he, hg.trans hgeneration, hnext⟩
    next => cases hpersisted

theorem listed_from_account (h : s.Isolated) {codec : CursorCodec} {before : Database}
    {q : StoredMessageQuery} {page : StoredMessagePage}
    (hlist : before.list_stored_messages codec s.db q = .ok page) {m : Message}
    (hm : m ∈ page.messages) :
    ∃ c e, s.db.connections.find q.connection_id = some c ∧ e ∈ s.committed
      ∧ e.fetched.job.connection_id = q.connection_id ∧ m ∈ e.fetched.page.records
      ∧ e.fetched.generation = c.connection_generation
      ∧ e.account = c.connection.external_account_id := by
  obtain ⟨row, c, hrow, rfl, hconnection, -, hc, hgeneration⟩ := listed_current hlist hm
  obtain ⟨e, he, hjob, hrecord⟩ := h.authored row.key row (Table.find_eq_some.mpr ⟨hrow, rfl⟩)
    c.connection_generation hgeneration
  have hmem : e ∈ s.committed := List.mem_of_find?_eq_some he
  have hbrought := List.find?_some he
  simp only [Commit.brought, Bool.and_eq_true] at hbrought
  have hsame : e.fetched.job.connection_id = q.connection_id :=
    (of_decide_eq_true hbrought.1.2).trans hconnection
  obtain ⟨hfetched, hclaim, c', hc', -, haccount⟩ := h.committed e hmem
  rw [hsame, hc] at hc'
  cases hc'
  rw [hjob] at hclaim
  exact ⟨c, e, hc, hmem, hsame, hrecord, hfetched.trans hclaim.symm, haccount hclaim.symm⟩

theorem Database.Fresh.isolated {db : Database} (h : db.Fresh) (clock : ℤ) :
    (System.init db clock).Isolated := by
  refine ⟨?_, fun f hf => absurd hf List.not_mem_nil, fun e he => absurd he List.not_mem_nil,
    ⟨?_, ?_⟩, ?_⟩
  · intro id r hr
    have hmem : r ∈ db.sync_jobs.rows := (Table.find_eq_some.mp hr).1
    rw [h.no_job] at hmem
    cases hmem
  · intro id cp hcp
    have hmem : cp ∈ db.sync_job_checkpoints.rows := (Table.find_eq_some.mp hcp).1
    rw [h.no_checkpoint] at hmem
    cases hmem
  · intro id cursor hvisited
    cases hfind : db.sync_job_cursor_visits.find (id, cursor) with
    | none => exact absurd hfind hvisited
    | some v =>
      have hmem : v ∈ db.sync_job_cursor_visits.rows := (Table.find_eq_some.mp hfind).1
      rw [h.no_visit] at hmem
      cases hmem
  · intro key row hrow generation hgeneration
    rw [h.legacy row (Table.find_eq_some.mp hrow).1] at hgeneration
    cases hgeneration

/-- **A sync does not cross a generation.** In every run whose workers commit what they
fetched under their claims, and commit without a connection only under a lease that was
given out once: a committed page was fetched under the generation of its commit; the
checkpoint and the visited cursors of a job were recorded under the generation of the
job, and what a worker goes on from under the current one; a restart under another
generation begins from the empty cursor; a listed message was fetched under the current
generation from the current account. -/
theorem sync_generation_isolation (env : Env) {db : Database} (hdb : db.Fresh) (clock : ℤ)
    {ops : List Op} (hops : Machine.Meets (step env)
      (fun s op => op.genuine s ∧ op.unrepeated s) (System.init db clock) ops) :
    let s := Machine.run (step env) (System.init db clock) ops
    (∀ e ∈ s.committed, e.fetched.generation = e.generation)
    ∧ s.db.Tied s.committed
    ∧ (∀ j cursor, s.db.cursor s.clock j = .ok cursor →
      cursor = "" ∨ ∃ c e, s.db.connections.find j.connection_id = some c
        ∧ last_page s.committed j.id = some e ∧ e.generation = c.connection_generation
        ∧ cursor = e.fetched.page.next_cursor)
    ∧ (∀ project_id account_id job_id action db' r c,
      s.db.control s.clock project_id account_id job_id action = .ok ((), db') →
      action.restarts = true → s.db.sync_jobs.find job_id = some r →
      s.db.connection_of r = some c → r.connection_generation ≠ c.connection_generation →
      db'.sync_job_checkpoints.find job_id = none
        ∧ ∀ cursor, db'.sync_job_cursor_visits.find (job_id, cursor) = none)
    ∧ (∀ codec (before : Database) (q : StoredMessageQuery) page,
      before.list_stored_messages codec s.db q = .ok page →
      ∀ m ∈ page.messages, ∃ c e, s.db.connections.find q.connection_id = some c
        ∧ e ∈ s.committed ∧ e.fetched.job.connection_id = q.connection_id
        ∧ m ∈ e.fetched.page.records ∧ e.fetched.generation = c.connection_generation
        ∧ e.account = c.connection.external_account_id) := by
  intro s
  have h : s.Isolated := hops.keeps (I := System.Isolated)
    (fun _ _ hop h => step_isolated hop.1 hop.2 h) (hdb.isolated clock)
  exact ⟨fun e he => (h.committed e he).1, h.tied, fun _ _ => cursor_current h,
    fun _ _ _ _ _ _ _ hok hrestarts hr hc hne => restart_forgets hok hrestarts hr hc hne,
    fun _ _ _ _ hlist _ hm => listed_from_account h hlist hm⟩

namespace Sample

/-- The connection after it was bound to another account. -/
def rebound : Connection := { connection with external_account_id := "second" }

/-- A worker fetches the first page of a job; the connection is bound to another account
before the page is committed for its connection; the job is restarted and its first page
fetched again and committed. -/
def rebind : List Op :=
  [.enqueue 0 (request "a"),
   .claim (claim "w" 20000),
   .fetch (job "a" "w" 20000000 1) (page "next") connection,
   .update_connection "c" none none rebound,
   .commit_page 0 ⟨job "a" "w" 20000000 1, page "next", connection, 1⟩ true "",
   .claim (claim "v" 20000),
   .control "p" "" "a" .RunNow,
   .claim (claim "v" 20000),
   .fetch (job "a" "v" 20000000 2) (page "next") rebound,
   .commit_page 0 ⟨job "a" "v" 20000000 2, page "next", rebound, 2⟩ true ""]

/-- As before, but the second claim has the worker and the end of the first one, and the
page of the first claim is committed without its connection. -/
def reissue : List Op :=
  [.enqueue 0 (request "a"),
   .claim (claim "w" 20000),
   .fetch (job "a" "w" 20000000 1) (page "next") connection,
   .update_connection "c" none none rebound,
   .claim (claim "v" 20000),
   .control "p" "" "a" .RunNow,
   .tick 10000000,
   .claim (claim "w" 10000),
   .commit_page 0 ⟨job "a" "w" 20000000 1, page "next", connection, 1⟩ false ""]

end Sample

/-- A page that is late for its connection is not committed, and the one that is fetched
after the restart is. -/
theorem rebind_isolated :
    let s := Machine.run (step Sample.env) (System.init Sample.database 0) Sample.rebind
    s.committed.length = 1 ∧ ∀ e ∈ s.committed, e.fetched.generation = e.generation := by
  intro s
  refine ⟨by decide, ?_⟩
  refine (@sync_generation_isolation Sample.env Sample.database Sample.database_fresh 0
    Sample.rebind
    ⟨⟨trivial, trivial⟩, ⟨trivial, trivial⟩, ⟨?_, trivial⟩, ⟨trivial, trivial⟩,
      ⟨?_, fun h => by cases h⟩, ⟨trivial, trivial⟩, ⟨trivial, trivial⟩, ⟨trivial, trivial⟩,
      ⟨?_, trivial⟩, ⟨?_, fun h => by cases h⟩, trivial⟩).1
  · show _ ∈ System.claims _
    decide
  · show _ ∈ System.fetched _
    decide
  · show _ ∈ System.claims _
    decide
  · show _ ∈ System.fetched _
    decide

/-- A page of the first account is committed under the generation of the second one,
through a lease that was given out twice. -/
theorem reissued_lease_crosses :
    let s := Machine.run (step Sample.env) (System.init Sample.database 0) Sample.reissue
    Machine.Meets (step Sample.env) (fun s op => op.genuine s) (System.init Sample.database 0)
        Sample.reissue
      ∧ ¬ ∀ e ∈ s.committed, e.fetched.generation = e.generation := by
  intro s
  refine ⟨⟨trivial, trivial, ?_, trivial, trivial, trivial, trivial, trivial, ?_, trivial⟩, ?_⟩
  · show _ ∈ System.claims _
    decide
  · show _ ∈ System.fetched _
    decide
  · intro h
    have hcrosses : ∃ e ∈ s.committed, e.fetched.generation ≠ e.generation := by
      decide
    obtain ⟨e, he, hne⟩ := hcrosses
    exact hne (h e he)

end Appcall.Sync
