/-
One running sync for each stream.

The jobs of a connection, an operation and a generation are a stream. A claim takes a
job only when no earlier one of the stream is unfinished, so while a job is worked on,
the earlier ones are over: this is the invariant, `Database.Exclusive`. What breaks it
is a job that becomes pending behind the back of a younger one: an operator brings a
failed or a cancelled job back, or a job is inserted by a transaction that began before
a younger job was inserted and claimed. A claim then takes the older job next to the
younger one. `one_running_sync_per_stream` says that nothing else breaks it.
-/
import Appcall.Sync.Changes
import Mathlib.Data.String.Basic

set_option autoImplicit false

namespace Appcall.Sync

open Relation (ReflTransGen)

/-! ## The invariant -/

/-- While a job is worked on, no earlier one of its stream is unfinished. -/
def Database.Exclusive (db : Database) (clock : ℤ) : Prop :=
  ∀ i k a b, db.sync_jobs.find i = some a → db.sync_jobs.find k = some b →
    b.leased clock = true → a.unfinished = true → a.same_stream b = true → a.before b = false

/-- A job that becomes pending has no younger one of its stream that is worked on. -/
def Database.Unobstructed (clock : ℤ) (db : Database) (row : JobRow) : Prop :=
  ∀ k b, db.sync_jobs.find k = some b → b.leased clock = true →
    row.same_stream b = true → row.before b = false

theorem before_irrefl (a : JobRow) : a.before a = false := by
  simp [JobRow.before]

theorem eq_id_of_not_before {a b : JobRow} (hab : a.before b = false) (hba : b.before a = false) :
    a.id = b.id := by
  simp only [JobRow.before, Bool.or_eq_false_iff, Bool.and_eq_false_iff, decide_eq_false_iff_not,
    not_lt] at hab hba
  have htime : a.created_at = b.created_at := le_antisymm hba.1 hab.1
  apply le_antisymm
  · exact hba.2.resolve_left (fun hne => hne htime.symm)
  · exact hab.2.resolve_left (fun hne => hne htime)

theorem unfinished_of_leased {r : JobRow} {clock : ℤ} (h : r.leased clock = true) :
    r.unfinished = true := by
  rw [JobRow.leased, Bool.and_eq_true] at h
  rw [JobRow.unfinished, h.1, Bool.or_true]

theorem same_stream_symm {a b : JobRow} (h : a.same_stream b = true) :
    b.same_stream a = true := by
  simp only [JobRow.same_stream, Bool.and_eq_true, decide_eq_true_eq] at h ⊢
  exact ⟨⟨h.1.1.symm, h.1.2.symm⟩, h.2.symm⟩

theorem leased_of_le {r : JobRow} {clock clock' : ℤ} (hle : clock ≤ clock')
    (h : r.leased clock' = true) : r.leased clock = true := by
  simp only [JobRow.leased, Bool.and_eq_true, Option.any_eq_true, decide_eq_true_eq] at h ⊢
  obtain ⟨hstatus, t, ht, hlt⟩ := h
  exact ⟨hstatus, t, ht, lt_of_le_of_lt hle hlt⟩

/-! ## What a rewritten row has to meet -/

section Writes

variable {clock : ℤ} {db : Database}

variable {db' : Database} {id : String} {j : JobRow} {f : JobRow → JobRow}
  {hf : ∀ r, (f r).id = r.id}

theorem Database.Exclusive.of_jobs (h : db.Exclusive clock) (hjobs : db'.sync_jobs = db.sync_jobs) :
    db'.Exclusive clock := by
  rw [Database.Exclusive, hjobs]
  exact h

theorem Database.Exclusive.update_job (h : db.Exclusive clock)
    (hfind : db.sync_jobs.find id = some j)
    (hearlier : (f j).unfinished = true → ∀ k b, k ≠ id → db.sync_jobs.find k = some b →
      b.leased clock = true → (f j).same_stream b = true → (f j).before b = false)
    (hleased : (f j).leased clock = true → ∀ i a, i ≠ id → db.sync_jobs.find i = some a →
      a.unfinished = true → a.same_stream (f j) = true → a.before (f j) = false) :
    (db.update_job id f hf).Exclusive clock := by
  intro i k a b ha hb hb_leased ha_unfinished hstream
  rw [Database.update_job, Table.find_modify] at ha hb
  by_cases hi : i = id
  · rw [if_pos hi, hfind] at ha
    cases ha
    by_cases hk : k = id
    · rw [if_pos hk, hfind] at hb
      cases hb
      exact before_irrefl _
    · rw [if_neg hk] at hb
      exact hearlier ha_unfinished k b hk hb hb_leased hstream
  · rw [if_neg hi] at ha
    by_cases hk : k = id
    · rw [if_pos hk, hfind] at hb
      cases hb
      exact hleased hb_leased i a hi ha ha_unfinished hstream
    · rw [if_neg hk] at hb
      exact h i k a b ha hb hb_leased ha_unfinished hstream

theorem Database.Exclusive.close (h : db.Exclusive clock) (hfind : db.sync_jobs.find id = some j)
    (hclosed : (f j).unfinished = false) : (db.update_job id f hf).Exclusive clock := by
  refine h.update_job hfind ?_ ?_
  · intro hunfinished
    rw [hclosed] at hunfinished
    cases hunfinished
  · intro hleased
    rw [unfinished_of_leased hleased] at hclosed
    cases hclosed

theorem Database.Exclusive.give_back (h : db.Exclusive clock)
    (hfind : db.sync_jobs.find id = some j) (hunfinished : j.unfinished = true)
    (hnot : (f j).leased clock = false) (hstream : ∀ b, (f j).same_stream b = j.same_stream b)
    (hbefore : ∀ b, (f j).before b = j.before b) : (db.update_job id f hf).Exclusive clock := by
  refine h.update_job hfind ?_ ?_
  · intro _ k b _ hb hleased hsame
    rw [hstream] at hsame
    rw [hbefore]
    exact h id k j b hfind hb hleased hunfinished hsame
  · intro hleased
    rw [hnot] at hleased
    cases hleased

theorem claimable_inv (h : db.claimable clock j = true) :
    j.unfinished = true ∧ db.has_earlier j j.connection_generation = false := by
  rw [Database.claimable, Option.any_eq_true] at h
  obtain ⟨c, -, h⟩ := h
  simp only [Bool.and_eq_true, Bool.or_eq_true, decide_eq_true_eq, Bool.not_eq_true'] at h
  obtain ⟨⟨hgeneration, hdue⟩, hearlier⟩ := h
  refine ⟨?_, by rw [hgeneration]; exact hearlier⟩
  rcases hdue with ⟨hpending, -⟩ | ⟨hrunning, -⟩
  · simp [JobRow.unfinished, hpending]
  · simp [JobRow.unfinished, hrunning]

theorem Database.Exclusive.take (h : db.Exclusive clock) (hfind : db.sync_jobs.find j.id = some j)
    (hclaimable : db.claimable clock j = true) (worker : String) (millis : ℕ)
    (attempts : JobRow → ℕ) : (db.update_job j.id (fun r => r.take clock worker millis (attempts r))
      (fun _ => rfl)).Exclusive clock := by
  obtain ⟨hunfinished, hearlier⟩ := claimable_inv hclaimable
  refine h.update_job hfind ?_ ?_
  · intro _ k b _ hb hleased hsame
    exact h j.id k j b hfind hb hleased hunfinished hsame
  · intro _ i a _ ha ha_unfinished hsame
    have hmem : a ∈ db.sync_jobs.rows := (Table.find_eq_some.mp ha).1
    rw [Database.has_earlier, List.any_eq_false] at hearlier
    have hnot := hearlier a hmem
    have hstream : a.same_stream j = true := hsame
    rw [JobRow.same_stream] at hstream
    rw [hstream, ha_unfinished, Bool.and_true, Bool.true_and, Bool.not_eq_true] at hnot
    exact hnot

theorem Database.Exclusive.control {r : JobRow} (h : db.Exclusive clock)
    (hfind : db.sync_jobs.find r.id = some r) (action : OperatorAction) (generation : ℕ)
    (hP : action.restarts = true →
      db.Unobstructed clock (action.apply r clock generation)) :
    (db.apply_control clock action r generation).Exclusive clock := by
  have hupdated : (db.update_job r.id (fun r => action.apply r clock generation)
      (by intro r; cases action <;> rfl)).Exclusive clock := by
    by_cases hrestarts : action.restarts = true
    · refine h.update_job hfind ?_ ?_
      · intro _ k b _ hb hleased hsame
        exact hP hrestarts k b hb hleased hsame
      · intro hleased
        have hpending : (action.apply r clock generation).leased clock = false := by
          cases action with
          | RunNow => rfl
          | ResetAttempts => rfl
          | Cancel => cases hrestarts
        rw [hpending] at hleased
        cases hleased
    · cases action with
      | RunNow => exact absurd rfl hrestarts
      | ResetAttempts => exact absurd rfl hrestarts
      | Cancel => exact h.close hfind rfl
  rw [Database.apply_control]
  split
  next => exact hupdated.of_jobs rfl
  next => exact hupdated

theorem Database.Exclusive.schedule {started : ℤ} {r : ScheduleRequest} {row : JobRow}
    (h : db.Exclusive clock) (hinsert : db.insert_job started r = some (row, db'))
    (hP : db.Unobstructed clock row) : db'.Exclusive clock := by
  obtain ⟨c, -, hrow, jobs, hjobs, rfl⟩ := insert_job_inv hinsert
  intro i k a b ha hb hb_leased ha_unfinished hstream
  rw [Table.find_insert hjobs] at ha hb
  by_cases hk : k = row.id
  · -- the new job is not worked on
    rw [if_pos hk] at hb
    cases hb
    rw [hrow] at hb_leased
    cases hb_leased
  · rw [if_neg hk] at hb
    by_cases hi : i = row.id
    · rw [if_pos hi] at ha
      cases ha
      exact hP k b hb hb_leased hstream
    · rw [if_neg hi] at ha
      exact h i k a b ha hb hb_leased ha_unfinished hstream

theorem lock_unfinished {j : Job} (h : db.lock clock j = .ok ()) :
    ∃ r, db.sync_jobs.find j.id = some r ∧ r.unfinished = true := by
  obtain ⟨r, c, hfind, -, hholds, -⟩ := lock_inv h
  rw [Job.holds, Bool.and_eq_true] at hholds
  exact ⟨r, hfind, unfinished_of_leased hholds.2⟩

theorem Change.exclusive (hc : Change clock (Database.Unobstructed clock) (fun _ => True) db db')
    (h : db.Exclusive clock) : db'.Exclusive clock := by
  cases hc with
  | recorded events => exact h.of_jobs rfl
  | scheduled hinsert hP => exact h.schedule hinsert hP
  | @cancelled j hfind hstale =>
    have hclosed : (db.update_job j.id
        (fun r => r.cancel clock "connection generation changed")
        (fun _ => rfl)).Exclusive clock := h.close hfind rfl
    exact hclosed.of_jobs rfl
  | expired attempts hfind => exact h.close hfind rfl
  | taken worker millis attempts hfind hclaimable hT =>
    exact h.take hfind hclaimable worker millis attempts
  | failed now millis terminal hlock =>
    obtain ⟨r, hfind, hunfinished⟩ := lock_unfinished hlock
    refine h.give_back hfind hunfinished ?_ (fun _ => rfl) (fun _ => rfl)
    cases terminal <;> rfl
  | controlled action project_id account_id hfind hconnection hproject hallowed hP =>
    exact h.control hfind action _ hP

theorem Paged.exclusive {env : Env} {now : ℤ} {j : Job} {cursor : String} {page : Page}
    {connection : Option Oauth.Connection}
    (hp : Paged env clock now j cursor page connection db db') (h : db.Exclusive clock) :
    db'.Exclusive clock := by
  obtain ⟨r, hfind, hunfinished⟩ := lock_unfinished hp.lock
  obtain ⟨visits, -, hw⟩ := hp.written
  have hback : (db.update_job j.id (fun r => r.finish_page now page.next_cursor)
      (fun _ => rfl)).Exclusive clock := by
    refine h.give_back hfind hunfinished ?_ (fun _ => rfl) (fun _ => rfl)
    exact Bool.and_false _
  exact hback.of_jobs hw.jobs

end Writes

/-! ## Runs -/

/-- The row that a step makes pending by a request or a control. -/
def Op.revived (s : System) : Op → Option JobRow
  | .enqueue age r =>
    if r.validate = .ok () then (s.db.insert_job (s.clock - age) r).map Prod.fst else none
  | .control project_id account_id job_id action =>
    if valid_control project_id account_id job_id && action.restarts then
      match (s.db.sync_jobs.find job_id).filter
          (fun r => decide (r.project_id = project_id)) with
      | none => none
      | some r =>
        match s.db.controlled_connection project_id account_id r with
        | none => none
        | some c =>
          if action.allowed r s.clock then
            some (action.apply r s.clock c.connection_generation)
          else none
    else none
  | _ => none

/-- The row that a step makes pending has no younger one of its stream that is worked
on. -/
def Op.unobstructed (s : System) (op : Op) : Prop :=
  ∀ row, op.revived s = some row → s.db.Unobstructed s.clock row

variable {s : System}

theorem step_exclusive {env : Env} {op : Op} (hop : op.unobstructed s)
    (h : s.db.Exclusive s.clock) :
    (step env s op).db.Exclusive (step env s op).clock := by
  cases op with
  | tick d =>
    intro i k a b ha hb hleased
    exact h i k a b ha hb (leased_of_le (by simp [step]) hleased)
  | connect c =>
    refine h.of_jobs ?_
    change (s.db.connect s.clock c).sync_jobs = _
    rw [Database.connect]
    split <;> rfl
  | update_connection id marker intent new => exact h.of_jobs rfl
  | enqueue age r =>
    refine commit_keeps (I := fun db : Database => db.Exclusive s.clock) h ?_
    intro j db hok
    refine changes_keep (fun _ _ hc => Change.exclusive hc) (enqueue_changes hok ?_) h
    intro row db' hvalid hinsert
    apply hop row
    rw [Op.revived, if_pos hvalid, hinsert]
    rfl
  | claim q =>
    rw [step]
    split
    next => exact h
    next j db hok =>
      exact changes_keep (fun _ _ hc => Change.exclusive hc) 
        (claim_with_policy_changes hok (fun _ _ => trivial)) h
  | fetch j page connection =>
    rw [step]
    split
    next => exact h
    next => exact h
  | commit_page age f for_connection cursor =>
    rw [step]
    split
    next => exact h
    next db hok => exact (commit_page_inv hok).exclusive h
  | fail age j delay terminal error =>
    refine commit_keeps (I := fun db : Database => db.Exclusive s.clock) h ?_
    intro u db hok
    exact changes_keep (fun _ _ hc => Change.exclusive hc) (fail_with_error_changes hok) h
  | cancel_stale j =>
    refine commit_keeps (I := fun db : Database => db.Exclusive s.clock) h ?_
    intro u db hok
    exact changes_keep (fun _ _ hc => Change.exclusive hc) (cancel_stale_changes hok) h
  | control project_id account_id job_id action =>
    refine commit_keeps (I := fun db : Database => db.Exclusive s.clock) h ?_
    intro u db hok
    refine changes_keep (fun _ _ hc => Change.exclusive hc) (control_changes hok ?_) h
    intro r c hvalid hfind hproject hc hallowed hrestarts
    apply hop
    have hr : (some r).filter (fun r => decide (r.project_id = project_id)) = some r := by
      rw [Option.filter_some, if_pos (decide_eq_true hproject)]
    simp only [Op.revived, hvalid, hrestarts, hfind, hr, hc, hallowed, Bool.and_self, if_true]

/-- At most one job of a stream is worked on. -/
def System.OneRunning (s : System) : Prop :=
  ∀ a ∈ s.db.sync_jobs.rows, ∀ b ∈ s.db.sync_jobs.rows,
    a.leased s.clock = true → b.leased s.clock = true →
    a.connection_id = b.connection_id → a.operation = b.operation →
    a.connection_generation = b.connection_generation → a = b

theorem Database.Exclusive.one_running (h : s.db.Exclusive s.clock) : s.OneRunning := by
  intro a ha b hb ha_leased hb_leased hconnection hoperation hgeneration
  have hfind_a : s.db.sync_jobs.find a.id = some a := Table.find_eq_some.mpr ⟨ha, rfl⟩
  have hfind_b : s.db.sync_jobs.find b.id = some b := Table.find_eq_some.mpr ⟨hb, rfl⟩
  have hsame : a.same_stream b = true := by
    simp [JobRow.same_stream, hconnection, hoperation, hgeneration]
  have hid : a.id = b.id := eq_id_of_not_before
    (h a.id b.id a b hfind_a hfind_b hb_leased (unfinished_of_leased ha_leased) hsame)
    (h b.id a.id b a hfind_b hfind_a ha_leased (unfinished_of_leased hb_leased)
      (same_stream_symm hsame))
  rw [hid, hfind_b] at hfind_a
  exact (Option.some.inj hfind_a).symm

/-- **One running sync per stream**, in every run whose steps make a job pending only
while no younger one of its stream is worked on. -/
theorem one_running_sync_per_stream (env : Env) {db : Database} (hdb : db.Fresh) (clock : ℤ)
    {ops : List Op}
    (hops : Machine.Meets (step env) (fun s op => op.unobstructed s) (System.init db clock) ops) :
    (Machine.run (step env) (System.init db clock) ops).OneRunning := by
  have hstart : (System.init db clock).db.Exclusive (System.init db clock).clock := by
    intro i k a b ha
    have hmem : a ∈ db.sync_jobs.rows := (Table.find_eq_some.mp ha).1
    rw [hdb.no_job] at hmem
    cases hmem
  have hend : ∀ s : System, s = Machine.run (step env) (System.init db clock) ops →
      s.db.Exclusive s.clock := by
    rintro s rfl
    exact hops.keeps (I := fun s : System => s.db.Exclusive s.clock)
      (fun _ _ hop h => step_exclusive hop h) hstart
  exact (hend _ rfl).one_running

theorem unobstructed_of_rows {op : Op} {row : JobRow} (hrow : op.revived s = some row)
    (h : ∀ b ∈ s.db.sync_jobs.rows, b.leased s.clock = true → row.same_stream b = true →
      row.before b = false) : op.unobstructed s := by
  intro row' hrow' k b hb
  rw [hrow] at hrow'
  cases hrow'
  exact h b (Table.find_eq_some.mp hb).1

theorem unobstructed_of_none {op : Op} (h : op.revived s = none) : op.unobstructed s := by
  intro row hrow
  rw [h] at hrow
  cases hrow

namespace Sample

/-- A second job of the stream is enqueued behind one that is worked on. That one fails
for good and is reset by an operator, while nobody works. -/
def reset_alone : List Op :=
  [.enqueue 0 (request "a"),
   .claim (claim "w" 60000),
   .tick 1,
   .enqueue 0 (request "b"),
   .fail 0 (job "a" "w" 60000000 1) 0 true none,
   .control "p" "" "a" .ResetAttempts,
   .claim (claim "v" 60000),
   .claim (claim "w" 60000)]

/-- A job fails for good, the next job of the stream is claimed, and an operator resets
the failed one. -/
def reset_behind : List Op :=
  [.enqueue 0 (request "a"),
   .claim (claim "w" 60000),
   .fail 0 (job "a" "w" 60000000 1) 0 true none,
   .tick 1,
   .enqueue 0 (request "b"),
   .claim (claim "w" 60000),
   .control "p" "" "a" .ResetAttempts,
   .claim (claim "v" 60000)]

end Sample

/-- A run in which the first of two jobs is reset and claimed again: the other waits. -/
theorem reset_alone_runs_once :
    (Machine.run (step Sample.env) (System.init Sample.database 0)
      Sample.reset_alone).OneRunning := by
  apply one_running_sync_per_stream Sample.env Sample.database_fresh 0
  refine ⟨unobstructed_of_rows rfl ?_, unobstructed_of_none rfl, unobstructed_of_none rfl,
    unobstructed_of_rows rfl ?_, unobstructed_of_none rfl, unobstructed_of_rows rfl ?_,
    unobstructed_of_none rfl, unobstructed_of_none rfl, trivial⟩
  · decide
  -- the younger job comes behind the one that is worked on
  · decide
  · decide

/-- Two jobs of one stream are running under leases that hold. -/
theorem reset_behind_runs_twice :
    ¬ (Machine.run (step Sample.env) (System.init Sample.database 0)
      Sample.reset_behind).OneRunning := by
  intro h
  have hboth : ∃ a ∈ (Machine.run (step Sample.env) (System.init Sample.database 0)
        Sample.reset_behind).db.sync_jobs.rows,
      ∃ b ∈ (Machine.run (step Sample.env) (System.init Sample.database 0)
        Sample.reset_behind).db.sync_jobs.rows,
      a.leased (Machine.run (step Sample.env) (System.init Sample.database 0)
          Sample.reset_behind).clock = true
        ∧ b.leased (Machine.run (step Sample.env) (System.init Sample.database 0)
          Sample.reset_behind).clock = true
        ∧ a.same_stream b = true ∧ a ≠ b := by
    decide
  obtain ⟨a, ha, b, hb, ha_leased, hb_leased, hstream, hne⟩ := hboth
  simp only [JobRow.same_stream, Bool.and_eq_true, decide_eq_true_eq] at hstream
  exact hne (h a ha b hb ha_leased hb_leased hstream.1.1 hstream.1.2 hstream.2)

end Appcall.Sync
