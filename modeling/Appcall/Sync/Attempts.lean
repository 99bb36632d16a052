/-
The attempts of sync jobs over whole runs.

Every transaction changes jobs by transitions that record what they do, so the history of a
job tells its attempts and whether it has failed. Attempts are counted in two places: a
claim of a job whose lease ran out adds one, up to what the policy allows, and a failure
adds one to the row, while the worker decides from the attempts it saw at the claim whether
that was the last one. The two agree because the attempts of a job do not change while its
lease is held; a lease is told apart by its worker and its end, and with leases of one
length two of them end together only when they were given at the same moment.
-/
import Appcall.Lib.Decimal
import Appcall.Sync.History

set_option autoImplicit false

namespace Appcall.Sync

open Appcall.Oauth (Connection Row)
open Relation (ReflTransGen)

/-! ## Jobs and their events -/

structure Book where
  jobs : Table JobRow.id
  events : Table JobEvent.key

def Database.book (db : Database) : Book := ⟨db.sync_jobs, db.sync_job_events⟩

/-- A new job, or a change of one job, with its events. -/
inductive Turn (max_attempts : ℕ) (resets : String → Prop) (taken : JobRow → Prop)
    (b b' : Book) : Prop where
  | scheduled {r : JobRow} (hfree : b.jobs.find r.id = none) (hstatus : r.status = .pending)
      (hattempts : r.attempts = 0)
      (hjobs : ∀ id, b'.jobs.find id = if id = r.id then some r else b.jobs.find id)
      (hevents : Recorded r.id b.events [(.scheduled, scheduled_detail "new_job")] b'.events)
  | moved {r r' : JobRow} {entries : List (EventKind × Detail)}
      (hfind : b.jobs.find r.id = some r) (hid : r'.id = r.id)
      (htransition : Transition max_attempts resets taken r r' entries)
      (hjobs : ∀ id, b'.jobs.find id = if id = r.id then some r' else b.jobs.find id)
      (hevents : Recorded r.id b.events entries b'.events)

/-- Every event is of a job, and every row agrees with its history. -/
structure Book.Balanced (max_attempts : ℕ) (b : Book) : Prop where
  owned : ∀ e ∈ b.events.rows, b.jobs.find e.job_id ≠ none
  accounted : ∀ id r, b.jobs.find id = some r → Accounted max_attempts r (history b.events id)

section Turns

variable {max_attempts : ℕ} {resets : String → Prop} {taken : JobRow → Prop} {b b' : Book}

variable {id : String} {entries : List (EventKind × Detail)} {r : JobRow}

theorem Book.Balanced.history_nil (h : b.Balanced max_attempts) (hfree : b.jobs.find id = none) :
    history b.events id = [] := by
  rw [history, List.filter_eq_nil_iff]
  intro e he hid
  rw [decide_eq_true_eq] at hid
  exact h.owned e he (by rw [hid]; exact hfree)

theorem owned_of_recorded (h : ∀ e ∈ b.events.rows, b.jobs.find e.job_id ≠ none)
    (hjobs : ∀ id, b'.jobs.find id = if id = r.id then some r else b.jobs.find id)
    (hevents : Recorded r.id b.events entries b'.events) :
    ∀ e ∈ b'.events.rows, b'.jobs.find e.job_id ≠ none := by
  intro e he
  rw [hjobs]
  by_cases hid : e.job_id = r.id
  · rw [if_pos hid]
    exact Option.some_ne_none _
  · rw [if_neg hid]
    exact h e ((hevents.mem he).resolve_left hid)

/-- **A turn keeps the balance.** -/
theorem Turn.balanced (h : Turn max_attempts resets taken b b') (hpos : 0 < max_attempts)
    (hb : b.Balanced max_attempts) : b'.Balanced max_attempts := by
  cases h with
  | @scheduled r hfree hstatus hattempts hjobs hevents =>
    refine ⟨owned_of_recorded hb.owned hjobs hevents, fun id row hrow => ?_⟩
    rw [hjobs] at hrow
    by_cases hid : id = r.id
    · rw [if_pos hid, Option.some.injEq] at hrow
      subst hrow hid
      have hnil := hb.history_nil hfree
      obtain ⟨hnumbered, new, hnew, hentries⟩ := hevents.job (by rw [hnil]; rfl)
      obtain ⟨e, rfl, hkind, hdetail⟩ := singleton_of_map hentries
      obtain ⟨hresets, hspends, hterminal⟩ := run_now_event hkind (.inr hdetail)
      refine ⟨hnumbered, ?_, by omega, ?_⟩
      · rw [hnew, hnil, spent_append_singleton, hresets, hspends, hattempts]
        rfl
      · rw [hnew, ended_append_singleton, hterminal, hstatus]
        simp only [reduceCtorEq, Bool.false_eq_true, or_false, false_iff]
        omega
    · rw [if_neg hid] at hrow
      rw [hevents.other hid]
      exact hb.accounted id row hrow
  | @moved r r' entries hfind hid htransition hjobs hevents =>
    refine ⟨?_, fun id row hrow => ?_⟩
    · rw [← hid] at hjobs hevents
      exact owned_of_recorded hb.owned hjobs hevents
    · rw [hjobs] at hrow
      by_cases hsame : id = r.id
      · rw [if_pos hsame, Option.some.injEq] at hrow
        subst hrow hsame
        have hr := hb.accounted r.id r hfind
        obtain ⟨hnumbered, new, hnew, hentries⟩ := hevents.job hr.numbered
        rw [hnew] at hnumbered ⊢
        exact htransition.accounted hpos hr hnumbered hentries
      · rw [if_neg hsame] at hrow
        rw [hevents.other hsame]
        exact hb.accounted id row hrow

theorem turns_balanced (h : ReflTransGen (Turn max_attempts resets taken) b b')
    (hpos : 0 < max_attempts) (hb : b.Balanced max_attempts) : b'.Balanced max_attempts := by
  induction h with
  | refl => exact hb
  | tail _ hlast ih => exact hlast.balanced hpos ih

theorem turns_running (h : ReflTransGen (Turn max_attempts resets taken) b b')
    (hr : b'.jobs.find id = some r) (hstatus : r.status = .running) :
    b.jobs.find id = some r ∨ taken r := by
  induction h with
  | refl => exact .inl hr
  | tail _ hlast ih =>
    cases hlast with
    | scheduled hfree hpending hattempts hjobs hevents =>
      rw [hjobs] at hr
      split at hr
      next =>
        cases hr
        rw [hpending] at hstatus
        cases hstatus
      next => exact ih hr
    | moved hfind hid htransition hjobs hevents =>
      rw [hjobs] at hr
      split at hr
      next =>
        cases hr
        cases htransition with
        | claimed detail hbefore hafter hattempts htaken => exact .inr htaken
        | reclaimed detail hbefore hafter hattempts hbound htaken => exact .inr htaken
        | expired hbefore hafter hattempts hbound => rw [hafter] at hstatus; cases hstatus
        | page page hbefore hafter hattempts => rw [hafter] at hstatus; cases hstatus
        | last_page page hbefore hafter hattempts => rw [hafter] at hstatus; cases hstatus
        | retried millis cause hbefore hafter hattempts hbound hcause =>
          rw [hafter] at hstatus
          cases hstatus
        | failed cause hbefore hafter hattempts hbound => rw [hafter] at hstatus; cases hstatus
        | cancelled reason hbefore hafter hattempts => rw [hafter] at hstatus; cases hstatus
        | run_now hbefore hafter hattempts => rw [hafter] at hstatus; cases hstatus
        | reset hreset hafter hattempts => rw [hafter] at hstatus; cases hstatus
      next => exact ih hr

theorem Transition.of_failed {r' : JobRow} (h : Transition max_attempts resets taken r r' entries)
    (hstatus : r.status = .failed) : resets r.id := by
  cases h with
  | reset hreset hafter hattempts => exact hreset
  | run_now hbefore hafter hattempts => exact absurd hstatus hbefore
  | cancelled reason hbefore hafter hattempts =>
    rw [hstatus] at hbefore
    rcases hbefore with hbefore | hbefore
    · cases hbefore
    · cases hbefore
  | claimed detail hbefore hafter hattempts htaken => rw [hstatus] at hbefore; cases hbefore
  | reclaimed detail hbefore hafter hattempts hbound htaken =>
    rw [hstatus] at hbefore
    cases hbefore
  | expired hbefore hafter hattempts hbound => rw [hstatus] at hbefore; cases hbefore
  | page page hbefore hafter hattempts => rw [hstatus] at hbefore; cases hbefore
  | last_page page hbefore hafter hattempts => rw [hstatus] at hbefore; cases hbefore
  | retried millis cause hbefore hafter hattempts hbound hcause =>
    rw [hstatus] at hbefore
    cases hbefore
  | failed cause hbefore hafter hattempts hbound => rw [hstatus] at hbefore; cases hbefore

theorem turns_failed (h : ReflTransGen (Turn max_attempts resets taken) b b')
    (hr : b.jobs.find id = some r) (hstatus : r.status = .failed) (hresets : ¬ resets id) :
    b'.jobs.find id = some r := by
  induction h with
  | refl => exact hr
  | tail _ hlast ih =>
    cases hlast with
    | @scheduled row hfree hpending hattempts hjobs hevents =>
      rw [hjobs, if_neg, ih]
      rintro rfl
      rw [ih] at hfree
      cases hfree
    | @moved row row' entries hfind hid htransition hjobs hevents =>
      rw [hjobs, if_neg, ih]
      rintro rfl
      rw [ih, Option.some.injEq] at hfind
      subst hfind
      exact hresets (htransition.of_failed hstatus)

end Turns

/-! ## Transactions are turns -/

section Transactions

variable {max_attempts : ℕ} {resets : String → Prop} {taken : JobRow → Prop} {db db' : Database}
  {clock : ℤ}

theorem turn_of_update {r : JobRow} (f : JobRow → JobRow) (hf : ∀ r, (f r).id = r.id)
    {entries : List (EventKind × Detail)} (hfind : db.sync_jobs.find r.id = some r)
    (htransition : Transition max_attempts resets taken r (f r) entries)
    (hjobs : db'.sync_jobs = (db.update_job r.id f hf).sync_jobs)
    (hevents : Recorded r.id db.sync_job_events entries db'.sync_job_events) :
    Turn max_attempts resets taken db.book db'.book := by
  refine .moved hfind (hf r) htransition (fun id => ?_) hevents
  change db'.sync_jobs.find id = if id = r.id then some (f r) else db.sync_jobs.find id
  rw [hjobs, Database.update_job, Table.find_modify, hfind, Option.map_some]

theorem append_event_jobs {job_id : String} {kind : EventKind} {detail : Detail}
    (h : db.append_event clock job_id kind detail = .ok db') : db'.sync_jobs = db.sync_jobs := by
  obtain ⟨events, -, rfl⟩ := append_event_writes h
  rfl

theorem enqueue_turns {started : ℤ} {r : ScheduleRequest} {j : Job}
    (h : db.enqueue clock started r = .ok (j, db')) :
    ReflTransGen (Turn max_attempts resets taken) db.book db'.book := by
  rw [Database.enqueue] at h
  obtain ⟨⟨⟩, -, h⟩ := bind_eq_ok h
  split at h
  next row db₁ hinsert =>
    obtain ⟨db₂, hevent, h⟩ := bind_eq_ok h
    cases h
    obtain ⟨c, -, hrow, jobs, hjobs, rfl⟩ := insert_job_inv hinsert
    refine .single (.scheduled (r := row) (Table.insert_eq_some hjobs).1 (by rw [hrow]; rfl)
      (by rw [hrow]; rfl) (fun id => ?_) (append_event_recorded hevent .none :))
    change db'.sync_jobs.find id = _
    rw [append_event_jobs hevent]
    exact Table.find_insert hjobs id
  next =>
    split at h
    next => cases h
    next =>
      split at h
      next => cases h
      next =>
        cases h
        exact .refl

theorem cancel_turn {j : JobRow} {reason : String} (hfind : db.sync_jobs.find j.id = some j)
    (hunfinished : j.unfinished = true)
    (hevent : (db.cancel_job clock j.id).append_event clock j.id .cancelled
      { reason := some reason } = .ok db') :
    Turn max_attempts resets taken db.book db'.book := by
  rw [JobRow.unfinished, Bool.or_eq_true, decide_eq_true_eq, decide_eq_true_eq] at hunfinished
  exact turn_of_update (fun r => r.cancel clock "connection generation changed") (fun _ => rfl)
    hfind (.cancelled reason hunfinished rfl rfl) (append_event_jobs hevent :)
    (append_event_recorded hevent .none :)

theorem cancel_stale_jobs_turns {locked : ℕ → JobRow → Bool} {n : ℕ}
    (h : Database.cancel_stale_jobs clock locked n db = .ok db') :
    ReflTransGen (Turn max_attempts resets taken) db.book db'.book := by
  induction n generalizing db with
  | zero =>
    cases h
    exact .refl
  | succ n ih =>
    rw [Database.cancel_stale_jobs] at h
    split at h
    next =>
      cases h
      exact .refl
    next j hfirst =>
      obtain ⟨hfind, hstale⟩ := find_of_first hfirst
      rw [Bool.and_eq_true, Database.stale, Bool.and_eq_true] at hstale
      obtain ⟨db₁, hevent, h⟩ := bind_eq_ok h
      exact .head (cancel_turn hfind hstale.1.1 hevent) (ih h)

theorem claimable_status {j : JobRow} (h : db.claimable clock j = true) :
    j.status = .pending ∨ j.status = .running := by
  rw [Database.claimable, Option.any_eq_true] at h
  obtain ⟨c, -, h⟩ := h
  simp only [Bool.and_eq_true, Bool.or_eq_true, decide_eq_true_eq] at h
  exact h.1.2.imp And.left And.left

variable {q : ClaimRequest} {j : Option Job}

/-- The jobs that a claim passes over take their turns in the book, and the one it gives
out is running. -/
theorem claim_loop_turns {n : ℕ} (hpos : 0 < max_attempts) (hb : db.book.Balanced max_attempts)
    (h : Database.claim_loop clock q max_attempts n db = .ok (j, db'))
    (htaken : ∀ row : JobRow, j = some row.job → taken row) :
    ReflTransGen (Turn max_attempts resets taken) db.book db'.book
      ∧ ∀ job, j = some job → ∃ r, db'.sync_jobs.find job.id = some r ∧ r.job = job
        ∧ r.status = .running ∧ job.worker_id = q.worker
        ∧ job.leased_until = some (clock + q.millis * 1000) := by
  induction n generalizing db with
  | zero =>
    cases h
    exact ⟨.refl, fun _ h => by cases h⟩
  | succ n ih =>
    rw [Database.claim_loop] at h
    split at h
    next =>
      cases h
      exact ⟨.refl, fun _ h => by cases h⟩
    next previous hcandidate =>
      obtain ⟨hfind, hclaimable⟩ := candidate_inv hcandidate
      split at h
      next hrunning =>
        have hlt := (hb.accounted previous.id previous hfind).lt (by rw [hrunning]; decide)
        dsimp only at h
        rw [Nat.min_eq_left hlt] at h
        split at h
        next hlast =>
          -- abandoned once too often: the loop goes on without it
          obtain ⟨db₁, hexpired, h⟩ := bind_eq_ok h
          obtain ⟨db₂, hfailed, h⟩ := bind_eq_ok h
          have hturn : Turn max_attempts resets taken db.book db₂.book :=
            turn_of_update (fun r => r.expire clock (previous.attempts + 1)) (fun _ => rfl) hfind
              (.expired hrunning rfl rfl (show previous.attempts + 1 = max_attempts by omega))
              ((append_event_jobs hfailed).trans (append_event_jobs hexpired) :)
              (append_event_recorded hexpired (append_event_recorded hfailed .none) :)
          obtain ⟨hturns, hjob⟩ := ih (hturn.balanced hpos hb) h
          exact ⟨.head hturn hturns, hjob⟩
        next hmore =>
          obtain ⟨db₁, hexpired, h⟩ := bind_eq_ok h
          obtain ⟨db₂, hclaimed, h⟩ := bind_eq_ok h
          cases h
          have hjobs := (append_event_jobs hclaimed).trans (append_event_jobs hexpired)
          refine ⟨.single (turn_of_update
            (fun r => r.take clock q.worker q.millis (previous.attempts + 1)) (fun _ => rfl) hfind
            (.reclaimed q.detail hrunning rfl rfl
              (show previous.attempts + 1 < max_attempts by omega) (htaken _ rfl)) hjobs
            (append_event_recorded hexpired (append_event_recorded hclaimed .none) :)), ?_⟩
          intro job hjob
          cases hjob
          refine ⟨_, ?_, rfl, rfl, rfl, rfl⟩
          rw [hjobs]
          exact Table.find_modify_self hfind
            (fun r => r.take clock q.worker q.millis (previous.attempts + 1)) (fun _ => rfl)
      next hpending =>
        obtain ⟨db₁, hclaimed, h⟩ := bind_eq_ok h
        cases h
        have hstatus := (claimable_status hclaimable).resolve_right hpending
        have hjobs := append_event_jobs hclaimed
        refine ⟨.single (turn_of_update
          (fun r => r.take clock q.worker q.millis r.attempts) (fun _ => rfl) hfind
          (.claimed q.detail hstatus rfl rfl (htaken _ rfl)) hjobs
          (append_event_recorded hclaimed .none :)), ?_⟩
        intro job hjob
        cases hjob
        refine ⟨_, ?_, rfl, rfl, rfl, rfl⟩
        rw [hjobs]
        exact Table.find_modify_self hfind (fun r => r.take clock q.worker q.millis r.attempts)
          (fun _ => rfl)

theorem claim_turns (hpos : 0 < max_attempts) (hb : db.book.Balanced max_attempts)
    (hmax : configured_max_attempts q.policy = .ok max_attempts)
    (h : db.claim_with_policy clock q = .ok (j, db'))
    (htaken : ∀ row : JobRow, j = some row.job → taken row) :
    ReflTransGen (Turn max_attempts resets taken) db.book db'.book
      ∧ ∀ job, j = some job → ∃ r, db'.sync_jobs.find job.id = some r ∧ r.job = job
        ∧ r.status = .running ∧ job.worker_id = q.worker
        ∧ job.leased_until = some (clock + q.millis * 1000) := by
  rw [Database.claim_with_policy] at h
  split at h
  next => cases h
  next =>
    rw [hmax] at h
    obtain ⟨m, hm, h⟩ := bind_eq_ok h
    cases hm
    obtain ⟨-, -, h⟩ := bind_eq_ok h
    obtain ⟨db₁, hstale, h⟩ := bind_eq_ok h
    have hcancelled : ReflTransGen (Turn max_attempts resets taken) db.book db₁.book :=
      cancel_stale_jobs_turns hstale
    obtain ⟨hturns, hjob⟩ := claim_loop_turns hpos (turns_balanced hcancelled hpos hb) h htaken
    exact ⟨hcancelled.trans hturns, hjob⟩

theorem claim_takes (hpos : 0 < max_attempts) (hb : db.book.Balanced max_attempts)
    (hmax : configured_max_attempts q.policy = .ok max_attempts)
    (h : db.claim_with_policy clock q = .ok (j, db')) {job : Job} (hjob : j = some job) :
    ∃ r, db'.sync_jobs.find job.id = some r ∧ r.job = job ∧ r.status = .running
      ∧ job.worker_id = q.worker ∧ job.leased_until = some (clock + q.millis * 1000) :=
  (@claim_turns max_attempts (fun _ => False) (fun _ => True) db db' clock q j hpos hb hmax h
    (fun _ _ => trivial)).2 job hjob

theorem lock_running {j : Job} (h : db.lock clock j = .ok ()) :
    ∃ r, db.sync_jobs.find j.id = some r ∧ r.id = j.id ∧ r.status = .running
      ∧ r.worker_id = j.worker_id ∧ r.leased_until = j.leased_until := by
  obtain ⟨r, c, hfind, -, hholds, -⟩ := lock_inv h
  simp only [Job.holds, JobRow.leased, Bool.and_eq_true, decide_eq_true_eq] at hholds
  obtain ⟨⟨⟨⟨-, hworker⟩, huntil⟩, -⟩, hstatus, -⟩ := hholds
  exact ⟨r, hfind, (Table.find_eq_some.mp hfind).2, hstatus, hworker, huntil⟩

theorem Paged.turn {env : Env} {now : ℤ} {j : Job} {cursor : String} {page : Page}
    {connection : Option Connection} (h : Paged env clock now j cursor page connection db db') :
    Turn max_attempts resets taken db.book db'.book := by
  obtain ⟨r, hfind, hid, hrunning, -⟩ := lock_running h.lock
  obtain ⟨visits, -, hw⟩ := h.written
  obtain ⟨visits', db₁, -, hpage, hlast⟩ := h.writes
  have hevents := write_page_events db env now j cursor page visits'
  rw [← hid] at hfind hpage hlast
  have hjobs : db'.sync_jobs = (db.update_job r.id (fun r => r.finish_page now page.next_cursor)
      (fun _ => rfl)).sync_jobs := by
    rw [hid]
    exact hw.jobs
  by_cases hnext : page.next_cursor = ""
  · rw [if_pos hnext] at hlast
    have hrecorded := append_event_recorded hpage (append_event_recorded hlast .none)
    rw [hevents] at hrecorded
    exact turn_of_update (fun r => r.finish_page now page.next_cursor) (fun _ => rfl) hfind
      (.last_page page hrunning (by rw [JobRow.finish_page, if_pos hnext]) rfl) hjobs hrecorded
  · rw [if_neg hnext] at hlast
    subst hlast
    have hrecorded := append_event_recorded hpage .none
    rw [hevents] at hrecorded
    exact turn_of_update (fun r => r.finish_page now page.next_cursor) (fun _ => rfl) hfind
      (.page page hrunning (by rw [JobRow.finish_page, if_neg hnext]) rfl) hjobs hrecorded

theorem cancel_stale_turn {j : Job} {u : Unit} (h : db.cancel_stale clock j = .ok (u, db')) :
    Turn max_attempts resets taken db.book db'.book := by
  rw [Database.cancel_stale] at h
  split at h
  next => cases h
  next r hfind =>
    split at h
    next hguard =>
      simp only [Bool.and_eq_true, decide_eq_true_eq] at hguard
      obtain ⟨db₁, hevent, h⟩ := bind_eq_ok h
      cases h
      have hid : r.id = j.id := (Table.find_eq_some.mp hfind).2
      rw [← hid] at hfind hevent
      refine cancel_turn hfind ?_ hevent
      rw [JobRow.unfinished, hguard.1.1.1.1.2]
      rfl
    next => cases h

theorem apply_control_frame (db : Database) (clock : ℤ) (action : OperatorAction) (r : JobRow)
    (generation : ℕ) :
    (db.apply_control clock action r generation).sync_jobs
        = (db.update_job r.id (fun r => action.apply r clock generation)
          (by intro r; cases action <;> rfl)).sync_jobs
      ∧ (db.apply_control clock action r generation).sync_job_events = db.sync_job_events := by
  rw [Database.apply_control]
  split
  next => exact ⟨rfl, rfl⟩
  next => exact ⟨rfl, rfl⟩

theorem control_turn {project_id account_id job_id : String} {action : OperatorAction} {u : Unit}
    (hresets : action = .ResetAttempts → resets job_id)
    (h : db.control clock project_id account_id job_id action = .ok (u, db')) :
    Turn max_attempts resets taken db.book db'.book := by
  rw [Database.control] at h
  split at h
  next => cases h
  next =>
    split at h
    next => cases h
    next r hr =>
      split at h
      next => cases h
      next c hc =>
        split at h
        next => cases h
        next hallowed =>
          obtain ⟨db₁, hevent, h⟩ := bind_eq_ok h
          cases h
          have hfind := (Option.filter_eq_some_iff.mp hr).1
          obtain rfl : r.id = job_id := (Table.find_eq_some.mp hfind).2
          obtain ⟨hjobs, hevents⟩ := apply_control_frame db clock action r c.connection_generation
          have hrecorded := append_event_recorded hevent .none
          rw [hevents] at hrecorded
          refine turn_of_update (fun r => action.apply r clock c.connection_generation) ?_ hfind ?_
            ((append_event_jobs hevent).trans hjobs) hrecorded
          · intro r
            cases action <;> rfl
          · rw [Bool.not_eq_true', Bool.not_eq_false] at hallowed
            cases action with
            | RunNow =>
              refine .run_now ?_ rfl rfl
              intro hfailed
              simp [OperatorAction.allowed, JobRow.stale_cancelled, hfailed] at hallowed
            | ResetAttempts => exact .reset (hresets rfl) rfl rfl
            | Cancel =>
              simp only [OperatorAction.allowed, Bool.or_eq_true, decide_eq_true_eq] at hallowed
              exact .cancelled _ hallowed rfl rfl

end Transactions

/-! ## The service -/

/-- `Config`, with durations in nanoseconds. -/
structure Config where
  lease_duration : ℕ
  retry_base : ℕ
  max_retry_delay : ℕ
  max_attempts : ℕ

/-- The checks of `Service::new`. -/
def Config.validate (config : Config) : Except Error Unit :=
  if config.lease_duration < 10 * 1000000 ∨ 3600 * 1000000000 < config.lease_duration
      ∨ config.max_attempts = 0 ∨ i32_max < config.max_attempts ∨ config.retry_base = 0
      ∨ config.max_retry_delay = 0 ∨ 86400 * 1000000000 < config.max_retry_delay then
    .error .InvalidInput
  else .ok ()

def claim_policy (config : Config) : Policy :=
  { source := some "service_config"
    maxAttempts := some config.max_attempts
    leaseDurationMs := some (config.lease_duration / 1000000)
    retryBaseMs := some (String.ofList (Decimal.write (config.retry_base / 1000000)))
    maxRetryDelayMs := some (config.max_retry_delay / 1000000)
    unknown_key := false }

/-- `terminal` of `Service::process`. -/
def Config.terminal (config : Config) (attempts : ℕ) (cause : Error) : Bool :=
  decide (config.max_attempts ≤ min (attempts + 1) 4294967295) || terminal_error cause

/-- Claims and failures are those of a service with a constant configuration: it claims
with its policy, and of a job it has claimed it decides by its policy whether a failure is
the last. When a worker claims a job again, time has passed since it claimed it before. -/
def Op.serviced (config : Config) (s : System) : Op → Prop
  | .claim q => q.lease = config.lease_duration ∧ q.policy = some (claim_policy config)
      ∧ ∀ j ∈ s.claims, j.worker_id = q.worker → ∀ j' db,
        s.db.claim_with_policy s.clock q = .ok (some j', db) → j'.id = j.id →
          j.leased_until ≠ some (s.clock + q.millis * 1000)
  | .fail _ j _ terminal error => j ∈ s.claims ∧ ∃ cause, error = some cause
      ∧ terminal = config.terminal j.attempts cause
  | _ => True

/-- The operator resets the attempts of the job. -/
def Op.resets (op : Op) (id : String) : Prop :=
  ∃ project_id account_id, op = .control project_id account_id id .ResetAttempts

/-- The row is that of the job a claim takes. -/
def System.takes (s : System) (op : Op) (r : JobRow) : Prop :=
  ∃ q db, op = .claim q ∧ s.db.claim_with_policy s.clock q = .ok (some r.job, db)

theorem Config.validate_inv {config : Config} (h : config.validate = .ok ()) :
    0 < config.max_attempts ∧ config.max_attempts ≤ i32_max := by
  rw [Config.validate] at h
  split at h
  next => cases h
  next hvalid => omega

theorem configured_claim_policy {config : Config} (h : config.validate = .ok ()) :
    configured_max_attempts (some (claim_policy config)) = .ok config.max_attempts :=
  if_pos (Config.validate_inv h)

theorem fail_turn {config : Config} (hconfig : config.validate = .ok ())
    {resets : String → Prop} {taken : JobRow → Prop} {db db' : Database} {clock now : ℤ} {j : Job}
    {delay : ℕ} {cause : Error} {u : Unit} (hb : db.book.Balanced config.max_attempts)
    (hattempts : ∀ r, db.sync_jobs.find j.id = some r → r.status = .running →
      r.worker_id = j.worker_id → r.leased_until = j.leased_until → j.attempts = r.attempts)
    (h : db.fail_with_error clock now j delay (config.terminal j.attempts cause) (some cause)
      = .ok (u, db')) :
    Turn config.max_attempts resets taken db.book db'.book := by
  obtain ⟨hpos, hbound⟩ := Config.validate_inv hconfig
  rw [Database.fail_with_error] at h
  obtain ⟨⟨⟩, hlock, h⟩ := bind_eq_ok h
  obtain ⟨db₁, hevent, h⟩ := bind_eq_ok h
  cases h
  obtain ⟨r, hfind, hid, hrunning, hworker, huntil⟩ := lock_running hlock
  have hseen := hattempts r hfind hrunning hworker huntil
  rw [← hid] at hfind hevent
  have hlt := (hb.accounted r.id r hfind).lt (by rw [hrunning]; decide)
  have hnext : ∀ millis terminal, (r.fail now millis terminal).attempts = r.attempts + 1 := by
    intro millis terminal
    exact if_pos (by omega)
  have hlast : config.terminal j.attempts cause = true
      ↔ r.attempts + 1 = config.max_attempts ∨ terminal_error cause = true := by
    have hmin : min (r.attempts + 1) 4294967295 = r.attempts + 1 := by
      rw [i32_max] at hbound
      omega
    rw [Config.terminal, hseen, hmin, Bool.or_eq_true, decide_eq_true_eq]
    refine or_congr_left ⟨fun hle => by omega, fun heq => by omega⟩
  refine turn_of_update (fun r => r.fail now _ _) (fun _ => rfl) hfind ?_
    (append_event_jobs hevent :)
    (append_event_recorded hevent .none :)
  cases hterminal : config.terminal j.attempts cause with
  | true =>
    rw [if_pos rfl]
    exact .failed cause hrunning rfl (hnext _ _) (by rw [hnext]; exact hlast.mp hterminal)
  | false =>
    have hmore : ¬ (r.attempts + 1 = config.max_attempts ∨ terminal_error cause = true) := by
      rw [← hlast, hterminal]
      decide
    rw [if_neg (by decide)]
    refine .retried _ cause hrunning rfl (hnext _ _) ?_ ?_
    · rw [hnext]
      omega
    · rw [← Bool.not_eq_true]
      exact fun hcause => hmore (.inr hcause)

/-! ## Runs -/

/-- The jobs agree with their histories, and a worker has seen the attempts of a job whose
lease it holds. -/
structure System.Audited (config : Config) (s : System) : Prop where
  balanced : s.db.book.Balanced config.max_attempts
  seen : ∀ j ∈ s.claims, ∀ r, s.db.sync_jobs.find j.id = some r → r.status = .running →
    r.worker_id = j.worker_id → r.leased_until = j.leased_until → j.attempts = r.attempts

section Runs

variable {env : Env} {config : Config} {s : System} {op : Op}

theorem connect_book (db : Database) (clock : ℤ) (c : Connection) :
    (db.connect clock c).book = db.book := by
  rw [Database.connect]
  split
  next => rfl
  next => rfl

/-- **Every step is a sequence of turns.** -/
theorem step_turns (env : Env) (hconfig : config.validate = .ok ()) (hop : op.serviced config s)
    (hs : s.Audited config) :
    ReflTransGen (Turn config.max_attempts op.resets (s.takes op)) s.db.book
      (step env s op).db.book := by
  obtain ⟨hpos, -⟩ := Config.validate_inv hconfig
  cases op with
  | tick d => exact .refl
  | connect c =>
    rw [step, connect_book]
  | update_connection id marker intent new => exact .refl
  | enqueue age r =>
    rw [step]
    cases hok : s.db.enqueue s.clock (s.clock - age) r with
    | error e => exact .refl
    | ok w => exact enqueue_turns hok
  | claim q =>
    obtain ⟨-, hpolicy, -⟩ := hop
    rw [step]
    split
    next => exact .refl
    next j db hok =>
      refine (claim_turns hpos hs.balanced ?_ hok ?_).1
      · rw [hpolicy]
        exact configured_claim_policy hconfig
      · rintro row rfl
        exact ⟨q, db, rfl, hok⟩
  | fetch j page connection =>
    rw [step]
    split
    next => exact .refl
    next => exact .refl
  | commit_page age f for_connection cursor =>
    rw [step]
    split
    next => exact .refl
    next db hok => exact .single (commit_page_inv hok).turn
  | fail age j delay terminal error =>
    obtain ⟨hclaimed, cause, rfl, rfl⟩ := hop
    rw [step]
    cases hok : s.db.fail_with_error s.clock (s.clock - age) j delay
        (config.terminal j.attempts cause) (some cause) with
    | error e => exact .refl
    | ok w => exact .single (fail_turn hconfig hs.balanced (hs.seen j hclaimed) hok)
  | cancel_stale j =>
    rw [step]
    cases hok : s.db.cancel_stale s.clock j with
    | error e => exact .refl
    | ok w => exact .single (cancel_stale_turn hok)
  | control project_id account_id job_id action =>
    rw [step]
    cases hok : s.db.control s.clock project_id account_id job_id action with
    | error e => exact .refl
    | ok w =>
      refine .single (control_turn ?_ hok)
      rintro rfl
      exact ⟨project_id, account_id, rfl⟩

theorem step_claims (hconfig : config.validate = .ok ()) (hop : op.serviced config s)
    (hs : s.Audited config) {j : Job} (hj : j ∈ (step env s op).claims) :
    j ∈ s.claims ∨ ∃ r, (step env s op).db.sync_jobs.find j.id = some r ∧ r.job = j
      ∧ r.status = .running := by
  obtain ⟨hpos, -⟩ := Config.validate_inv hconfig
  cases op with
  | claim q =>
    obtain ⟨-, hpolicy, -⟩ := hop
    rw [step] at hj ⊢
    split at hj
    next => exact .inl hj
    next taken db hok =>
      rcases List.mem_append.mp hj with hnew | hold
      · rw [Option.mem_toList] at hnew
        obtain ⟨r, hfind, hr, hrunning, -⟩ := claim_takes hpos hs.balanced
          (by rw [hpolicy]; exact configured_claim_policy hconfig) hok hnew
        exact .inr ⟨r, hfind, hr, hrunning⟩
      · exact .inl hold
  | fetch j' page connection =>
    rw [step] at hj
    split at hj
    next => exact .inl hj
    next => exact .inl hj
  | commit_page age f for_connection cursor =>
    rw [step] at hj
    split at hj
    next => exact .inl hj
    next => exact .inl hj
  | tick d => exact .inl hj
  | connect c => exact .inl hj
  | update_connection id marker intent new => exact .inl hj
  | enqueue age r => exact .inl hj
  | fail age j' delay terminal error => exact .inl hj
  | cancel_stale j' => exact .inl hj
  | control project_id account_id job_id action => exact .inl hj

theorem taken_fresh (hconfig : config.validate = .ok ()) (hop : op.serviced config s)
    (hs : s.Audited config) {r : JobRow} (htakes : s.takes op r) {j : Job} (hj : j ∈ s.claims)
    (hid : r.id = j.id) (hworker : r.worker_id = j.worker_id) :
    r.leased_until ≠ j.leased_until := by
  obtain ⟨q, db, rfl, hok⟩ := htakes
  obtain ⟨-, hpolicy, hfresh⟩ := hop
  obtain ⟨hpos, -⟩ := Config.validate_inv hconfig
  obtain ⟨-, -, -, -, hq, huntil⟩ := claim_takes hpos hs.balanced
    (by rw [hpolicy]; exact configured_claim_policy hconfig) hok rfl
  change r.worker_id = q.worker at hq
  change r.leased_until = some (s.clock + q.millis * 1000) at huntil
  rw [huntil]
  exact (hfresh j hj (hworker.symm.trans hq) r.job db hok hid).symm

theorem step_audited (hconfig : config.validate = .ok ()) (hop : op.serviced config s)
    (hs : s.Audited config) : (step env s op).Audited config := by
  obtain ⟨hpos, -⟩ := Config.validate_inv hconfig
  have hturns := step_turns env hconfig hop hs
  refine ⟨turns_balanced hturns hpos hs.balanced, fun j hj r hfind hrunning hworker huntil => ?_⟩
  rcases step_claims hconfig hop hs hj with hold | ⟨r', hfind', hr', -⟩
  · rcases turns_running hturns hfind hrunning with hsame | htaken
    · exact hs.seen j hold r hsame hrunning hworker huntil
    · have hid : r.id = j.id := (Table.find_eq_some.mp hfind).2
      exact absurd huntil (taken_fresh hconfig hop hs htaken hold hid hworker)
  · rw [hfind'] at hfind
    cases hfind
    exact (congrArg Job.attempts hr').symm

end Runs

/-- **Attempts are accounted for.** In every run of the service with a constant
configuration: the events of every job are numbered from one on; its attempts are the
failures and the leases that ran out since it was made or reset, at most as many as are
allowed, and it has failed exactly if they are that many or its last failure was one that is
not tried again. Every step changes jobs by transitions with their events. A page leaves the
attempts of every job as they are. And a job that has failed stays as it is, and is not
claimed, until its attempts are reset. -/
theorem attempts_accounted (env : Env) {config : Config} (hconfig : config.validate = .ok ())
    {db : Database} (hfresh : db.Fresh) (hevents : db.sync_job_events.rows = []) (clock : ℤ)
    {ops : List Op}
    (h : Machine.Meets (step env) (fun s op => op.serviced config s) (System.init db clock) ops) :
    let s := Machine.run (step env) (System.init db clock) ops
    (∀ id r, s.db.sync_jobs.find id = some r →
      Accounted config.max_attempts r (history s.db.sync_job_events id))
    ∧ (∀ op : Op, op.serviced config s →
      ReflTransGen (Turn config.max_attempts op.resets (s.takes op)) s.db.book
        (step env s op).db.book)
    ∧ (∀ age f for_connection cursor id r, s.db.sync_jobs.find id = some r →
      ∃ r', (step env s (.commit_page age f for_connection cursor)).db.sync_jobs.find id = some r'
        ∧ r'.attempts = r.attempts)
    ∧ ∀ id r, s.db.sync_jobs.find id = some r → r.status = .failed → ∀ later : List Op,
      Machine.Meets (step env) (fun s op => op.serviced config s ∧ ¬ op.resets id) s later →
        (Machine.run (step env) s later).db.sync_jobs.find id = some r
          ∧ ∀ j ∈ (Machine.run (step env) s later).claims, j.id = id → j ∈ s.claims := by
  have hinit : (System.init db clock).Audited config := by
    refine ⟨⟨fun e he => ?_, fun id r hr => ?_⟩, fun j hj => absurd hj List.not_mem_nil⟩
    · have hnone : e ∈ db.sync_job_events.rows := he
      rw [hevents] at hnone
      cases hnone
    · have hmem : r ∈ db.sync_jobs.rows := (Table.find_eq_some.mp hr).1
      rw [hfresh.no_job] at hmem
      cases hmem
  intro s
  have hs : s.Audited config :=
    h.keeps (fun s op hop hs => step_audited hconfig hop hs) hinit
  refine ⟨hs.balanced.accounted, fun op hop => step_turns env hconfig hop hs, ?_, ?_⟩
  · intro age f for_connection cursor id r hr
    rw [step]
    split
    next => exact ⟨r, hr, rfl⟩
    next db' hok =>
      obtain ⟨visits, -, hw⟩ := (commit_page_inv hok).written
      have hfind : db'.sync_jobs.find id = if id = f.job.id then
          (s.db.sync_jobs.find f.job.id).map
            (fun r => r.finish_page (s.clock - age) f.page.next_cursor)
          else s.db.sync_jobs.find id := by
        rw [hw.jobs]
        exact Table.find_modify s.db.sync_jobs f.job.id
          (fun r => r.finish_page (s.clock - age) f.page.next_cursor) (fun _ => rfl) id
      by_cases hid : id = f.job.id
      · rw [if_pos hid, ← hid, hr] at hfind
        exact ⟨_, hfind, rfl⟩
      · rw [if_neg hid, hr] at hfind
        exact ⟨r, hfind, rfl⟩
  · intro id r hr hstatus later hlater
    have hkept : (Machine.run (step env) s later).Audited config
        ∧ (Machine.run (step env) s later).db.sync_jobs.find id = some r
        ∧ ∀ j ∈ (Machine.run (step env) s later).claims, j.id = id → j ∈ s.claims := by
      refine hlater.keeps (I := fun t : System => t.Audited config
        ∧ t.db.sync_jobs.find id = some r ∧ ∀ j ∈ t.claims, j.id = id → j ∈ s.claims) ?_
        ⟨hs, hr, fun j hj _ => hj⟩
      rintro t op ⟨hop, hresets⟩ ⟨ht, hfind, hclaims⟩
      have hstays := turns_failed (step_turns env hconfig hop ht) hfind hstatus hresets
      refine ⟨step_audited hconfig hop ht, hstays, fun j hj hid => ?_⟩
      rcases step_claims hconfig hop ht hj with hold | ⟨r', hfind', -, hrunning⟩
      · exact hclaims j hold hid
      · -- the job that was taken is running, so it is another one
        rw [hid] at hfind'
        have hsame : (step env t op).db.sync_jobs.find id = some r := hstays
        rw [hsame, Option.some.injEq] at hfind'
        rw [← hfind', hstatus] at hrunning
        cases hrunning
    exact hkept.2

namespace Sample

/-- Two attempts, under leases of a second. -/
def config : Config := ⟨1000000000, 1000000000, 3600000000000, 2⟩

def service_claim (worker : String) : ClaimRequest :=
  ⟨worker, config.lease_duration, some (claim_policy config), fun _ _ => false, fun _ _ => false⟩

/-- A worker claims a job and fails with an error that is tried again; it claims the job
again and is gone; the next claim finds that the job has had its attempts. -/
def two_attempts : List Op :=
  [.enqueue 0 (request "a"),
   .claim (service_claim "w"),
   .tick 1000,
   .fail 0 (job "a" "w" 1000000 1) 0 (config.terminal 0 .Unavailable) (some .Unavailable),
   .claim (service_claim "w"),
   .tick 2000000,
   .claim (service_claim "v")]

theorem service_claim_serviced {s : System} {worker : String}
    (h : ∀ j ∈ s.claims, j.leased_until ≠ some (s.clock + (service_claim worker).millis * 1000)) :
    (Op.claim (service_claim worker)).serviced config s :=
  ⟨rfl, rfl, fun j hj _ _ _ _ _ => h j hj⟩

theorem two_attempts_serviced :
    Machine.Meets (step env) (fun s op => op.serviced config s) (System.init database 0)
      two_attempts := by
  refine ⟨trivial, service_claim_serviced ?_, trivial, ⟨?_, .Unavailable, rfl, rfl⟩,
    service_claim_serviced ?_, trivial, service_claim_serviced ?_, trivial⟩
  · decide
  · show _ ∈ System.claims _
    decide
  · decide
  · decide

end Sample

/-- A job that has had its attempts has failed, and its history tells it. -/
theorem two_attempts_accounted :
    let s := Machine.run (step Sample.env) (System.init Sample.database 0) Sample.two_attempts
    ∃ r, s.db.sync_jobs.find "a" = some r ∧ r.status = .failed ∧ r.attempts = 2
      ∧ Accounted 2 r (history s.db.sync_job_events "a") := by
  intro s
  have hrow : (s.db.sync_jobs.find "a").any
      (fun r => decide (r.status = .failed) && decide (r.attempts = 2)) = true := by
    decide
  obtain ⟨r, hr, hfailed⟩ := Option.any_eq_true _ _ |>.mp hrow
  rw [Bool.and_eq_true, decide_eq_true_eq, decide_eq_true_eq] at hfailed
  exact ⟨r, hr, hfailed.1, hfailed.2, (@attempts_accounted Sample.env Sample.config rfl
    Sample.database Sample.database_fresh rfl 0 Sample.two_attempts
    Sample.two_attempts_serviced).1 "a" r hr⟩

end Appcall.Sync
