/-
Handing out again an effect that did not happen.

A reconciliation without an observation makes the task of the effect ready, and a
drive hands out the first ready task of a run whose workflow waits. Between the two
stand the retries of the other tasks, which a drive settles first (`retried`), and the
turns of the workflow, which may resolve commands before one waits (`ComesToWait`).
What a drive does after these is a matter of the task alone: it counts the executions
of the effect against its budget, and compares the clock with its window.

The counting takes the execution that did not happen for one that did. Nothing in a
reconciliation says otherwise, and so an effect at the end of its budget or its window
is not handed out again, whatever was proven about it.
-/
import Appcall.Engine.Reconciliation

set_option autoImplicit false

namespace Appcall.Durable

open Appcall.Refine

/-! ## What a drive answers -/

/-- What a program answers from every engine that stands for `t`. -/
def Answers {α : Type} (p : EngineM α) (t : Machine) (P : Except Error α → Prop) : Prop :=
  ∀ e : Engine, WellFormed e.store → e.machine = t → P (exec p e).1

section Answers

variable {α β : Type} {t : Machine} {P : Except Error β → Prop}

theorem Answers.always {p : EngineM β} (h : Always p P) : Answers p t P := fun e _ _ => h e

variable {f : α → EngineM β}

theorem Answers.bind {p : EngineM α} (h : Refines p t (fun res _ t' =>
      match res with
      | .ok a => Answers (f a) t' P
      | .error e => P (.error e))) : Answers (p >>= f) t P := by
  intro e hw ht
  obtain ⟨ls, -, hw', hQ⟩ := h e hw ht
  rw [exec_bind]
  cases hp : exec p e with
  | mk res e' =>
    rw [hp] at hw' hQ
    cases res with
    | ok a => exact hQ e' hw' rfl
    | error error => exact hQ

theorem Answers.reads {p : EngineM α} {R : α → Prop} (h : Reads p t R)
    (hok : ∀ a, R a → Answers (f a) t P) (herr : ∀ e, P (.error e)) : Answers (p >>= f) t P := by
  refine Answers.bind (Refines.weaken h ?_)
  rintro res ls t' ⟨-, rfl, hR⟩
  cases res with
  | error e => exact herr e
  | ok a => exact hok a (hR a rfl)

theorem Answers.result {x : Except Error α} (hok : ∀ a, x = .ok a → Answers (f a) t P)
    (herr : ∀ e, P (.error e)) : Answers (Durable.result x >>= f) t P := by
  refine Answers.bind ?_
  cases x with
  | ok a => exact Refines.pure (hok a rfl)
  | error e => exact Refines.throw (herr e)

theorem Answers.get {f : Engine → EngineM β}
    (h : ∀ e : Engine, e.machine = t → Answers (f e) t P) :
    Answers (MonadState.get >>= f) t P := fun e hw ht => h e ht e hw ht

theorem Answers.save {r run : RunRecord} {c : Option ℤ} {l : Label} {children : List RunRecord}
    {f : RunRecord → EngineM β} (hs : t.runs r.id = some ⟨r, c⟩) (ho : OneOpen r.history)
    (hc : Change t l r run children)
    (hok : Fresh (Function.update t.runs run.id (some ⟨run.saved, run.saved.wakeup⟩)) children →
      Answers (f run.saved) (t.commit run children) P)
    (herr : ∀ e, P (.error e)) : Answers (Durable.save run children >>= f) t P := by
  refine Answers.bind ?_
  rw [← bind_pure (Durable.save run children)]
  exact Refines.save_new hs ho hc (fun hf => Refines.pure (hok hf)) herr

end Answers

/-! ## The retries and the turns before a dispatch -/

/-- The turns of a drive of the stored run `r` come to a wait: each resolves its command,
until one finds its command open and the run still running. -/
inductive ComesToWait (now : ℤ) : ℕ → Machine → RunRecord → Prop where
  | waits {turns : ℕ} {m : Machine} {r r1 : RunRecord} {pending : Option Command}
      {event : HistoryEvent} {children : List RunRecord} :
      Turn m now (begun r) pending event none r1 children → r1.state = .Running →
      ComesToWait now (turns + 1) m r
  | resolves {turns : ℕ} {m : Machine} {r r1 run : RunRecord} {pending : Option Command}
      {event : HistoryEvent} {value : CommandValue} {children : List RunRecord} :
      Turn m now (begun r) pending event (some value) r1 children →
      run = { merge_retry_wakeup r1 with
        history := r1.history.set (seal_end (opened (begun r) pending).history)
          { event with value := some value }
        wakeup := some 0 } →
      ComesToWait now turns (m.commit run children) run.saved →
      ComesToWait now (turns + 1) m r

/-- The budget or the window of the task is used up, as a drive counts it. -/
def ActivityTask.used_up (task : ActivityTask) (default_policy : RetryPolicy) (now : ℤ) : Bool :=
  out_of_retries { task with execution := infer_prior_execution task.attempt task.execution }
    (infer_prior_execution task.attempt task.execution)
    (task.attempt.retry_policy.getD default_policy) now

/-- What the loop of a drive answers when `u` is the first ready task of the run. -/
structure Dispatches (t : Machine) (now : ℤ) (turns : ℕ) (r : RunRecord) (u : ActivityTask)
    (res : Except Error DriveOutcome) : Prop where
  attempt : ∀ a, res = .ok (.Activity a) →
    a.effect_id = u.attempt.effect_id ∧ a.attempt = u.attempt.attempt + 1
  iff_waits : ∀ o, res = .ok o → ((∃ a, o = .Activity a) ↔ ComesToWait now turns t r
    ∧ (u.attempt.name, u.attempt.version) ∈ t.activities
    ∧ u.used_up t.retry_policy now = false)

variable {now : ℤ} {turns : ℕ} {r : RunRecord} {u : ActivityTask} {m : Machine} {r1 : RunRecord}
  {pending : Option Command} {event : HistoryEvent} {children : List RunRecord}
  {tasks : List ActivityTask} {i : ℕ} {wrote_history : Bool} {workflow : Workflow}

theorem Dispatches.failed {t : Machine} (e : Error) :
    Dispatches t now turns r u (.error e) := ⟨by simp, by simp⟩

theorem Dispatches.nothing {t : Machine} {o : DriveOutcome} (ho : ∀ a, o ≠ .Activity a)
    (hnot : ComesToWait now turns t r → (u.attempt.name, u.attempt.version) ∈ t.activities →
      u.used_up t.retry_policy now = true) : Dispatches t now turns r u (.ok o) := by
  refine ⟨fun a ha => absurd (Except.ok.inj ha) (ho a), ?_⟩
  rintro o' ⟨⟩
  refine ⟨fun ⟨a, ha⟩ => absurd ha (ho a), fun ⟨hcomes, hreg, hused⟩ => ?_⟩
  rw [hnot hcomes hreg] at hused
  cases hused

theorem ComesToWait.blocked (h : ComesToWait now turns m r) :
    ∃ pending, Blocked m (begun r) pending := by
  cases h with
  | waits ht | resolves ht => exact ⟨_, ht.blocked⟩

theorem ComesToWait.running (h : ComesToWait now turns m r)
    (hturn : Turn m now (begun r) pending event none r1 children) : r1.state = .Running := by
  cases h with
  | waits ht hrun =>
    obtain ⟨-, -, rfl, -⟩ := hturn.functional ht
    exact hrun
  | resolves ht =>
    have hvalue := (hturn.functional ht).2.1
    cases hvalue

theorem ComesToWait.next {now : ℤ} {turns : ℕ} {m : Machine} {r r1 run : RunRecord}
    {pending : Option Command} {event : HistoryEvent} {value : CommandValue}
    {children : List RunRecord} (h : ComesToWait now (turns + 1) m r)
    (hturn : Turn m now (begun r) pending event (some value) r1 children)
    (hrun : run = { merge_retry_wakeup r1 with
      history := r1.history.set (seal_end (opened (begun r) pending).history)
        { event with value := some value }
      wakeup := some 0 }) : ComesToWait now turns (m.commit run children) run.saved := by
  cases h with
  | waits ht =>
    have hvalue := (hturn.functional ht).2.1
    cases hvalue
  | resolves ht hrun' hnext =>
    obtain ⟨rfl, hvalue, rfl, rfl⟩ := hturn.functional ht
    cases hvalue
    have hevent := hturn.open_event
    rw [ht.open_event] at hevent
    cases hevent
    rw [hrun, ← hrun']
    exact hnext

/-! ## The turns of a drive -/

theorem find_task_append {p : ActivityTask → Bool} (h : find_task tasks p = some (i, u))
    (rest : List ActivityTask) : find_task (tasks ++ rest) p = some (i, u) := by
  unfold find_task at h ⊢
  cases hi : tasks.findIdx? p with
  | none =>
    rw [hi] at h
    cases h
  | some j =>
    rw [hi, Option.bind_some, Option.map_eq_some_iff] at h
    obtain ⟨task, hget, heq⟩ := h
    have hlt := (List.getElem?_eq_some_iff.mp hget).1
    have happ : (tasks ++ rest).findIdx? p = some j := by
      rw [List.findIdx?_append, hi]
      rfl
    rw [happ, Option.bind_some, List.getElem?_append_left hlt, hget, Option.map_some, heq]

theorem Turn.first_ready {value : Option CommandValue}
    (h : Turn m now (begun r) pending event value r1 children)
    (hf : find_task (begun r).tasks (fun task => task.state.is_ready) = some (i, u)) :
    find_task r1.tasks (fun task => task.state.is_ready) = some (i, u) := by
  rcases h.evaluated.tasks with ht | ⟨_, _, _, _, -, ht⟩
  · rw [ht]
    exact hf
  · rw [ht]
    exact find_task_append hf _

theorem suspend_always {s : RunState} {P : Except Error DriveOutcome → Prop}
    (h : P (.ok (.Suspended s))) (herr : ∀ e, P (.error e)) : Always (suspend r s) P :=
  Always.bind (fun _ => Always.pure h) herr

theorem finish_run_always {output : PayloadRef} {cursor : ℕ} {P : Except Error DriveOutcome → Prop}
    (h : ∀ o, (∀ a, o ≠ .Activity a) → P (.ok o)) (herr : ∀ e, P (.error e)) :
    Always (finish_run r output cursor pending) P := by
  have hsuspend : Always (suspend r .Nondeterminism) P :=
    suspend_always (h _ (by simp)) herr
  unfold finish_run
  split
  · exact hsuspend
  split
  · exact Always.throw (herr _)
  refine Always.bind (fun done => ?_) herr
  cases done with
  | false => exact hsuspend
  | true => exact Always.bind (fun _ => Always.pure (h _ (by simp))) herr

theorem dispatch_ready_dispatches {t : Machine} (hcomes : ComesToWait now turns t r) :
    Answers (dispatch_ready r1 i u now children) t (Dispatches t now turns r u) := by
  unfold dispatch_ready
  refine Answers.get (fun e ht => ?_)
  have hact : e.activities = t.activities := by
    rw [← ht]
    rfl
  have hpolicy : e.retry_policy = t.retry_policy := by
    rw [← ht]
    rfl
  rw [hact, hpolicy]
  by_cases hreg : (u.attempt.name, u.attempt.version) ∈ t.activities
  swap
  · rw [if_pos hreg]
    exact .always (suspend_always (.nothing (by simp) (fun _ h => absurd h hreg)) .failed)
  rw [if_neg (not_not_intro hreg)]
  refine Answers.result (fun _ _ => ?_) .failed
  dsimp only
  by_cases hused : u.used_up t.retry_policy now = true
  · have hout := hused
    unfold ActivityTask.used_up at hout
    rw [if_pos hout]
    exact .always (Always.bind (fun _ => Always.pure
      (.nothing (by simp) (fun _ _ => hused))) .failed)
  · have hout := hused
    unfold ActivityTask.used_up at hout
    rw [if_neg hout]
    refine Answers.result (fun task' htask => ?_) .failed
    refine .always (Always.bind (fun _ => Always.bind (fun _ => Always.pure ?_) .failed) .failed)
    obtain ⟨-, _, _, hattempt⟩ := next_dispatch_ok htask
    refine ⟨?_, ?_⟩
    · rintro a ⟨⟩
      rw [hattempt]
      exact ⟨rfl, rfl⟩
    · rintro o ⟨⟩
      exact ⟨fun _ => ⟨hcomes, hreg, Bool.eq_false_iff.mpr hused⟩, fun _ => ⟨_, rfl⟩⟩

theorem settle_dispatches {t : Machine} {wakeup_before : Option ℤ}
    (hturn : Turn t now (begun r) pending event none r1 children)
    (hroom : t.dispatched.entries.length < t.dispatch_limit)
    (hf : find_task (begun r).tasks (fun task => task.state.is_ready) = some (i, u)) :
    Answers (settle (merge_retry_wakeup r1) now children wakeup_before wrote_history) t
      (Dispatches t now (turns + 1) r u) := by
  have hstopped : r1.state ≠ .Running → ComesToWait now (turns + 1) t r →
      (u.attempt.name, u.attempt.version) ∈ t.activities → u.used_up t.retry_policy now = true :=
    fun hne hcomes _ => absurd (hcomes.running hturn) hne
  unfold settle
  simp only [merge_retry_wakeup_state, merge_retry_wakeup_tasks]
  by_cases hcancel : r1.state = .Cancelled
  · rw [if_pos hcancel]
    exact .always (Always.bind (fun _ => Always.pure
      (.nothing (by simp) (hstopped (by simp [hcancel])))) .failed)
  rw [if_neg hcancel]
  by_cases hcont : r1.state = .ContinuedAsNew
  · rw [if_pos hcont]
    refine .always (Always.bind (fun saved => ?_) .failed)
    split
    · exact Always.pure (.nothing (by simp) (hstopped (by simp [hcont])))
    · exact Always.throw (.failed _)
  rw [if_neg hcont]
  by_cases hrun : r1.state = .Running
  swap
  · rw [if_pos hrun]
    exact .always (Always.bind (fun _ => Always.pure (.nothing (by simp) (hstopped hrun))) .failed)
  rw [if_neg (not_not_intro hrun)]
  refine Answers.get (fun e ht => ?_)
  have hfree : ¬ (r1.tasks.any (fun task => task.state.is_ready)
      && decide (e.dispatched.entries.length ≥ e.dispatch_limit)) = true := by
    have hroom' : e.dispatched.entries.length < e.dispatch_limit := by
      rw [← ht] at hroom
      exact hroom
    simp only [Bool.and_eq_true, decide_eq_true_eq, not_and, not_le]
    exact fun _ => hroom'
  rw [if_neg hfree, hturn.first_ready hf]
  exact dispatch_ready_dispatches (.waits hturn hrun)

section Turn

variable {t : Machine} {next : RunRecord → Bool → EngineM DriveOutcome} (h : Holding t now r)
  (hw : t.workflows.lookup (r.workflow, r.version) = some workflow)
  (hroom : t.dispatched.entries.length < t.dispatch_limit)
  (hf : find_task (begun r).tasks (fun task => task.state.is_ready) = some (i, u))
  (hnext : ∀ t' r' wrote, Holding t' now r' → t'.workflows = t.workflows →
    r'.workflow = r.workflow → r'.version = r.version →
    t'.dispatched.entries.length < t'.dispatch_limit →
    find_task (begun r').tasks (fun task => task.state.is_ready) = some (i, u) →
    Answers (next (begun r') wrote) t' (Dispatches t' now turns r' u))

include h hw hroom hf hnext

theorem blocked_turn_dispatches {cursor : ℕ} (heval : eval_workflow workflow (begun r)
      = { result := some (.error .Blocked), cursor, pending, faulted := false })
    (hblocked : pending.isSome = true ∨ r.open_command = true) :
    Answers (blocked_turn (begun r) now pending wrote_history next) t
      (Dispatches t now (turns + 1) r u) := by
  obtain ⟨c, hs⟩ := h.stored
  have hb : Blocked t (begun r) pending := ⟨workflow, cursor, hw, heval, hblocked⟩
  unfold blocked_turn
  by_cases hfull : pending.isSome = true ∧ (begun r).history.length ≥ 1024
  · rw [if_pos hfull]
    exact .always (Always.throw (.failed _))
  rw [if_neg hfull]
  dsimp only
  cases hev : (opened (begun r) pending).history[seal_end (opened (begun r) pending).history]? with
  | none => exact .always (Always.throw (.failed _))
  | some event =>
    refine Answers.reads (evaluate_reads _ _ event.command now t) (fun out hout => ?_) .failed
    obtain ⟨value, r1, children⟩ := out
    have hturn : Turn t now (begun r) pending event value r1 children :=
      ⟨hb, early_iff.mp h.early, fun hp => by
        by_contra hlen
        exact hfull ⟨hp, not_lt.mp hlen⟩, hev, hout⟩
    dsimp only
    cases value with
    | none => exact settle_dispatches hturn hroom hf
    | some value =>
      simp only [merge_retry_wakeup_history]
      have hchange := Change.resolve h.drivable hturn
      refine Answers.save hs h.one_open hchange (fun hfresh => ?_) .failed
      generalize hrun : ({ merge_retry_wakeup r1 with
        history := r1.history.set (seal_end (opened (begun r) pending).history)
          { event with value := some value }
        wakeup := some 0 } : RunRecord) = run at hchange hfresh
      obtain ⟨hhold, hbegun, -⟩ := h.after_resolve hturn hrun.symm hfresh
      have hframe := hchange.frame
      have hf' : find_task (begun run.saved).tasks (fun task => task.state.is_ready)
          = some (i, u) := by
        have htasks : run.saved.tasks = r1.tasks := by
          rw [← hrun]
          exact merge_retry_wakeup_tasks r1
        rw [hbegun, htasks]
        exact hturn.first_ready hf
      have hloop := hnext (t.commit run children) run.saved (wrote_history || pending.isSome)
        hhold rfl hframe.workflow hframe.version hroom hf'
      rw [hbegun] at hloop
      intro e hwf ht
      obtain ⟨hattempt, hiff⟩ := hloop e hwf ht
      refine ⟨hattempt, fun o ho => (hiff o ho).trans ?_⟩
      exact and_congr_left' ⟨fun hc => .resolves hturn hrun.symm hc, fun hc =>
        hc.next hturn hrun.symm⟩

/-- One turn, and those behind it. -/
theorem drive_turn_dispatches :
    Answers (drive_turn workflow (begun r) now wrote_history next) t
      (Dispatches t now (turns + 1) r u) := by
  unfold drive_turn
  dsimp only
  -- a drive that comes to a wait evaluates to a blocked workflow
  have hover : ∀ o : DriveOutcome, (∀ a, o ≠ .Activity a) →
      (∀ pending, ¬ Blocked t (begun r) pending) → Dispatches t now (turns + 1) r u (.ok o) := by
    intro o ho hnot
    refine .nothing ho (fun hcomes _ => ?_)
    obtain ⟨pending, hb⟩ := hcomes.blocked
    exact absurd hb (hnot pending)
  have hevaluated : ∀ pending, Blocked t (begun r) pending →
      (eval_workflow workflow (begun r)).result = some (.error .Blocked)
        ∧ (eval_workflow workflow (begun r)).faulted = false
        ∧ (eval_workflow workflow (begun r)).pending = pending
        ∧ (pending.isSome = true ∨ (begun r).open_command = true) := by
    rintro pending ⟨workflow', cursor, hw', heval, hopen⟩
    have hsame : t.workflows.lookup (r.workflow, r.version) = some workflow' := hw'
    rw [hw] at hsame
    cases hsame
    rw [heval]
    exact ⟨rfl, rfl, rfl, hopen⟩
  cases hres : (eval_workflow workflow (begun r)).result with
  | none =>
    refine .always (Always.bind (fun _ => Always.pure (hover _ (by simp) ?_)) .failed)
    intro pending hb
    have hblocked := (hevaluated pending hb).1
    rw [hres] at hblocked
    cases hblocked
  | some result =>
    dsimp only
    by_cases hfault : (eval_workflow workflow (begun r)).faulted = true
    · rw [if_pos hfault]
      refine .always (suspend_always (hover _ (by simp) ?_) .failed)
      intro pending hb
      rw [(hevaluated pending hb).2.1] at hfault
      cases hfault
    rw [if_neg hfault]
    have hclean := Bool.eq_false_iff.mpr hfault
    have hresult : ∀ pending, Blocked t (begun r) pending → result = .error .Blocked := by
      intro pending hb
      have hblocked := (hevaluated pending hb).1
      rw [hres] at hblocked
      exact Option.some.inj hblocked
    cases result with
    | ok output =>
      refine .always (finish_run_always (fun o ho => hover o ho ?_) .failed)
      intro pending hb
      cases hresult pending hb
    | error err =>
      cases err with
      | Nondeterminism | Invalid =>
        refine .always (suspend_always (hover _ (by simp) ?_) .failed)
        intro pending hb
        cases hresult pending hb
      | Blocked =>
        dsimp only
        by_cases hmal : ((eval_workflow workflow (begun r)).pending.isNone
            && !(begun r).open_command) = true
        · rw [if_pos hmal]
          refine .always (Always.bind (fun _ => Always.pure (hover _ (by simp) ?_)) .failed)
          intro pending hb
          obtain ⟨-, -, hpending, hopen⟩ := hevaluated pending hb
          rw [hpending, Bool.and_eq_true, Bool.not_eq_true'] at hmal
          rcases hopen with hopen | hopen
          · rw [Option.isNone_iff_eq_none] at hmal
            rw [hmal.1] at hopen
            cases hopen
          · rw [hmal.2] at hopen
            cases hopen
        rw [if_neg hmal]
        obtain ⟨cursor, pending, heval, hblocked⟩ := eval_blocked hres hclean hmal
        rw [heval]
        exact blocked_turn_dispatches h hw hroom hf hnext heval hblocked

end Turn

/-- **The loop of a drive hands out the first ready task** if and only if its turns come
to a wait and the task is not used up. The induction is on the turns left. -/
theorem drive_loop_dispatches {workflow : Workflow} {now : ℤ} {i : ℕ} {u : ActivityTask}
    (turns : ℕ) {t : Machine} {r : RunRecord} {wrote_history : Bool} (h : Holding t now r)
    (hw : t.workflows.lookup (r.workflow, r.version) = some workflow)
    (hroom : t.dispatched.entries.length < t.dispatch_limit)
    (hf : find_task (begun r).tasks (fun task => task.state.is_ready) = some (i, u)) :
    Answers (drive_loop workflow now turns (begun r) wrote_history) t
      (Dispatches t now turns r u) := by
  induction turns generalizing t r wrote_history with
  | zero =>
    refine .always (Always.bind (fun _ => Always.pure (.nothing (by simp) ?_)) .failed)
    intro hcomes _
    cases hcomes
  | succ turns ih =>
    refine drive_turn_dispatches h hw hroom hf ?_
    intro t' r' wrote h' hworkflows hname hversion hroom' hf'
    refine ih h' ?_ hroom' hf'
    rw [hworkflows, hname, hversion]
    exact hw

/-! ## A whole drive -/

theorem retried_frame {m' : Machine} {r' : RunRecord} (h : retried m now r = some (m', r')) :
    (m'.workflows = m.workflows ∧ m'.activities = m.activities ∧ m'.dispatched = m.dispatched
      ∧ m'.dispatch_limit = m.dispatch_limit ∧ m'.retry_policy = m.retry_policy)
      ∧ r'.workflow = r.workflow ∧ r'.version = r.version := by
  unfold retried at h
  split at h
  · split at h
    · cases h
    split at h
    · cases h
      exact ⟨⟨rfl, rfl, rfl, rfl, rfl⟩, rfl, rfl⟩
    split at h
    · split at h <;> cases h <;> exact ⟨⟨rfl, rfl, rfl, rfl, rfl⟩, rfl, rfl⟩
    · cases h
      exact ⟨⟨rfl, rfl, rfl, rfl, rfl⟩, rfl, rfl⟩
  · cases h

theorem advance_tasks_ready {tasks' : List ActivityTask} {changed exhausted : Bool}
    (h : advance_tasks now tasks = .ok (tasks', changed, exhausted)) :
    tasks'.map (fun task => task.attempt.effect_id) = tasks.map (fun task => task.attempt.effect_id)
      ∧ ∀ (j : ℕ) (u : ActivityTask), tasks[j]? = some u → u.state.is_ready = true →
        tasks'[j]? = some u := by
  have hretry : ∀ {t : ActivityTask} {retry : RetryState}, t.state = .Retrying retry →
      t.state.is_ready ≠ true := by
    intro t retry hst
    simp [hst, TaskState.is_ready]
  have heach := advance_tasks_each (R := fun t t' => t.attempt.effect_id = t'.attempt.effect_id
    ∧ (t.state.is_ready = true → t' = t)) (fun _ => ⟨rfl, fun _ => rfl⟩)
    (fun _ _ _ hst => ⟨rfl, fun hr => absurd hr (hretry hst)⟩)
    (fun _ _ _ hst => ⟨rfl, fun hr => absurd hr (hretry hst)⟩) h
  refine ⟨Eq.symm ?_, fun j u hj hu => ?_⟩
  · rw [← List.forall₂_eq_eq_eq, List.forall₂_map_left_iff, List.forall₂_map_right_iff]
    exact heach.imp fun _ _ hkeeps => hkeeps.1
  · obtain ⟨u', hj', hkeeps⟩ := (forall₂_getElem? heach).1 u hj
    rw [hj', hkeeps.2 hu]

theorem begun_task_at {j : ℕ} (h : r.tasks[j]? = some u) :
    (begun r).tasks[j]? = some (normalize_task u) := by
  show (r.tasks.map normalize_task)[j]? = _
  rw [List.getElem?_map, h]
  rfl

theorem begun_effects (r : RunRecord) :
    (begun r).tasks.map (fun task => task.attempt.effect_id)
      = r.tasks.map (fun task => task.attempt.effect_id) := by
  show (r.tasks.map normalize_task).map _ = _
  rw [List.map_map]
  rfl

theorem retried_tasks {m' : Machine} {r' : RunRecord} (h : retried m now r = some (m', r')) :
    (begun r').tasks.map (fun task => task.attempt.effect_id)
        = r.tasks.map (fun task => task.attempt.effect_id)
      ∧ ∀ (j : ℕ) (u : ActivityTask), r.tasks[j]? = some u → u.state.is_ready = true →
        (begun r').tasks[j]? = some (normalize_task u) := by
  unfold retried at h
  cases hout : advance_tasks now (begun r).tasks with
  | error e =>
    rw [hout] at h
    cases h
  | ok out =>
    obtain ⟨tasks, changed, exhausted⟩ := out
    obtain ⟨hids, hready⟩ := advance_tasks_ready hout
    rw [hout] at h
    -- the record keeps its tasks, or takes those of the retries
    have htasks : ∀ run : RunRecord, run.tasks = tasks ∨ run.tasks = (begun r).tasks ∨ run = r →
        (begun run).tasks.map (fun task => task.attempt.effect_id)
            = r.tasks.map (fun task => task.attempt.effect_id)
          ∧ ∀ (j : ℕ) (u : ActivityTask), r.tasks[j]? = some u → u.state.is_ready = true →
            (begun run).tasks[j]? = some (normalize_task u) := by
      rintro run (hrun | hrun | rfl)
      · refine ⟨by rw [begun_effects, hrun, hids, begun_effects], fun j u hj hu => ?_⟩
        have hat : run.tasks[j]? = some (normalize_task u) := by
          rw [hrun]
          exact hready j _ (begun_task_at hj) hu
        rw [begun_task_at hat, normalize_task_idem]
      · refine ⟨by rw [begun_effects, hrun, begun_effects], fun j u hj hu => ?_⟩
        have hat : run.tasks[j]? = some (normalize_task u) := by
          rw [hrun]
          exact begun_task_at hj
        rw [begun_task_at hat, normalize_task_idem]
      · exact ⟨begun_effects run, fun j u hj _ => begun_task_at hj⟩
    simp only at h
    split at h
    · cases h
    split at h
    · cases h
      exact htasks _ (.inl rfl)
    split at h
    · split at h
      · cases h
        exact htasks _ (.inl rfl)
      · cases h
        exact htasks _ (.inr (.inr rfl))
    · cases h
      exact htasks _ (.inr (.inr rfl))

theorem used_up_normalize {policy : RetryPolicy} :
    (normalize_task u).used_up policy now = u.used_up policy now := by
  unfold ActivityTask.used_up normalize_task infer_prior_execution
  simp only [normalize_legacy_attempt_idem]

/-- A drive of the stored run `r` comes to its task `i`: the retries end no effect and
leave this task the first ready one, and the turns of the workflow come to a wait. -/
def Reaches (m : Machine) (now : ℤ) (r : RunRecord) (i : ℕ) : Prop :=
  ∃ m' r' u, retried m now r = some (m', r')
    ∧ find_task (begun r').tasks (fun task => task.state.is_ready) = some (i, u)
    ∧ ComesToWait now 128 m' r'

/-- The outcome is the next dispatch of the task `u`. -/
def DriveOutcome.redispatches (o : DriveOutcome) (u : ActivityTask) : Prop :=
  ∃ a, o = .Activity a ∧ a.effect_id = u.attempt.effect_id ∧ a.attempt = u.attempt.attempt + 1

/-- What a drive answers about a ready task of the stored run. -/
def Redispatches (t : Machine) (now : ℤ) (r : RunRecord) (i : ℕ) (u : ActivityTask)
    (res : Except Error DriveOutcome) : Prop :=
  ∀ o, res = .ok o → (o.redispatches u ↔ Reaches t now r i
    ∧ (u.attempt.name, u.attempt.version) ∈ t.activities ∧ u.used_up t.retry_policy now = false)

theorem Redispatches.failed {t : Machine} (e : Error) : Redispatches t now r i u (.error e) := by
  intro o ho
  cases ho

theorem Redispatches.nothing {t : Machine} {o : DriveOutcome} (ho : ∀ a, o ≠ .Activity a)
    (hnot : ¬ Reaches t now r i) : Redispatches t now r i u (.ok o) := by
  rintro o' ⟨⟩
  exact ⟨fun ⟨a, ha, _⟩ => absurd ha (ho a), fun h => absurd h.1 hnot⟩

theorem retried_redispatches {t t' : Machine} {r0 : RunRecord}
    (hr : retried t now r = some (t', r0)) (hhold : Holding t' now r0)
    (hw : t.workflows.lookup (r.workflow, r.version) = some workflow)
    (hroom : t.dispatched.entries.length < t.dispatch_limit)
    (hnodup : (r.tasks.map (fun task => task.attempt.effect_id)).Nodup) (hu : r.tasks[i]? = some u)
    (hready : u.state.is_ready = true) :
    Answers (drive_loop workflow now 128 (begun r0) false) t' (Redispatches t now r i u) := by
  obtain ⟨⟨hworkflows, hact, hdisp, hlimit, hpolicy⟩, hname, hversion⟩ := retried_frame hr
  obtain ⟨hids, hkept⟩ := retried_tasks hr
  have hui := hkept i u hu hready
  cases hf : find_task (begun r0).tasks (fun task => task.state.is_ready) with
  | none =>
    have hnone := List.any_eq_false.mp (find_task_none hf) _ (List.mem_of_getElem? hui)
    exact absurd hready hnone
  | some found =>
    obtain ⟨j, v⟩ := found
    have hloop := @drive_loop_dispatches _ _ _ _ 128 _ _ false hhold
      (by rw [hworkflows, hname, hversion]; exact hw) (by rw [hdisp, hlimit]; exact hroom) hf
    intro e hwf ht o ho
    obtain ⟨hattempt, hiff⟩ := hloop e hwf ht
    have hiff := hiff o ho
    obtain ⟨hv, -, -⟩ := find_task_some hf
    by_cases hji : j = i
    · subst hji
      rw [hui] at hv
      cases hv
      rw [hact, hpolicy, used_up_normalize] at hiff
      constructor
      · rintro ⟨a, rfl, -⟩
        obtain ⟨hcomes, hreg, hused⟩ := hiff.mp ⟨a, rfl⟩
        exact ⟨⟨t', r0, _, hr, hf, hcomes⟩, hreg, hused⟩
      · rintro ⟨⟨t1, r1, u1, hr1, -, hcomes⟩, hreg, hused⟩
        rw [hr] at hr1
        cases hr1
        obtain ⟨a, rfl⟩ := hiff.mpr ⟨hcomes, hreg, hused⟩
        exact ⟨a, rfl, hattempt a ho⟩
    · constructor
      · rintro ⟨a, rfl, heff, -⟩
        -- the effect handed out is the one of the first ready task
        have hsame : v.attempt.effect_id = u.attempt.effect_id := (hattempt a ho).1.symm.trans heff
        have hlt : j < r.tasks.length := by
          have h1 := (List.getElem?_eq_some_iff.mp hv).1
          have h2 := congrArg List.length hids
          rw [List.length_map, List.length_map] at h2
          omega
        refine absurd ?_ hji
        refine (List.getElem?_inj (by simpa using hlt) hnodup).mp ?_
        rw [← hids, List.getElem?_map, List.getElem?_map, hv, hui, Option.map_some,
          Option.map_some, hsame]
        rfl
      · rintro ⟨⟨t1, r1, u1, hr1, hf1, -⟩, -⟩
        rw [hr] at hr1
        cases hr1
        rw [hf] at hf1
        cases hf1
        exact absurd rfl hji

theorem drive_active_redispatches {t : Machine} {now : ℤ} {r : RunRecord} {c : Option ℤ} {i : ℕ}
    {u : ActivityTask} {resolver : PayloadResolver} (hs : t.runs r.id = some ⟨r, c⟩)
    (ho : OneOpen r.history) (hd : r.state.drivable = true)
    (hinput : unavailable resolver r.input = .ok false)
    (hhistory : history_unavailable resolver r.history = .ok false)
    (hroom : t.dispatched.entries.length < t.dispatch_limit)
    (hnodup : (r.tasks.map (fun task => task.attempt.effect_id)).Nodup)
    (hu : r.tasks[i]? = some u) (hready : u.state.is_ready = true) :
    Answers (drive_active r.normalized now resolver) t (Redispatches t now r i u) := by
  unfold drive_active
  refine Answers.get (fun e ht => ?_)
  have hwf : e.workflows = t.workflows := by
    rw [← ht]
    rfl
  rw [hwf]
  cases hw : t.workflows.lookup (r.normalized.workflow, r.normalized.version) with
  | none =>
    refine .always (suspend_always (.nothing (by simp) ?_) .failed)
    rintro ⟨m', r', u', hr, -, hcomes⟩
    obtain ⟨⟨hworkflows, -⟩, hname, hversion⟩ := retried_frame hr
    obtain ⟨pending, workflow, cursor, hlookup, -⟩ := hcomes.blocked
    have hnone : m'.workflows.lookup ((begun r').workflow, (begun r').version) = none := by
      rw [hworkflows]
      show t.workflows.lookup (r'.workflow, r'.version) = none
      rw [hname, hversion]
      exact hw
    rw [hnone] at hlookup
    cases hlookup
  | some workflow =>
    dsimp only
    have hinput' : unavailable resolver r.normalized.input = .ok false := hinput
    have hhistory' : history_unavailable resolver r.normalized.history = .ok false := hhistory
    rw [hinput', hhistory']
    refine Answers.result (fun gone hgone => ?_) .failed
    cases hgone
    refine Answers.result (fun gone hgone => ?_) .failed
    cases hgone
    refine Answers.bind ((advance_retries_refines hs ho hd).weaken (fun res ls t' ha => ?_))
    cases res with
    | error error => exact .failed error
    | ok out =>
      obtain ⟨r1, o⟩ := out
      rcases ha.retried with ⟨rfl, r0, hr, rfl, hhold⟩ | ⟨⟨s, rfl⟩, hnone⟩
      · exact retried_redispatches hr hhold hw hroom hnodup hu hready
      · refine .always (Always.pure (.nothing (by simp) ?_))
        rintro ⟨m', r', u', hr, -⟩
        rw [hnone] at hr
        cases hr

/-- **What a drive answers about a ready task** of a run that nothing interrupted, whose
payloads are there, while there is room: the task is dispatched again if and only if the
drive comes to it, its activity is registered, and it is not used up. -/
theorem drive_redispatches {t : Machine} {id : String} {now : ℤ} {r : RunRecord} {c : Option ℤ}
    {i : ℕ} {u : ActivityTask} {resolver : PayloadResolver} (hs : t.runs id = some ⟨r, c⟩)
    (hd : r.state.drivable = true)
    (hquiet : r.tasks.any (fun task => task.interrupted t.epoch r.retry_exhausted) = false)
    (hinput : unavailable resolver r.input = .ok false)
    (hhistory : history_unavailable resolver r.history = .ok false)
    (hroom : t.dispatched.entries.length < t.dispatch_limit)
    (hnodup : (r.tasks.map (fun task => task.attempt.effect_id)).Nodup)
    (hu : r.tasks[i]? = some u) (hready : u.state.is_ready = true) :
    Answers (drive_with_resolver id now resolver) t (Redispatches t now r i u) := by
  unfold drive_with_resolver
  refine Answers.bind ?_
  rw [← bind_pure (load id)]
  refine Refines.load (fun r0 c0 hs0 hid ho => ?_) .failed
  subst hid
  rw [hs] at hs0
  cases hs0
  refine Refines.pure (Answers.bind ((recover_refines hs ho).weaken (fun res ls t' hrec => ?_)))
  cases res with
  | error error => exact .failed error
  | ok r' =>
    have hrecovered : t' = t ∧ r' = r.normalized := by
      cases hrec with
      | left h =>
        rw [drivable_recoverable hd] at h
        cases h
      | quiet _ _ hr' =>
        obtain ⟨r1, c1, hs1, hid1, -, rfl, -⟩ := hr'.stored
        rw [hid1, hs] at hs1
        cases hs1
        exact ⟨rfl, rfl⟩
      | saved _ hi _ =>
        rw [hquiet] at hi
        cases hi
    obtain ⟨rfl, rfl⟩ := hrecovered
    have hactive := @drive_active_redispatches t' now r c i u resolver hs ho hd hinput hhistory
      hroom hnodup hu hready
    have hstate : r.normalized.state.drivable = true := hd
    dsimp only
    cases hst : r.normalized.state with
    | Running | NeedsInput | NeedsImplementation => exact hactive
    | _ =>
      rw [hst] at hstate
      cases hstate

/-! ## After a reconciliation -/

theorem reconcile_writes (id effect_id : String) (observed : Option PayloadRef)
    (recorded_at_ms : ℤ) (t : Machine) :
    Refines (perform (.reconcile id effect_id observed recorded_at_ms)) t (fun res _ t' =>
      ∀ audit, res = .ok (.audit audit) → Wrote t id effect_id observed audit t') := by
  refine Refines.bind ((reconcile_inner_refines id effect_id none none observed "engine"
    recorded_at_ms t).weaken (fun res ls t' hw => ?_))
  cases res with
  | error error =>
    rintro audit ⟨⟩
  | ok audit =>
    refine Refines.pure ?_
    rintro audit' ⟨⟩
    exact hw.2 audit rfl

/-- The run after a reconciliation without an observation that left no effect
unresolved: it runs, and the task of the effect is ready. -/
theorem Wrote.running {t t' : Machine} {id effect_id : String} {audit : ReconciliationAudit}
    (h : Wrote t id effect_id none audit t') {c c1 : Option ℤ} (hr : t.runs id = some ⟨r, c⟩)
    (hreason : r.failure_reason ≠ some .RetryExhausted) (hr1 : t'.runs id = some ⟨r1, c1⟩)
    (hclear : has_unresolved_effect r1 = false)
    (hnodup : (r1.tasks.map (fun task => task.attempt.effect_id)).Nodup)
    (hu : r1.tasks[i]? = some u) (heffect : u.attempt.effect_id = effect_id) :
    r1.state = .Running ∧ u.state.is_ready = true := by
  obtain ⟨r0, c0, r', j, task, c', hr0, -, -, hkept, hfind, hwrote⟩ := h.record
  rw [hr] at hr0
  cases hr0
  rw [hr1] at hwrote
  cases hwrote
  constructor
  · have hclear' : has_unresolved_effect { r' with
        tasks := r'.tasks.set j { task with state := resolved_state none } } = false := hclear
    have hreason' : r'.failure_reason ≠ some .RetryExhausted := by
      rw [hkept]
      exact hreason
    show reconciled_state _ = .Running
    unfold reconciled_state
    rw [if_neg (Bool.eq_false_iff.mp hclear'), if_neg hreason']
  · unfold uncertain_task at hfind
    obtain ⟨hget, hp, -⟩ := find_task_some hfind
    rw [Bool.and_eq_true, decide_eq_true_eq] at hp
    have hlt := (List.getElem?_eq_some_iff.mp hget).1
    -- the record has one task of the effect, the one that was written
    generalize htasks : r'.tasks.set j { task with state := resolved_state none } = tasks
    have hu' : tasks[i]? = some u := by
      rw [← htasks]
      exact hu
    have hnodup' : (tasks.map (fun task => task.attempt.effect_id)).Nodup := by
      rw [← htasks]
      exact hnodup
    have hset : tasks[j]? = some { task with state := .Ready } := by
      rw [← htasks, List.getElem?_set_self hlt]
      rfl
    have hij : j = i := by
      have hlen := (List.getElem?_eq_some_iff.mp hset).1
      refine (List.getElem?_inj (by simpa using hlen) hnodup').mp ?_
      rw [List.getElem?_map, List.getElem?_map, hu', hset, Option.map_some, Option.map_some,
        heffect]
      exact congrArg some hp.1
    rw [← hij, hset] at hu'
    cases hu'
    rfl

/-- **An effect reconciled as not run is handed out again if and only if the next drive
comes to it and it is not used up**, counting its executions as a drive does: with the one
that did not happen. The drive may come after any steps of the host that leave the state
of the run and the task as the reconciliation wrote them. -/
theorem reconciled_effect_redispatched_iff {e : Engine} (he : Reachable e)
    {id effect_id : String} {recorded_at_ms : ℤ} {outages : List (Option String)}
    {audit : ReconciliationAudit}
    (hok : (Step.exec ⟨.reconcile id effect_id none recorded_at_ms, outages⟩ e).1
      = .ok (.audit audit))
    {r r1 r2 : RunRecord} (hr : e.store.load id = .ok r)
    (hreason : r.failure_reason ≠ some .RetryExhausted)
    (hr1 : (Step.exec ⟨.reconcile id effect_id none recorded_at_ms, outages⟩ e).2.store.load id
      = .ok r1)
    (hclear : has_unresolved_effect r1 = false) {i : ℕ} {u : ActivityTask}
    (hu : r1.tasks[i]? = some u) (heffect : u.attempt.effect_id = effect_id)
    {between : List Step} {e2 : Engine}
    (he2 : e2 = after (Step.exec ⟨.reconcile id effect_id none recorded_at_ms, outages⟩ e).2
      between)
    (hr2 : e2.store.load id = .ok r2) (hstate : r2.state = r1.state)
    (hu2 : r2.tasks[i]? = some u)
    (hquiet : ∀ task ∈ r2.tasks, task.state.held = true →
      task.attempt.owner_epoch = e2.store.epoch)
    {now : ℤ} {resolver : PayloadResolver} (hinput : unavailable resolver r2.input = .ok false)
    (hhistory : history_unavailable resolver r2.history = .ok false)
    (hroom : e2.dispatched.entries.length < e2.dispatch_limit)
    (hreg : (u.attempt.name, u.attempt.version) ∈ e2.activities)
    {outages' : List (Option String)} {o : DriveOutcome}
    (hdrive : (Step.exec ⟨.drive_with_resolver id now resolver, outages'⟩ e2).1
      = .ok (.drive o)) :
    o.redispatches u ↔ Reaches e2.machine now r2 i ∧ u.used_up e2.retry_policy now = false := by
  have hw := he.wellFormed
  have hreach1 := he.step ⟨.reconcile id effect_id none recorded_at_ms, outages⟩
  have hreach2 : Reachable e2 := by
    rw [he2]
    exact reachable_after hreach1 between
  obtain ⟨c, hrun⟩ := (load_iff hw).mp hr
  obtain ⟨c1, hrun1⟩ := (load_iff hreach1.wellFormed).mp hr1
  obtain ⟨c2, hrun2⟩ := (load_iff hreach2.wellFormed).mp hr2
  -- the reconciliation left a running run, and the task ready
  obtain ⟨ls, -, -, hwrote⟩ := reconcile_writes id effect_id none recorded_at_ms e.machine
    (e.under outages) (wellFormed_outages hw outages) rfl
  obtain ⟨hrunning, hready⟩ := (hwrote audit hok).running hrun hreason hrun1 hclear
    (hreach1.tasked id _ hrun1).2.distinct hu heffect
  rw [hrunning] at hstate
  have hquiet' : r2.tasks.any (fun task => task.interrupted e2.machine.epoch r2.retry_exhausted)
      = false := by
    rw [List.any_eq_false]
    intro task ht hi
    have hnot : r2.retry_exhausted = false := drivable_not_exhausted (by rw [hstate]; rfl)
    unfold ActivityTask.interrupted at hi
    rw [hnot, Bool.false_and, Bool.or_false, Bool.and_eq_true, decide_eq_true_eq] at hi
    exact hi.2 (hquiet task ht hi.1)
  have hanswers := @drive_redispatches e2.machine id now r2 c2 i u resolver hrun2
    (by rw [hstate]; rfl) hquiet' hinput hhistory hroom (hreach2.tasked id _ hrun2).2.distinct hu2
    hready (e2.under outages') (wellFormed_outages hreach2.wellFormed outages') rfl
  have hdrove : (exec (drive_with_resolver id now resolver) (e2.under outages')).1 = .ok o := by
    have hmap : (Step.exec ⟨.drive_with_resolver id now resolver, outages'⟩ e2).1
        = (exec (drive_with_resolver id now resolver) (e2.under outages')).1.map .drive :=
      exec_map _ _ _
    rw [hmap] at hdrive
    cases hres : (exec (drive_with_resolver id now resolver) (e2.under outages')).1 with
    | error error =>
      rw [hres] at hdrive
      cases hdrive
    | ok o' =>
      rw [hres] at hdrive
      cases hdrive
      rfl
  rw [hanswers o hdrove]
  exact ⟨fun ⟨h1, _, h3⟩ => ⟨h1, h3⟩, fun ⟨h1, h3⟩ => ⟨h1, hreg, h3⟩⟩

/-- The effect of `Sample.doubted` did not happen. -/
def Sample.not_run : Step := Sample.call (.reconcile "run" (effect_id_at "run" 0) none 0)

/-- Its task after the reconciliation: the dispatch that did not run counts as one. -/
def Sample.ready_again : ActivityTask :=
  { attempt := Sample.first_attempt "run", state := .Ready
    execution := ⟨1, 1, false, 0⟩ }

/-- What the samples read of the run after the reconciliation. -/
def Sample.settled_doubt (r : RunRecord) : Bool :=
  !has_unresolved_effect r && decide (r.tasks[0]? = some Sample.ready_again)
    && r.tasks.all (fun task => !task.state.held)
    && decide (unavailable MissingPayloads r.input = .ok false)
    && decide (history_unavailable MissingPayloads r.history = .ok false)

theorem Sample.settled_doubt_iff : Sample.settled_doubt r = true ↔
    has_unresolved_effect r = false ∧ r.tasks[0]? = some Sample.ready_again
      ∧ (∀ task ∈ r.tasks, task.state.held = false)
      ∧ unavailable MissingPayloads r.input = .ok false
      ∧ history_unavailable MissingPayloads r.history = .ok false := by
  unfold Sample.settled_doubt
  simp only [Bool.and_eq_true, Bool.not_eq_true', decide_eq_true_eq, List.all_eq_true, and_assoc]

theorem Sample.doubt_settled {e e1 : Engine} (he : e = Sample.host (Sample.doubted "run"))
    (he1 : e1 = (Sample.not_run.exec e).2) :
    (Sample.not_run.exec e).1 = .ok (.audit ⟨effect_id_at "run" 0, 1, 1, "engine", 0, false⟩)
      ∧ (∃ r, e.store.load "run" = .ok r ∧ r.failure_reason ≠ some .RetryExhausted)
      ∧ (∃ r1, e1.store.load "run" = .ok r1 ∧ Sample.settled_doubt r1 = true)
      ∧ e1.dispatched.entries.length < e1.dispatch_limit
      ∧ ("a", "1") ∈ e1.activities ∧ e1.retry_policy = RetryPolicy.default
      ∧ (Step.exec ⟨.drive_with_resolver "run" 0 MissingPayloads, []⟩ e1).1
        = .ok (.drive (.Activity { Sample.first_attempt "run" with attempt := 2 }))
      ∧ (Step.exec ⟨.drive_with_resolver "run" 60000 MissingPayloads, []⟩ e1).1
        = .ok (.drive (.Suspended .Failed)) := by
  subst he1
  have hbefore : (e.store.load "run").map
      (fun r => decide (r.failure_reason ≠ some .RetryExhausted)) = .ok true := by
    rw [he]
    decide +kernel
  have hafter : ((Sample.not_run.exec e).2.store.load "run").map Sample.settled_doubt
      = .ok true := by
    rw [he]
    decide +kernel
  refine ⟨by rw [he]; decide +kernel, ?_, ?_, by rw [he]; decide +kernel,
    by rw [he]; decide +kernel, by rw [he]; decide +kernel, by rw [he]; decide +kernel,
    by rw [he]; decide +kernel⟩
  · cases hr : e.store.load "run" with
    | error error =>
      rw [hr] at hbefore
      cases hbefore
    | ok r =>
      rw [hr] at hbefore
      exact ⟨r, rfl, by simpa using Except.ok.inj hbefore⟩
  · cases hr : (Sample.not_run.exec e).2.store.load "run" with
    | error error =>
      rw [hr] at hafter
      cases hafter
    | ok r1 =>
      rw [hr] at hafter
      exact ⟨r1, rfl, Except.ok.inj hafter⟩

/-- A drive at once hands the effect out again. -/
theorem reconciled_at_once_redispatched :
    ∃ r, (Sample.not_run.exec (Sample.host (Sample.doubted "run"))).2.store.load "run" = .ok r
      ∧ Reaches (Sample.not_run.exec (Sample.host (Sample.doubted "run"))).2.machine 0 r 0
      ∧ Sample.ready_again.used_up RetryPolicy.default 0 = false := by
  obtain ⟨e, he⟩ : ∃ e, e = Sample.host (Sample.doubted "run") := ⟨_, rfl⟩
  obtain ⟨e1, he1⟩ : ∃ e1, e1 = (Sample.not_run.exec e).2 := ⟨_, rfl⟩
  obtain ⟨hok, ⟨r, hr, hreason⟩, ⟨r1, hr1, hsettled⟩, hroom, hreg, hpolicy, hdrive, -⟩ :=
    Sample.doubt_settled he he1
  obtain ⟨hclear, hu, hfree, hinput, hhistory⟩ := Sample.settled_doubt_iff.mp hsettled
  have hreach : Reachable e := by
    rw [he]
    exact Sample.host_reachable _
  have hr1' : (Sample.not_run.exec e).2.store.load "run" = .ok r1 := by
    rw [← he1]
    exact hr1
  have hquiet : ∀ task ∈ r1.tasks, task.state.held = true →
      task.attempt.owner_epoch = e1.store.epoch := by
    intro task ht hheld
    rw [hfree task ht] at hheld
    cases hheld
  have hiff := reconciled_effect_redispatched_iff hreach hok hr hreason hr1' hclear hu rfl
    (show e1 = after (Sample.not_run.exec e).2 [] from he1) hr1 rfl hu hquiet hinput hhistory
    hroom hreg hdrive
  rw [← he, ← he1]
  rw [hpolicy] at hiff
  exact ⟨r1, hr1, hiff.mp ⟨_, rfl, rfl, rfl⟩⟩

/-- **An effect that did not happen and is not handed out again.** The reconciliation
comes at once, and the next drive a minute later, at the end of the default window: the
run fails, as if the effect had been tried in vain. -/
theorem reconciled_late_not_redispatched :
    ¬ ∀ (e : Engine), Reachable e → ∀ (id effect_id : String) (recorded_at_ms : ℤ)
      (outages : List (Option String)) (audit : ReconciliationAudit) (r r1 r2 : RunRecord),
      (Step.exec ⟨.reconcile id effect_id none recorded_at_ms, outages⟩ e).1
        = .ok (.audit audit) →
      e.store.load id = .ok r → r.failure_reason ≠ some .RetryExhausted →
      (Step.exec ⟨.reconcile id effect_id none recorded_at_ms, outages⟩ e).2.store.load id
        = .ok r1 → has_unresolved_effect r1 = false →
      ∀ (i : ℕ) (u : ActivityTask), r1.tasks[i]? = some u → u.attempt.effect_id = effect_id →
      ∀ (between : List Step) (e2 : Engine),
      e2 = after (Step.exec ⟨.reconcile id effect_id none recorded_at_ms, outages⟩ e).2 between →
      e2.store.load id = .ok r2 → r2.state = r1.state → r2.tasks[i]? = some u →
      (∀ j < i, ∀ v, r2.tasks[j]? = some v → v.state.is_ready = false) →
      ∀ (now : ℤ) (resolver : PayloadResolver), unavailable resolver r2.input = .ok false →
      history_unavailable resolver r2.history = .ok false →
      e2.dispatched.entries.length < e2.dispatch_limit →
      (u.attempt.name, u.attempt.version) ∈ e2.activities →
      ∀ (outages' : List (Option String)) (o : DriveOutcome),
      (Step.exec ⟨.drive_with_resolver id now resolver, outages'⟩ e2).1 = .ok (.drive o) →
      o.redispatches u := by
  intro hall
  obtain ⟨e, he⟩ : ∃ e, e = Sample.host (Sample.doubted "run") := ⟨_, rfl⟩
  obtain ⟨e1, he1⟩ : ∃ e1, e1 = (Sample.not_run.exec e).2 := ⟨_, rfl⟩
  obtain ⟨hok, ⟨r, hr, hreason⟩, ⟨r1, hr1, hsettled⟩, hroom, hreg, -, -, hdrive⟩ :=
    Sample.doubt_settled he he1
  obtain ⟨hclear, hu, hfree, hinput, hhistory⟩ := Sample.settled_doubt_iff.mp hsettled
  have hreach : Reachable e := by
    rw [he]
    exact Sample.host_reachable _
  have hr1' : (Sample.not_run.exec e).2.store.load "run" = .ok r1 := by
    rw [← he1]
    exact hr1
  obtain ⟨a, ha, -⟩ := hall e hreach "run" (effect_id_at "run" 0) 0 [] _ r r1 r1 hok hr hreason hr1'
    hclear 0 Sample.ready_again hu rfl [] e1 he1 hr1 rfl hu
    (fun j hj => absurd hj (Nat.not_lt_zero j)) 60000 MissingPayloads hinput hhistory hroom hreg []
    _ hdrive
  cases ha

end Appcall.Durable
