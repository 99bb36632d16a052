/-
The life of one activity task.

A dozen operations move tasks between their states. `TaskMove` says, for one
task and one move of the engine, everything that can happen to it, with the
label of the move beside it; `Change.tasks` proves that this is all, over every
commit. The two facts hosts rely on are then read off `TaskMove`: an effect that
is not safe to repeat leaves an executor only towards `Uncertain` or `Done`, and
`Done` is for good.
-/
import Mathlib.Data.List.Forall2
import Appcall.Engine.Runs

set_option autoImplicit false

namespace Appcall.Durable

open Appcall.Refine

/-! ## What can happen to a task -/

/-- **The moves of a task** of the run `id`, by the label of the engine's move. -/
inductive TaskMove (m : Machine) (id : String) :
    Label → ActivityTask → ActivityTask → Prop where
  | kept {l : Label} {t t' : ActivityTask} :
      t'.attempt = t.attempt → t'.state = t.state → TaskMove m id l t t'
  | rejected {t t' : ActivityTask} {reason : RunFailure} :
      t.state = .InFlight → t'.attempt = t.attempt → t'.state = .Ready →
      TaskMove m id (.reject_dispatch t.attempt reason) t t'
  | missing {t t' : ActivityTask} :
      t.state = .InFlight → t'.attempt = t.attempt → t'.state = .Ready →
      TaskMove m id (.missing_payload t.attempt) t t'
  | invoked {t t' : ActivityTask} :
      t.state = .InFlight → t'.attempt = t.attempt → t'.state = .Invoking →
      TaskMove m id (.invoke t.attempt) t t'
  | completed {t t' : ActivityTask} {output : PayloadRef} :
      t.state.held = true → t.attempt.owner_epoch = m.epoch → t'.attempt = t.attempt →
      t'.state = .Done output → TaskMove m id (.complete t.attempt output) t t'
  | failed {t t' : ActivityTask} {failure : ActivityFailure} {failed_at_ms : ℤ} :
      t.state.held = true → t.attempt.owner_epoch = m.epoch → t'.attempt = t.attempt →
      (t.attempt.policy.safe = true ∧ (t'.state = .Ready ∨ ∃ retry, t'.state = .Retrying retry))
        ∨ t'.state = .Uncertain →
      TaskMove m id (.fail t.attempt failure failed_at_ms) t t'
  | interrupted {t t' : ActivityTask} :
      t.state.held = true → t'.attempt = t.attempt →
      t'.state = (if t.attempt.policy.safe then .Ready else .Uncertain) →
      TaskMove m id (.recover id) t t'
  | resolved {t t' : ActivityTask} {observed : Option PayloadRef} :
      t.state = .Uncertain → t'.attempt = t.attempt → t'.state = resolved_state observed →
      TaskMove m id (.reconcile id t.attempt.effect_id observed) t t'
  | retried {l : Label} {t t' : ActivityTask} {retry : RetryState} {policy : Option RetryPolicy} :
      l = .retry_ready id ∨ l = .retry_exhausted id → t.state = .Retrying retry →
      t'.attempt = { t.attempt with retry_policy := policy } → t'.state = .Ready →
      TaskMove m id l t t'
  | dispatched {t t' : ActivityTask} {started retry_started : ℤ} {policy : Option RetryPolicy} :
      t.state = .Ready →
      t'.attempt = { t.attempt with
        attempt := t.attempt.attempt + 1, owner_epoch := m.epoch, started_at_ms := started,
        retry_started_at_ms := retry_started, retry_policy := policy } →
      t'.state = .InFlight → TaskMove m id (.dispatch id t'.attempt) t t'

theorem TaskMove.refl (m : Machine) (id : String) (l : Label) (t : ActivityTask) :
    TaskMove m id l t t := .kept rfl rfl

variable {m : Machine} {id : String} {l : Label} {t t' : ActivityTask} {now : ℤ} {r : RunRecord}
  {pending : Option Command} {event : HistoryEvent} {value : Option CommandValue}
  {children : List RunRecord} {a : ActivityAttempt} {epoch i : ℕ} {task task' : ActivityTask}
  {execution : ExecutionAccounting} {policy : RetryPolicy} {tasks' : List ActivityTask}
  {r' : RunRecord} {base : List ActivityTask} {m' : Machine}

structure SameEffect (t t' : ActivityTask) : Prop where
  run_id : t'.attempt.run_id = t.attempt.run_id
  effect_id : t'.attempt.effect_id = t.attempt.effect_id
  policy : t'.attempt.policy = t.attempt.policy
  attempt : t.attempt.attempt ≤ t'.attempt.attempt

theorem SameEffect.of_attempt (h : t'.attempt = t.attempt) : SameEffect t t' :=
  ⟨by rw [h], by rw [h], by rw [h], by rw [h]⟩

theorem TaskMove.effect (h : TaskMove m id l t t') : SameEffect t t' := by
  cases h with
  | kept h1 => exact .of_attempt h1
  | rejected _ h2 | missing _ h2 | invoked _ h2 | interrupted _ h2 | resolved _ h2 =>
    exact .of_attempt h2
  | completed _ _ h3 | failed _ _ h3 => exact .of_attempt h3
  | retried _ _ h2 => exact ⟨by rw [h2], by rw [h2], by rw [h2], by rw [h2]⟩
  | dispatched _ h2 => exact ⟨by rw [h2], by rw [h2], by rw [h2], by rw [h2]; exact Nat.le_succ _⟩

theorem TaskMove.done (h : TaskMove m id l t t') {p : PayloadRef} (hd : t.state = .Done p) :
    t'.state = .Done p := by
  cases h with
  | kept _ h2 => rw [h2, hd]
  | rejected h1 | missing h1 | invoked h1 | resolved h1 | retried _ h1 | dispatched h1 =>
    rw [hd] at h1
    cases h1
  | completed h1 | failed h1 | interrupted h1 =>
    rw [hd] at h1
    cases h1

/-! ## The tasks of a run -/

section Lists

variable {R : ActivityTask → ActivityTask → Prop} {tasks : List ActivityTask}

variable {t' : ActivityTask} {f : ActivityTask → ActivityTask}

theorem forall₂_map (h : ∀ t ∈ tasks, R t (f t)) : List.Forall₂ R tasks (tasks.map f) :=
  List.forall₂_map_right_iff.mpr (List.forall₂_same.mpr h)

theorem forall₂_set_map (hf : ∀ t, R t (f t)) {i : ℕ} {t : ActivityTask} (hi : tasks[i]? = some t)
    (h : R t t') : List.Forall₂ R tasks ((tasks.map f).set i t') := by
  induction tasks generalizing i with
  | nil => cases hi
  | cons x tasks ih =>
    cases i with
    | zero =>
      cases hi
      exact .cons h (forall₂_map (fun y _ => hf y))
    | succ i => exact .cons (hf x) (ih hi)

theorem forall₂_set (hr : ∀ t, R t t) {i : ℕ} {t : ActivityTask} (hi : tasks[i]? = some t)
    (h : R t t') : List.Forall₂ R tasks (tasks.set i t') := by
  simpa using forall₂_set_map (f := fun t => t) hr hi h

theorem getElem?_map_some {i : ℕ} (h : (tasks.map f)[i]? = some t') :
    ∃ t, tasks[i]? = some t ∧ f t = t' := by
  rw [List.getElem?_map] at h
  exact Option.map_eq_some_iff.mp h

theorem forall₂_getElem? {tasks' : List ActivityTask} (h : List.Forall₂ R tasks tasks') {i : ℕ} :
    (∀ t, tasks[i]? = some t → ∃ t', tasks'[i]? = some t' ∧ R t t')
      ∧ (∀ t', tasks'[i]? = some t' → ∃ t, tasks[i]? = some t ∧ R t t') := by
  induction h generalizing i with
  | nil => exact ⟨by simp, by simp⟩
  | @cons a b _ _ hr _ ih =>
    cases i with
    | zero =>
      refine ⟨?_, ?_⟩
      · rintro t ⟨⟩
        exact ⟨b, rfl, hr⟩
      · rintro t ⟨⟩
        exact ⟨a, rfl, hr⟩
    | succ i => exact ih

end Lists

/-- The tasks of a run, as a commit finds them after the evaluation of the open
command: the stored ones, with a new one for an activity that is asked for the
first time. -/
def Grown (m : Machine) (r : RunRecord) (base : List ActivityTask) : Prop :=
  base = r.tasks ∨ ∃ index name version input policy,
    r.task? (effect_id_at r.id index) = none
      ∧ base = r.tasks ++ [new_task r m.epoch index name version input policy]

/-- Tasks that only had their accounting touched. -/
def Kept (t t' : ActivityTask) : Prop := t'.attempt = t.attempt ∧ t'.state = t.state

theorem Turn.normalized {r1 : RunRecord}
    (h : Turn m now (begun r) pending event value r1 children) :
    ∃ base, Grown m r base ∧ r1.tasks = base.map normalize_task := by
  rcases h.evaluated.tasks with ht | ⟨name, version, input, policy, hnone, ht⟩
  · exact ⟨r.tasks, .inl rfl, ht⟩
  · refine ⟨r.tasks ++ [new_task r m.epoch (seal_end (opened (begun r) pending).history) name
      version input policy], .inr ⟨_, name, version, input, policy, ?_, rfl⟩, ?_⟩
    · unfold RunRecord.task? at hnone ⊢
      rw [List.find?_eq_none] at hnone ⊢
      exact fun t ht' => hnone (normalize_task t) (List.mem_map_of_mem ht')
    · rw [ht, List.map_append]
      rfl

theorem Turn.grown {r1 : RunRecord} (h : Turn m now (begun r) pending event value r1 children) :
    ∃ base, Grown m r base ∧ List.Forall₂ Kept base r1.tasks := by
  obtain ⟨base, hgrown, htasks⟩ := h.normalized
  refine ⟨base, hgrown, ?_⟩
  rw [htasks]
  exact forall₂_map (fun _ _ => ⟨rfl, rfl⟩)

theorem owned_task_ok (h : owned_task r a epoch = .ok (i, task)) :
    r.tasks[i]? = some task ∧ task.attempt = a ∧ a.owner_epoch = epoch
      ∧ task.state.held = true := by
  unfold owned_task at h
  split at h
  · rename_i found hf
    cases h
    obtain ⟨hget, hp, -⟩ := find_task_some hf
    simp only [Bool.and_eq_true, decide_eq_true_eq] at hp
    exact ⟨hget, hp.1.1.1, hp.1.2, hp.2⟩
  · cases h

theorem owned_attempt_ok (h : owned_attempt r a epoch = .ok (i, task)) :
    r.tasks[i]? = some task ∧ task.attempt = a ∧ a.owner_epoch = epoch
      ∧ task.state.held = true ∧ (r.state.terminal = true → r.retry_exhausted = true) := by
  unfold owned_attempt at h
  simp only [bind, Except.bind, throw, throwThe, MonadExceptOf.throw, pure, Except.pure] at h
  cases ho : owned_task r a epoch with
  | error e => rw [ho] at h; cases h
  | ok found =>
    rw [ho] at h
    simp only at h
    split at h
    · cases h
    · rename_i hterm
      cases h
      obtain ⟨h1, h2, h3, h4⟩ := owned_task_ok ho
      refine ⟨h1, h2, h3, h4, fun ht => ?_⟩
      unfold RunRecord.retry_exhausted
      simp only [ht, true_and, not_not] at hterm
      simp [hterm.1, hterm.2]

theorem failed_task_ok {failure : ActivityFailure} {failed_at_ms : ℤ}
    (h : failed_task task execution failure failed_at_ms policy = .ok task') :
    task'.attempt = task.attempt
      ∧ ((task.attempt.policy.safe = true
          ∧ (task'.state = .Ready ∨ ∃ retry, task'.state = .Retrying retry))
        ∨ task'.state = .Uncertain) := by
  unfold failed_task at h
  split at h
  · rename_i hsafe
    simp only [bind, Except.bind, pure, Except.pure] at h
    split at h
    · cases h
    split at h
    · cases h
      exact ⟨rfl, .inl ⟨hsafe.1, .inl rfl⟩⟩
    · cases h
      exact ⟨rfl, .inl ⟨hsafe.1, .inr ⟨_, rfl⟩⟩⟩
  · cases h
    exact ⟨rfl, .inr rfl⟩

theorem next_dispatch_ok (h : next_dispatch task execution epoch now policy = .ok task') :
    task'.state = .InFlight ∧ ∃ retry_started policy',
      task'.attempt = { task.attempt with
        attempt := task.attempt.attempt + 1, owner_epoch := epoch, started_at_ms := now,
        retry_started_at_ms := retry_started, retry_policy := policy' } := by
  unfold next_dispatch at h
  simp only [bind, Except.bind, pure, Except.pure] at h
  cases hn : checked_succ task.attempt.attempt with
  | error e => rw [hn] at h; cases h
  | ok number =>
    rw [hn] at h
    simp only at h
    have hnum := checked_succ_ok hn
    subst hnum
    split at h
    · cases h
      exact ⟨rfl, _, _, rfl⟩
    · cases h
      exact ⟨rfl, _, _, rfl⟩

theorem completed_run_tasks (r : RunRecord) : (completed_run r).tasks = r.tasks := by
  rw [completed_run_frame]

theorem failed_run_tasks (r : RunRecord) (s : TaskState) : (failed_run r s).tasks = r.tasks := by
  rw [failed_run_frame]

theorem mark_retry_exhausted_tasks (r : RunRecord) : (mark_retry_exhausted r).tasks = r.tasks := rfl

theorem still_ready_tasks (r : RunRecord) : (still_ready r).tasks = r.tasks := by
  rw [still_ready_frame]

theorem is_ready_iff {state : TaskState} : state.is_ready = true ↔ state = .Ready := by
  cases state <;> simp [TaskState.is_ready]

/-- The effect a move dispatches, starts or refuses. -/
def Label.charges : Label → Option String
  | .dispatch _ a | .invoke a | .reject_dispatch a _ | .missing_payload a => some a.effect_id
  | _ => none

/-- What such a move does to the task of the effect, with its accounting. -/
inductive Charged (m : Machine) (id : String) : Label → ActivityTask → ActivityTask → Prop where
  | refused {l : Label} {t : ActivityTask} :
      (∃ reason, l = .reject_dispatch t.attempt reason) ∨ l = .missing_payload t.attempt →
      t.state = .InFlight → t.attempt.owner_epoch = m.epoch →
      Charged m id l t { t with
        state := .Ready, execution := { t.execution with known_unexecuted := true } }
  | invoked {t : ActivityTask} {execution : ExecutionAccounting} {started_at_ms : ℤ} :
      t.state = .InFlight → t.attempt.owner_epoch = m.epoch →
      start_execution t.attempt t.execution started_at_ms = .ok execution →
      Charged m id (.invoke t.attempt) t { t with execution, state := .Invoking }
  | dispatched {t t' : ActivityTask} {execution : ExecutionAccounting} {now : ℤ} :
      t.state = .Ready →
      infer_prior_execution t.attempt (normalize_task t).execution = execution →
      out_of_retries { normalize_task t with execution } execution
        (t.attempt.retry_policy.getD m.retry_policy) now = false →
      next_dispatch { normalize_task t with execution } execution m.epoch now m.retry_policy
        = .ok t' →
      Charged m id (.dispatch id t'.attempt) t t'

/-- **What a commit does to a task** of the run `id`, with its accounting. -/
inductive Charge (m : Machine) (id : String) : Label → ActivityTask → ActivityTask → Prop where
  | kept {l : Label} {t : ActivityTask} : Charge m id l t t
  | normal {l : Label} {t : ActivityTask} : Charge m id l t (normalize_task t)
  | charged {l : Label} {t t' : ActivityTask} : Charged m id l t t' → Charge m id l t t'
  | completed {t : ActivityTask} {execution : ExecutionAccounting} {output : PayloadRef} :
      t.state.held = true → t.attempt.owner_epoch = m.epoch →
      mark_execution t.attempt t.execution t.attempt.started_at_ms = .ok execution →
      Charge m id (.complete t.attempt output) t { t with execution, state := .Done output }
  | failed {t t' : ActivityTask} {execution : ExecutionAccounting} {failure : ActivityFailure}
      {failed_at_ms : ℤ} :
      t.state.held = true → t.attempt.owner_epoch = m.epoch →
      mark_execution t.attempt t.execution t.attempt.started_at_ms = .ok execution →
      failed_task t execution failure failed_at_ms m.retry_policy = .ok t' →
      Charge m id (.fail t.attempt failure failed_at_ms) t t'
  | interrupted {t : ActivityTask} {retry_exhausted : Bool} :
      t.interrupted m.epoch retry_exhausted = true →
      Charge m id (.recover id) t (recover_task m.epoch retry_exhausted t)
  | resolved {t : ActivityTask} {observed : Option PayloadRef} :
      t.state = .Uncertain →
      Charge m id (.reconcile id t.attempt.effect_id observed) t
        { normalize_task t with state := resolved_state observed }
  | overdue {l : Label} {t : ActivityTask} {retry : RetryState} :
      l = .retry_ready id ∨ l = .retry_exhausted id → t.state = .Retrying retry →
      Charge m id l t { normalize_task t with state := .Ready }
  | retried {l : Label} {t : ActivityTask} {retry : RetryState} :
      l = .retry_ready id ∨ l = .retry_exhausted id → t.state = .Retrying retry →
      Charge m id l t { normalize_task t with
        attempt := { t.attempt with retry_policy := some retry.policy }, state := .Ready }
  | inferred {l : Label} {t : ActivityTask} : t.state = .Ready →
      Charge m id l t { normalize_task t with
        execution := infer_prior_execution t.attempt (normalize_task t).execution }

theorem Charged.move (h : Charged m id l t t') : TaskMove m id l t t' := by
  cases h with
  | refused hl hin _ =>
    rcases hl with ⟨reason, rfl⟩ | rfl
    · exact .rejected hin rfl rfl
    · exact .missing hin rfl rfl
  | invoked hin _ _ => exact .invoked hin rfl rfl
  | dispatched hready _ _ hnext =>
    obtain ⟨hin, started, policy, hatt⟩ := next_dispatch_ok hnext
    exact .dispatched hready hatt hin

theorem Charge.move (h : Charge m id l t t') : TaskMove m id l t t' := by
  cases h with
  | kept | normal | inferred => exact .kept rfl rfl
  | charged hc => exact hc.move
  | completed hheld hepoch _ => exact .completed hheld hepoch rfl rfl
  | failed hheld hepoch _ hfail =>
    obtain ⟨hatt, hst⟩ := failed_task_ok hfail
    exact .failed hheld hepoch hatt hst
  | @interrupted _ retry_exhausted hi =>
    have hheld : t.state.held = true := by
      unfold ActivityTask.interrupted at hi
      exact (Bool.and_eq_true_iff.mp hi).1
    refine .interrupted hheld rfl ?_
    unfold recover_task
    simp [hi]
  | resolved hunc => exact .resolved hunc rfl rfl
  | overdue hl hst => exact .retried hl hst rfl rfl
  | retried hl hst => exact .retried hl hst rfl rfl

/-- The loop of `advance_retries` keeps a task, or makes it ready. -/
theorem advance_tasks_each {R : ActivityTask → ActivityTask → Prop} {tasks : List ActivityTask}
    {changed exhausted : Bool} (hkeep : ∀ t, R t t)
    (hover : exhausted = true → ∀ t retry, t.state = .Retrying retry →
      R t { t with state := .Ready })
    (hready : changed = true → ∀ t retry, t.state = .Retrying retry → R t { t with
      attempt := { t.attempt with retry_policy := some retry.policy }, state := .Ready })
    (h : advance_tasks now tasks = .ok (tasks', changed, exhausted)) :
    List.Forall₂ R tasks tasks' := by
  induction tasks generalizing tasks' changed exhausted with
  | nil =>
    cases h
    exact .nil
  | cons task tasks ih =>
    unfold advance_tasks at h
    cases hst : task.state with
    | Ready | InFlight | Invoking | Done | Uncertain =>
      rw [hst] at h
      simp only [bind, Except.bind, pure, Except.pure] at h
      cases hrec : advance_tasks now tasks with
      | error e => rw [hrec] at h; cases h
      | ok out =>
        rw [hrec] at h
        cases h
        exact .cons (hkeep task) (ih hover hready hrec)
    | Retrying retry =>
      rw [hst] at h
      simp only [bind, Except.bind, pure, Except.pure] at h
      split at h
      · cases h
      split at h
      · cases h
        exact .cons (hover rfl task retry hst) (List.forall₂_same.mpr fun t _ => hkeep t)
      · cases hrec : advance_tasks now tasks with
        | error e => rw [hrec] at h; cases h
        | ok out =>
          rw [hrec] at h
          simp only at h
          split at h
          · cases h
            exact .cons (hready rfl task retry hst) (ih hover (fun _ => hready rfl) hrec)
          · cases h
            exact .cons (hkeep task) (ih hover hready hrec)

theorem advance_tasks_charges {tasks : List ActivityTask} {changed exhausted : Bool}
    (h : advance_tasks now (tasks.map normalize_task) = .ok (tasks', changed, exhausted))
    (hl : changed = true ∨ exhausted = true → l = .retry_ready id ∨ l = .retry_exhausted id) :
    List.Forall₂ (Charge m id l) tasks tasks' := by
  have heach := advance_tasks_each (R := fun u t' => ∀ t, normalize_task t = u → Charge m id l t t')
    ?_ ?_ ?_ h
  · exact (List.forall₂_map_left_iff.mp heach).imp fun t t' hcharge => hcharge t rfl
  · rintro u t rfl
    exact .normal
  · rintro he u retry hst t rfl
    exact .overdue (hl (.inr he)) hst
  · rintro hc u retry hst t rfl
    exact .retried (hl (.inl hc)) hst

/-- A move charges one of the tasks, if it charges any. -/
def Charges (m : Machine) (id : String) (l : Label) (base tasks' : List ActivityTask) : Prop :=
  ∀ effect_id, l.charges = some effect_id → ∃ (i : ℕ) (t t' : ActivityTask),
    base[i]? = some t ∧ tasks'[i]? = some t' ∧ t.attempt.effect_id = effect_id
      ∧ Charged m id l t t'

theorem charges_set {tasks : List ActivityTask} (hi : tasks[i]? = some t) (h : Charged m id l t t')
    (hl : l.charges = some t.attempt.effect_id) : Charges m id l tasks (tasks.set i t') := by
  intro effect_id heff
  rw [hl] at heff
  cases heff
  exact ⟨i, t, t', hi, List.getElem?_set_self (List.getElem?_eq_some_iff.mp hi).1, rfl, h⟩

/-- **Every commit charges every task**, and may add one new task before it does. -/
theorem Change.charges (h : Change m l r r' children) :
    ∃ base, Grown m r base ∧ List.Forall₂ (Charge m r.id l) base r'.tasks ∧
      Charges m r.id l base r'.tasks := by
  have hrefl : ∀ t, Charge m r.id l t t := fun _ => .kept
  have hsame : List.Forall₂ (Charge m r.id l) r.tasks r.tasks :=
    List.forall₂_same.mpr (fun t _ => hrefl t)
  have hnorm : List.Forall₂ (Charge m r.id l) r.tasks (begun r).tasks :=
    forall₂_map (fun _ _ => .normal)
  -- a commit that charges no task
  have hfree : l.charges = none → ∀ base, Grown m r base →
      List.Forall₂ (Charge m r.id l) base r'.tasks →
      ∃ base, Grown m r base ∧ List.Forall₂ (Charge m r.id l) base r'.tasks ∧
        Charges m r.id l base r'.tasks := by
    intro hnone base hgrown hcharges
    refine ⟨base, hgrown, hcharges, fun effect_id heff => ?_⟩
    rw [hnone] at heff
    cases heff
  cases h with
  | reject_run | abort | resume | signal | cancel_request | cancel_done | wake =>
    exact hfree rfl r.tasks (.inl rfl) hsame
  | suspend | nondeterminism | finish | progressed => exact hfree rfl r.tasks (.inl rfl) hnorm
  | reject_dispatch reason _ hown hin =>
    obtain ⟨hget, rfl, hepoch, -⟩ := owned_task_ok hown
    have hc : Charged m r.id (.reject_dispatch _ reason) _ _ :=
      .refused (.inl ⟨reason, rfl⟩) hin hepoch
    exact ⟨r.tasks, .inl rfl, forall₂_set hrefl hget (.charged hc), charges_set hget hc rfl⟩
  | missing_payload hown hin =>
    obtain ⟨hget, rfl, hepoch, -⟩ := owned_attempt_ok hown
    have hc : Charged m r.id (.missing_payload _) _ _ := .refused (.inr rfl) hin hepoch
    exact ⟨r.tasks, .inl rfl, forall₂_set hrefl hget (.charged hc), charges_set hget hc rfl⟩
  | invoke hown hin hstart =>
    obtain ⟨hget, rfl, hepoch, -⟩ := owned_attempt_ok hown
    have hc : Charged m r.id (.invoke _) _ _ := .invoked hin hepoch hstart
    exact ⟨r.tasks, .inl rfl, forall₂_set hrefl hget (.charged hc), charges_set hget hc rfl⟩
  | complete hown hmark =>
    obtain ⟨hget, rfl, hepoch, hheld, -⟩ := owned_attempt_ok hown
    refine hfree rfl r.tasks (.inl rfl) ?_
    rw [completed_run_tasks]
    exact forall₂_set hrefl hget (.completed hheld hepoch hmark)
  | fail hown hmark hfail =>
    obtain ⟨hget, rfl, hepoch, hheld, -⟩ := owned_attempt_ok hown
    refine hfree rfl r.tasks (.inl rfl) ?_
    rw [failed_run_tasks]
    exact forall₂_set hrefl hget (.failed hheld hepoch hmark hfail)
  | recover =>
    refine hfree rfl r.tasks (.inl rfl) (forall₂_map (fun t _ => ?_))
    by_cases hi : t.interrupted m.epoch r.retry_exhausted = true
    · exact .interrupted hi
    · rw [recover_task_of_not_interrupted (Bool.eq_false_iff.mpr hi)]
      exact .normal
  | @reconcile _ _ observed i task _ _ hf =>
    obtain ⟨hget, hp, -⟩ := find_task_some hf
    simp only [Bool.and_eq_true, decide_eq_true_eq] at hp
    refine hfree rfl r.tasks (.inl rfl) ?_
    obtain ⟨t, hgett, rfl⟩ := getElem?_map_some hget
    refine forall₂_set_map (fun _ => .normal) hgett ?_
    rw [← hp.1]
    have hunc : t.state = .Uncertain := hp.2
    exact .resolved hunc
  | retry_exhausted _ hadv =>
    exact hfree rfl r.tasks (.inl rfl) (advance_tasks_charges hadv (fun _ => .inr rfl))
  | retry_ready _ hadv =>
    exact hfree rfl r.tasks (.inl rfl) (advance_tasks_charges hadv (fun _ => .inl rfl))
  | retry_wait _ hadv =>
    exact hfree rfl r.tasks (.inl rfl) (advance_tasks_charges hadv (by simp))
  | resolve _ ht | stop _ ht | hold _ ht | unimplemented _ ht | wait _ ht =>
    obtain ⟨base, hgrown, htasks⟩ := ht.normalized
    refine hfree rfl base hgrown ?_
    simp only [merge_retry_wakeup_tasks, htasks]
    exact forall₂_map (fun _ _ => .normal)
  | dispatch_exhausted _ ht _ hf =>
    obtain ⟨base, hgrown, htasks⟩ := ht.normalized
    obtain ⟨hget, hready, -⟩ := find_task_some hf
    rw [htasks] at hget
    obtain ⟨t, hgett, rfl⟩ := getElem?_map_some hget
    refine hfree rfl base hgrown ?_
    rw [mark_retry_exhausted_tasks, htasks]
    exact forall₂_set_map (fun _ => .normal) hgett (.inferred (is_ready_iff.mp hready))
  | @dispatch _ r1 now _ _ _ i task task' _ ht _ _ hf _ hbudget hnext =>
    obtain ⟨base, hgrown, htasks⟩ := ht.normalized
    obtain ⟨hget, hready, -⟩ := find_task_some hf
    rw [htasks] at hget
    obtain ⟨t, hgett, rfl⟩ := getElem?_map_some hget
    have hc : Charged m r.id (.dispatch r.id task'.attempt) t task' :=
      .dispatched (is_ready_iff.mp hready) rfl hbudget hnext
    refine ⟨base, hgrown, ?_, ?_⟩
    · rw [still_ready_tasks, htasks]
      exact forall₂_set_map (fun _ => .normal) hgett (.charged hc)
    · rw [still_ready_tasks, htasks]
      intro effect_id heff
      cases heff
      refine ⟨i, t, task', hgett, ?_, hc.move.effect.effect_id.symm, hc⟩
      exact List.getElem?_set_self (List.getElem?_eq_some_iff.mp hget).1

/-- **Every commit moves every task by a `TaskMove`**, and may add one new task
before it does. -/
theorem Change.tasks (h : Change m l r r' children) :
    ∃ base, Grown m r base ∧ List.Forall₂ (TaskMove m r.id l) base r'.tasks := by
  obtain ⟨base, hgrown, hcharges, -⟩ := h.charges
  exact ⟨base, hgrown, hcharges.imp (fun _ _ hc => hc.move)⟩

/-! ## Effect ids -/

theorem colon_notMem_toString (n : ℕ) : ':' ∉ (toString n).toList := by
  intro h
  have hdigit : (':' : Char).isDigit = true := by
    apply Nat.isDigit_of_mem_toDigits (b := 10) (n := n) (by decide) (by decide)
    simpa [toString, Nat.repr] using h
  revert hdigit
  decide

theorem before_last_colon {l l' d d' : List Char} (hd : ':' ∉ d) (hd' : ':' ∉ d')
    (h : l ++ ':' :: d = l' ++ ':' :: d') : l = l' := by
  rcases List.append_eq_append_iff.mp h with ⟨c, rfl, hc⟩ | ⟨c, rfl, hc⟩
  all_goals
    cases c with
    | nil => simp
    | cons x c =>
      rw [List.cons_append, List.cons.injEq] at hc
      simp_all

theorem effect_id_at_run {run_id run_id' : String} {index index' : ℕ}
    (h : effect_id_at run_id index = effect_id_at run_id' index') : run_id = run_id' := by
  have hl := congrArg String.toList h
  unfold effect_id_at command_id at hl
  simp only [String.toList_append] at hl
  rw [show ":".toList = [':'] from rfl, show (String.singleton 'a').toList = ['a'] by simp] at hl
  simp only [List.append_assoc, List.cons_append, List.nil_append] at hl
  have hsplit : ∀ (s : List Char) (n : ℕ), s ++ ':' :: 'a' :: ':' :: (toString n).toList
      = (s ++ [':', 'a']) ++ ':' :: (toString n).toList := by simp
  rw [hsplit, hsplit] at hl
  have hrun := before_last_colon (colon_notMem_toString _) (colon_notMem_toString _) hl
  exact String.toList_inj.mp (List.append_cancel_right hrun)

/-- The tasks of a run belong to it, and no two are for one effect. -/
structure TasksOk (r : RunRecord) : Prop where
  owner : ∀ t ∈ r.tasks, t.attempt.run_id = r.id ∧ ∃ k, t.attempt.effect_id = effect_id_at r.id k
  distinct : (r.tasks.map (fun t => t.attempt.effect_id)).Nodup

theorem Grown.ok (h : Grown m r base) (hok : TasksOk r) : TasksOk { r with tasks := base } := by
  rcases h with rfl | ⟨index, name, version, input, policy, hnone, rfl⟩
  · exact ⟨hok.owner, hok.distinct⟩
  · refine ⟨fun t ht => ?_, ?_⟩
    · rcases List.mem_append.mp ht with h1 | h1
      · exact hok.owner t h1
      · rw [List.mem_singleton.mp h1]
        exact ⟨rfl, index, rfl⟩
    · unfold RunRecord.task? at hnone
      rw [List.find?_eq_none] at hnone
      simp only [List.map_append, List.map_cons, List.map_nil]
      refine List.nodup_append.mpr ⟨hok.distinct, List.nodup_singleton _, ?_⟩
      intro a ha b hb hab
      obtain ⟨t, ht, rfl⟩ := List.mem_map.mp ha
      rw [List.mem_singleton] at hb
      have := hnone t ht
      simp only [decide_eq_true_eq] at this
      exact this (hab.trans hb)

theorem effect_ids_kept {tasks : List ActivityTask} (h : List.Forall₂ SameEffect tasks tasks') :
    tasks.map (fun t => t.attempt.effect_id) = tasks'.map (fun t => t.attempt.effect_id) := by
  induction h with
  | nil => rfl
  | cons hs _ ih => rw [List.map_cons, List.map_cons, hs.effect_id, ih]

theorem TasksOk.moved (hid : r'.id = r.id) (hok : TasksOk { r with tasks := base })
    (h : List.Forall₂ SameEffect base r'.tasks) : TasksOk r' := by
  constructor
  · intro t' ht'
    obtain ⟨i, hi⟩ := List.getElem?_of_mem ht'
    obtain ⟨t, ht, hsame⟩ := (forall₂_getElem? h).2 t' hi
    obtain ⟨h1, k, h2⟩ := hok.owner t (List.mem_of_getElem? ht)
    refine ⟨?_, k, ?_⟩
    · rw [hsame.run_id, hid]
      exact h1
    · rw [hsame.effect_id, hid]
      exact h2
  · rw [← effect_ids_kept h]
    exact hok.distinct

/-! ## Tasks of the machine -/

/-- Runs are stored under their id, and their tasks are in order. -/
def Tasked (m : Machine) : Prop :=
  ∀ id en, m.runs id = some en → en.record.id = id ∧ TasksOk en.record

theorem NewRun.tasksOk (h : NewRun r) : TasksOk r := by
  constructor
  · rw [h.tasks]
    simp
  · rw [h.tasks]
    exact List.nodup_nil

theorem Change.tasksOk (h : Change m l r r' children) (hok : TasksOk r) : TasksOk r' := by
  obtain ⟨base, hgrown, hmoves⟩ := h.tasks
  exact (hgrown.ok hok).moved h.frame.id (hmoves.imp (fun _ _ hm => hm.effect))

theorem Trans.tasked (h : Trans m l m') (hm : Tasked m) : Tasked m' := by
  intro id en hen
  rcases h.backward hen with ⟨c, hr⟩ | ⟨r, c, run, children, hr, hid, hc, heq⟩ | ⟨-, hn, hid⟩
  · exact hm id ⟨en.record, c⟩ hr
  · rw [heq]
    have hok := hc.tasksOk (hm id _ hr).2
    exact ⟨hc.frame.id.trans hid, hok.owner, hok.distinct⟩
  · exact ⟨hid, hn.tasksOk⟩

theorem Reachable.tasked {e : Engine} (h : Reachable e) : Tasked e.machine :=
  Reachable.invariant (fun m hm id en hen => by rw [hm id] at hen; cases hen)
    (fun _ _ _ ht hI => ht.tasked hI) h

/-- The task at position `i` of the run `id`. -/
def Spot (m : Machine) (id : String) (i : ℕ) (t : ActivityTask) : Prop :=
  ∃ r c, m.runs id = some ⟨r, c⟩ ∧ r.tasks[i]? = some t

/-- **A task, over one move.** -/
theorem Trans.spot (h : Trans m l m') (hs : Spot m id i t) :
    ∃ t', Spot m' id i t' ∧ TaskMove m id l t t' := by
  obtain ⟨r, c, hr, hi⟩ := hs
  rcases h.forward hr with ⟨c', hr'⟩ | ⟨run, children, hid, hc, -, -, c', hr'⟩
  · exact ⟨t, ⟨r, c', hr', hi⟩, .refl _ _ _ _⟩
  · obtain ⟨base, hgrown, hmoves⟩ := hc.tasks
    have hbase : base[i]? = some t := by
      rcases hgrown with rfl | ⟨_, _, _, _, _, -, rfl⟩
      · exact hi
      · rw [List.getElem?_append_left (List.getElem?_eq_some_iff.mp hi).1]
        exact hi
    obtain ⟨t', ht', hmove⟩ := (forall₂_getElem? hmoves).1 t hbase
    rw [hid] at hmove
    exact ⟨t', ⟨run.saved, c', hr', ht'⟩, hmove⟩

/-- **A task, over a path**: what its moves keep, it keeps. -/
theorem Path.spot {ls : List Label} (hp : Path Trans m ls m') {P : ActivityTask → Prop}
    (hmove : ∀ m l t t', l ∈ ls → TaskMove m id l t t' → P t → P t')
    (h : ∃ t, Spot m id i t ∧ P t) :
    ∃ t, Spot m' id i t ∧ P t := by
  refine Path.keeps (I := fun m => ∃ t, Spot m id i t ∧ P t) hp (fun l hl x y htrans hx => ?_) h
  obtain ⟨t, hspot, ht⟩ := hx
  obtain ⟨t', hspot', hm⟩ := htrans.spot hspot
  exact ⟨t', hspot', hmove x l t t' hl hm ht⟩

theorem Tasked.unique (hm : Tasked m) {id' : String} {i' : ℕ} (h : Spot m id i t)
    (h' : Spot m id' i' t') (he : t.attempt.effect_id = t'.attempt.effect_id) :
    id = id' ∧ i = i' ∧ t = t' := by
  obtain ⟨r, c, hr, hi⟩ := h
  obtain ⟨r', c', hr', hi'⟩ := h'
  obtain ⟨hid, hok⟩ := hm id _ hr
  obtain ⟨hid', hok'⟩ := hm id' _ hr'
  obtain ⟨-, k, hk⟩ := hok.owner t (List.mem_of_getElem? hi)
  obtain ⟨-, k', hk'⟩ := hok'.owner t' (List.mem_of_getElem? hi')
  have hruns : id = id' := by
    rw [← hid, ← hid']
    exact effect_id_at_run (hk.symm.trans (he.trans hk'))
  subst hruns
  rw [hr] at hr'
  cases hr'
  have hlt := (List.getElem?_eq_some_iff.mp hi).1
  have hidx : i = i' := by
    refine (List.getElem?_inj (by simpa using hlt) hok.distinct).mp ?_
    rw [List.getElem?_map, List.getElem?_map, hi, hi', Option.map_some, Option.map_some, he]
  subst hidx
  rw [hi] at hi'
  exact ⟨rfl, rfl, Option.some.inj hi'⟩

/-- **A dispatch** leaves its attempt in flight under the current epoch, on a task
that was ready with the attempt before, if it was there at all. -/
theorem Trans.dispatch_spot (h : Trans m (.dispatch id a) m') :
    ∃ i t', Spot m' id i t' ∧ t'.attempt = a ∧ t'.state = .InFlight
      ∧ a.owner_epoch = m'.epoch ∧ ∀ t, Spot m id i t → t.state = .Ready ∧
        a.attempt = t.attempt.attempt + 1 := by
  cases h with
  | @change _ r run c children hs hc hf =>
    rw [← hc.frame.id] at hf
    have hself := Machine.commit_self hf
    rw [hc.frame.id] at hself
    cases hc with
    | @dispatch _ r1 now _ _ _ i task task' _ ht _ _ hfind _ _ hnext =>
      obtain ⟨hin, started, policy, hatt⟩ := next_dispatch_ok hnext
      obtain ⟨hget, hready, -⟩ := find_task_some hfind
      have hlt := (List.getElem?_eq_some_iff.mp hget).1
      refine ⟨i, task', ⟨_, _, hself, ?_⟩, rfl, hin, by rw [hatt]; rfl, fun t hspot => ?_⟩
      · show (still_ready _).tasks[i]? = _
        rw [still_ready_tasks]
        exact List.getElem?_set_self hlt
      · obtain ⟨r0, c0, hr0, hi⟩ := hspot
        rw [hs] at hr0
        cases hr0
        obtain ⟨base, hgrown, hkept⟩ := ht.grown
        have hbase : base[i]? = some t := by
          rcases hgrown with rfl | ⟨_, _, _, _, _, -, rfl⟩
          · exact hi
          · rw [List.getElem?_append_left (List.getElem?_eq_some_iff.mp hi).1]
            exact hi
        obtain ⟨t1, ht1, hk⟩ := (forall₂_getElem? hkept).1 t hbase
        rw [hget] at ht1
        cases ht1
        refine ⟨?_, ?_⟩
        · rw [← hk.2]
          cases hst : task.state <;> rw [hst] at hready <;> first | rfl | cases hready
        · rw [hatt, ← hk.1]

end Appcall.Durable
