/-
Capacity while the store serves.

A result is written and then its slot is given back, and the second happens even if the
first was refused. So a slot can only be lost to the store: a result that an executor
delivers for an attempt of its own epoch is refused by the database, or by nobody
(`complete_inner_answers`, `fail_inner_answers`). A run of the engine in which the store
does not fail at a result (`ResultsTaken`) therefore keeps the table and the tasks together.
-/
import Appcall.Engine.Capacity
import Appcall.Engine.Budget
import Appcall.Engine.Redispatch

set_option autoImplicit false

namespace Appcall.Durable

open Appcall.Refine

/-! ## Errors of the store -/

/-- The database refuses a call, or a record does not fit its row. -/
def Error.of_store : Error → Bool
  | .Storage _ | .Limit => true
  | _ => false

/-- If there is an error, then the store is to blame. -/
def OfStore {α : Type} (res : Except Error α) : Prop :=
  ∀ error, res = .error error → error.of_store = true

variable {id : String} {m : Machine} {l : Label} {m' : Machine} {e : Engine} {a : ActivityAttempt}
  {res : Except Error Unit} {step : Step} {inner : EngineM Unit} {ls : List Label}
  {k : String × ℕ × ℕ} {b : ActivityAttempt}

theorem append_sealed_error {s : SqliteStore} {h : List HistoryEvent} {a b : ℕ} {error : Error}
    (herr : s.append_sealed id h a b = .error error) : error.of_store = true := by
  unfold SqliteStore.append_sealed at herr
  simp only at herr
  split at herr
  · cases herr
    rfl
  · split at herr <;> cases herr

theorem WellFormed.sealed_le {s : SqliteStore} (hw : WellFormed s) {en : Entry}
    (hv : s.view id = some en) {history : List HistoryEvent}
    (hx : Extends en.record.history history) : s.sealed_count id ≤ seal_end history := by
  unfold SqliteStore.view at hv
  obtain ⟨row, -, rfl⟩ := Option.map_eq_some_iff.mp hv
  have hlen := hx.length_le
  rw [List.length_append] at hlen
  have hsealed : (s.load_sealed id ++ row.record.history).take (s.sealed_count id)
      = s.load_sealed id := List.take_left' rfl
  have htake : history.take (s.sealed_count id) = s.load_sealed id := by
    rw [hx.take (n := s.sealed_count id), hsealed]
    · rw [List.length_append]
      exact Nat.le_add_right _ _
    · rw [hsealed]
      exact hw.sealed_resolved id
  refine le_seal_end ((Nat.le_add_right _ _).trans hlen) ?_
  rw [htake]
  exact hw.sealed_resolved id

theorem commit_error {s : SqliteStore} (hw : WellFormed s) {run : RunRecord} {en : Entry}
    {expected : ℕ} (hv : s.view run.id = some en) (hrev : en.record.revision = expected)
    (hlt : expected < U64_MAX) (hsucc : run.revision = expected + 1)
    (hx : Extends en.record.history run.history) {error : Error}
    (herr : s.commit expected run [] = .error error) : error.of_store = true := by
  have hsealed := hw.sealed_le hv hx
  unfold SqliteStore.view at hv
  obtain ⟨row, hrow, rfl⟩ := Option.map_eq_some_iff.mp hv
  have hrow_rev : row.revision = expected := (hw.revision _ row hrow).trans hrev
  unfold SqliteStore.commit at herr
  simp only [bind, Except.bind, throw, throwThe, MonadExceptOf.throw, pure, Except.pure] at herr
  rw [if_neg (not_not.mpr ⟨hlt, hsucc.symm⟩)] at herr
  split at herr
  · cases herr
    rfl
  split at herr
  · cases herr
    rfl
  cases hp : s.persist_history run with
  | error e =>
    rw [hp] at herr
    cases herr
    unfold SqliteStore.persist_history at hp
    simp only [bind, Except.bind, throw, throwThe, MonadExceptOf.throw, pure, Except.pure] at hp
    rw [if_neg (by omega)] at hp
    cases ha : s.append_sealed run.id run.history (s.sealed_count run.id)
        (seal_end run.history) with
    | error e =>
      rw [ha] at hp
      cases hp
      exact append_sealed_error ha
    | ok s1 =>
      rw [ha] at hp
      simp only at hp
      cases hb : s1.encode_body run (seal_end run.history) with
      | error e =>
        rw [hb] at hp
        cases hp
        rw [encode_body_error hb]
        rfl
      | ok body =>
        rw [hb] at hp
        cases hp
  | ok out =>
    obtain ⟨s1, body⟩ := out
    rw [hp] at herr
    simp only at herr
    rw [(persist_history_ok hp).1, hrow] at herr
    simp only at herr
    rw [if_neg (not_not.mpr hrow_rev)] at herr
    -- no children, so the rest of the commit cannot fail
    simp only [SqliteStore.insert_children] at herr
    split at herr <;> cases herr

section Answers

variable {α : Type} {t : Machine} {P : Except Error α → Prop}

theorem Answers.store_call {f : Unit → EngineM α} (hok : Answers (f ()) t P)
    (herr : ∀ error : Error, error.of_store = true → P (.error error)) :
    Answers (Durable.store_call >>= f) t P := by
  intro e hw ht
  have hnext : ∀ rest, P (exec (f ()) { e with store := { e.store with outages := rest } }).1 :=
    fun rest => hok _ (wellFormed_outages hw rest) ht
  unfold Durable.store_call
  cases ho : e.store.outages with
  | nil => simpa only [exec_bind, exec_get, ho, exec_pure] using hok e hw ht
  | cons answer rest =>
    cases answer with
    | none => simpa only [exec_bind, exec_get, ho, exec_set] using hnext rest
    | some message =>
      simpa only [exec_bind, exec_get, ho, exec_set, exec_throw] using herr (.Storage message) rfl

theorem Answers.result_ok {β : Type} {x : Except Error β} {b : β} {f : β → EngineM α}
    (hx : x = .ok b) (h : Answers (f b) t P) : Answers (Durable.result x >>= f) t P := by
  subst hx
  exact h

variable {f : RunRecord → EngineM α} {r : RunRecord} {c : Option ℤ}

theorem Answers.load {id : String} (hs : t.runs id = some ⟨r, c⟩)
    (hok : r.id = id → OneOpen r.history → Answers (f r) t P)
    (herr : ∀ error : Error, error.of_store = true → P (.error error)) :
    Answers (Durable.load id >>= f) t P := by
  unfold Durable.load
  rw [bind_assoc]
  refine Answers.store_call ?_ herr
  intro e hw ht
  have hv : e.store.view id = some ⟨r, c⟩ := by
    rw [← ht] at hs
    exact hs
  have hload : e.store.load id = .ok r := by
    rw [hw.load_eq, hv]
  rw [bind_assoc, exec_bind, exec_get]
  simp only
  rw [hload]
  exact hok (hw.view_id hv) (hw.one_open hv) e hw ht

theorem save_fails {run : RunRecord} {l : Label} (hs : t.runs r.id = some ⟨r, c⟩)
    (ho : OneOpen r.history) (hc : Change t l r run []) :
    Answers (Durable.save run []) t OfStore := by
  unfold Durable.save
  dsimp only
  cases hrev : checked_succ run.revision with
  | error error =>
    rintro e hw ht error' ⟨⟩
    unfold checked_succ at hrev
    split at hrev <;> cases hrev
    rfl
  | ok revision =>
    have hlt : run.revision < U64_MAX := by
      unfold checked_succ at hrev
      by_contra hnot
      rw [if_neg hnot] at hrev
      cases hrev
    obtain rfl := checked_succ_ok hrev
    show Answers (Durable.store_call >>= _) t OfStore
    refine Answers.store_call ?_ (fun error hstore _ h => by cases h; exact hstore)
    intro e hw ht
    have hv : e.store.view run.id = some ⟨r, c⟩ := by
      rw [hc.frame.id]
      rw [← ht] at hs
      exact hs
    rw [exec_bind, exec_get]
    simp only
    rw [exec_bind]
    generalize hcommit : e.store.commit run.revision
      { run with revision := run.revision + 1 } [] = committed
    cases committed with
    | ok store => rintro error ⟨⟩
    | error error =>
      rintro error' ⟨⟩
      exact @commit_error e.store hw { run with revision := run.revision + 1 } _ _ hv
        hc.frame.revision.symm hlt rfl (hc.extends ho).1 _ hcommit

/-- A commit of the stored run is written, unless the store fails. -/
theorem Answers.saved {run : RunRecord} {l : Label} (hs : t.runs r.id = some ⟨r, c⟩)
    (ho : OneOpen r.history) (hc : Change t l r run [])
    (hok : Answers (f run.saved) (t.commit run []) P)
    (herr : ∀ error : Error, error.of_store = true → P (.error error)) :
    Answers (Durable.save run [] >>= f) t P := by
  have hdone : Refines (Durable.save run []) t (fun res _ t' =>
      ∀ saved, res = .ok saved → saved = run.saved ∧ t' = t.commit run []) :=
    Refines.save_last hs ho hc (fun _ h => by cases h; exact ⟨rfl, rfl⟩) (by simp)
  intro e hw ht
  obtain ⟨ls, -, hw', hdone⟩ := hdone e hw ht
  have hfail := save_fails hs ho hc e hw ht
  rw [exec_bind]
  generalize exec (Durable.save run []) e = out at hw' hdone hfail
  obtain ⟨res, e'⟩ := out
  cases res with
  | error error => exact herr error (hfail error rfl)
  | ok saved =>
    obtain ⟨rfl, ht'⟩ := hdone saved rfl
    exact hok e' hw' ht'

end Answers

/-! ## Retry policies -/

/-- Every retry policy that is in use passes its check. -/
structure Policed (m : Machine) : Prop where
  budgeted : ∃ c, Budgeted c m
  default : m.retry_policy.validate = .ok ()
  task : ∀ id i t, Spot m id i t → ∀ policy, t.attempt.retry_policy = some policy →
    policy.validate = .ok ()

theorem Charge.policed {c : Counts} {t t' : ActivityTask} (h : Charge m id l t t')
    (hb : Ledger m.epoch c t) (hdefault : m.retry_policy.validate = .ok ())
    (ht : ∀ policy, t.attempt.retry_policy = some policy → policy.validate = .ok ())
    {policy : RetryPolicy} (hp : t'.attempt.retry_policy = some policy) :
    policy.validate = .ok () := by
  cases h with
  | kept | normal | completed | interrupted | resolved | overdue | inferred => exact ht policy hp
  | charged hc =>
    cases hc with
    | refused | invoked => exact ht policy hp
    | dispatched _ _ _ hnext =>
      rw [(next_dispatch_execution hnext).2.1] at hp
      have hp : some (t.attempt.retry_policy.getD m.retry_policy) = some policy := hp
      cases ho : t.attempt.retry_policy with
      | none =>
        rw [ho] at hp
        cases hp
        exact hdefault
      | some own =>
        rw [ho] at hp
        cases hp
        exact ht _ ho
  | failed _ _ _ hfail =>
    rw [(failed_task_ok hfail).1] at hp
    exact ht policy hp
  | @retried _ _ retry _ hst =>
    cases hp
    exact ht _ (hb.retrying retry hst)

theorem Trans.policed (h : Trans m l m') (hm : Policed m) : Policed m' := by
  obtain ⟨c, hb⟩ := hm.budgeted
  refine ⟨h.budgets ⟨c, hb⟩, ?_, fun id i t' hspot policy hp => ?_⟩
  · have hdefault := hm.default
    cases h with
    | configure _ _ _ _ hpolicy =>
      rcases hpolicy with rfl | hvalid
      · exact hdefault
      · exact hvalid
    | restart => exact RetryPolicy.default_validate
    | _ => exact hdefault
  · obtain ⟨t, hentering, -, hcharge⟩ := h.charged hb.tasked hspot
    have hcharge : Charge m id l t t' := by
      rcases hcharge with hc | ⟨-, hc⟩
      · exact .charged hc
      · exact hc
    rcases hentering with hold | ⟨huntracked, r, index, name, version, input, policy', rfl⟩
    · exact hcharge.policed (hb.ledger id i t hold) hm.default (hm.task id i t hold) hp
    · exact hcharge.policed (new_task_ledger r m.epoch index name version input policy')
        hm.default (by simp [new_task]) hp

theorem Reachable.policed (he : Reachable e) : Policed e.machine := by
  obtain ⟨codec, sha256_hex, steps, rfl⟩ := he
  have hinit : Policed (Engine.init codec sha256_hex).machine := by
    refine ⟨(Reachable.init codec sha256_hex).budgets, RetryPolicy.default_validate, ?_⟩
    rintro id i t ⟨r, c, hr, -⟩
    cases hr
  have hstart := init_wellFormed codec sha256_hex
  generalize Engine.init codec sha256_hex = e at hinit hstart
  obtain ⟨ls, hp⟩ := after_path hstart steps
  exact Path.keeps hp (fun _ _ _ _ h hm => h.policed hm) hinit

/-! ## Results of awaited attempts -/

theorem Ledger.mark_execution_ok {epoch : ℕ} {c : Counts} {t : ActivityTask}
    (h : Ledger epoch c t) (hheld : t.state.held = true) (started_at_ms : ℤ) :
    ∃ execution, Appcall.Durable.mark_execution t.attempt t.execution started_at_ms
      = .ok execution := by
  have hcap := h.cap
  have hroom := h.room
  -- a dispatch that is not charged leaves room for its charge
  have hcharge : ∀ execution : ExecutionAccounting,
      (execution.execution_dispatch_attempt = t.attempt.attempt
        ∨ execution.execution_attempts < t.attempt.attempt) →
      ∃ execution', charge_execution t.attempt execution started_at_ms = .ok execution' := by
    intro execution hx
    unfold charge_execution
    by_cases hd : execution.execution_dispatch_attempt = t.attempt.attempt
    · exact ⟨_, if_pos hd⟩
    · have hlt : execution.execution_attempts < U64_MAX := by
        rcases hx with hx | hx
        · exact absurd hx hd
        · omega
      rw [if_neg hd]
      unfold checked_succ
      rw [if_pos hlt]
      exact ⟨_, rfl⟩
  have hstate : t.execution.execution_dispatch_attempt = t.attempt.attempt
      ∨ t.execution.execution_attempts < t.attempt.attempt := by
    cases hst : t.state with
    | InFlight => exact .inr (lt_of_le_of_lt (Nat.le_add_right _ _) (h.in_flight hst).2.2)
    | Invoking => exact .inl (h.invoking hst)
    | Ready | Done | Uncertain | Retrying =>
      rw [hst] at hheld
      cases hheld
  unfold Appcall.Durable.mark_execution
  by_cases hflag : t.execution.known_unexecuted = true
  · have href := h.flag hflag
    simp only [hflag, Bool.not_true, Bool.false_eq_true, if_false]
    rw [if_neg (by omega)]
    exact hcharge _ hstate
  · simp only [hflag, Bool.not_false, if_true]
    rcases h.infer with ⟨heq, -⟩ | ⟨-, -, hone, heq⟩
    · rw [heq]
      rcases h.normal_execution with hn | ⟨-, -, hn⟩
      · rw [hn]
        exact hcharge _ hstate
      · rw [hn]
        exact hcharge _ (.inl rfl)
    · rw [heq]
      exact hcharge _ (.inl hone.symm)

theorem failed_task_succeeds {task : ActivityTask} {execution : ExecutionAccounting}
    {failure : ActivityFailure} {failed_at_ms : ℤ} {policy : RetryPolicy}
    (hp : (task.attempt.retry_policy.getD policy).validate = .ok ()) :
    ∃ task', failed_task task execution failure failed_at_ms policy = .ok task' := by
  unfold failed_task
  split
  · simp only [bind, Except.bind, pure, Except.pure, hp]
    split <;> exact ⟨_, rfl⟩
  · exact ⟨_, rfl⟩

theorem Awaited.owned (h : Awaited m a) (hm : Tasked m) :
    ∃ r c i task, m.runs a.run_id = some ⟨r, c⟩ ∧ owned_attempt r a m.epoch = .ok (i, task) := by
  obtain ⟨id, i, r, c, t, hr, hacc, hi, rfl, hheld, hepoch⟩ := h
  obtain ⟨hid, hok⟩ := hm id _ hr
  have hrun : t.attempt.run_id = id := (hok.owner t (List.mem_of_getElem? hi)).1.trans hid
  rw [hrun]
  obtain ⟨j, task, hfound⟩ : ∃ j task, owned_task r t.attempt m.epoch = .ok (j, task) := by
    unfold owned_task
    cases hf : find_task r.tasks (fun u => decide (u.attempt = t.attempt)
        && decide (u.attempt.owner_epoch = m.epoch)
        && decide (t.attempt.owner_epoch = m.epoch) && u.state.held) with
    | some found => exact ⟨found.1, found.2, rfl⟩
    | none =>
      have hnone := List.any_eq_false.mp (find_task_none hf) t (List.mem_of_getElem? hi)
      simp [hheld, hepoch] at hnone
  refine ⟨r, c, j, task, hr, ?_⟩
  unfold owned_attempt
  simp only [bind, Except.bind, throw, throwThe, MonadExceptOf.throw, pure, Except.pure, hfound]
  rw [if_neg]
  rintro ⟨hterm, hno⟩
  refine hno ?_
  have hx := hacc hterm
  unfold RunRecord.retry_exhausted at hx
  simpa using hx

theorem complete_inner_answers {t : Machine} (ht : Policed t) (ha : Awaited t a)
    (output : PayloadRef) : Answers (complete_inner a output) t OfStore := by
  obtain ⟨c, hb⟩ := ht.budgeted
  obtain ⟨r, w, i, task, hs, hown⟩ := ha.owned hb.tasked
  obtain ⟨hi, -, -, hheld, -⟩ := owned_attempt_ok hown
  obtain ⟨execution, hmark⟩ := (hb.ledger _ i task ⟨r, w, hs, hi⟩).mark_execution_ok hheld
    task.attempt.started_at_ms
  unfold complete_inner
  refine Answers.load hs (fun hid ho => ?_) (fun error h _ he => by cases he; exact h)
  refine Answers.get (fun e hm => ?_)
  have hepoch : e.store.epoch = t.epoch := by
    rw [← hm]
    rfl
  rw [hepoch]
  refine Answers.result_ok hown (Answers.result_ok hmark ?_)
  rw [← hid] at hs
  refine Answers.saved hs ho (.complete hown hmark) ?_ (fun error h _ he => by cases he; exact h)
  rintro e' _ _ error ⟨⟩

theorem fail_inner_answers {t : Machine} (ht : Policed t) (ha : Awaited t a)
    (failure : ActivityFailure) (failed_at_ms : ℤ) :
    Answers (fail_inner a failure failed_at_ms) t OfStore := by
  obtain ⟨c, hb⟩ := ht.budgeted
  obtain ⟨r, w, i, task, hs, hown⟩ := ha.owned hb.tasked
  obtain ⟨hi, -, -, hheld, -⟩ := owned_attempt_ok hown
  have hspot : Spot t a.run_id i task := ⟨r, w, hs, hi⟩
  obtain ⟨execution, hmark⟩ := (hb.ledger _ i task hspot).mark_execution_ok hheld
    task.attempt.started_at_ms
  have hpolicy : (task.attempt.retry_policy.getD t.retry_policy).validate = .ok () := by
    cases hp : task.attempt.retry_policy with
    | none => exact ht.default
    | some policy => exact ht.task _ i task hspot policy hp
  obtain ⟨task', hfail⟩ := @failed_task_succeeds task execution failure failed_at_ms _ hpolicy
  unfold fail_inner
  refine Answers.load hs (fun hid ho => ?_) (fun error h _ he => by cases he; exact h)
  refine Answers.get (fun e hm => ?_)
  have hepoch : e.store.epoch = t.epoch := by
    rw [← hm]
    rfl
  have hdefault : e.retry_policy = t.retry_policy := by
    rw [← hm]
    rfl
  rw [hepoch, hdefault]
  refine Answers.result_ok hown (Answers.result_ok hmark (Answers.result_ok hfail ?_))
  rw [← hid] at hs
  refine Answers.saved hs ho (.fail hown hmark hfail) ?_
    (fun error h _ he => by cases he; exact h)
  rintro e' _ _ error ⟨⟩

/-! ## The release of a slot -/

theorem wake_parked_answers (ids : List String) {t : Machine} (hp : t.parked = ids)
    (hstored : ∀ id ∈ ids, ∃ en, t.runs id = some en) : Answers (wake_parked ids) t OfStore := by
  induction ids generalizing t with
  | nil => rintro e _ _ error ⟨⟩
  | cons id ids ih =>
    have hrest : ∀ t1 : Machine, t1.parked = t.parked →
        (∀ x ∈ ids, ∃ en, t1.runs x = some en) → Answers (do
          modify (fun e : Engine => { e with parked := e.parked.erase id })
          wake_parked ids) t1 OfStore := by
      intro t1 hp1 hs1 e hw ht
      refine ih (t := { t1 with parked := t1.parked.erase id }) ?_ hs1
        { e with parked := e.parked.erase id } hw (by rw [← ht]; rfl)
      simp only [hp1, hp, List.erase_cons_head]
    obtain ⟨⟨r, c⟩, hs⟩ := hstored id List.mem_cons_self
    have hids : ∀ x ∈ ids, ∃ en, t.runs x = some en :=
      fun x hx => hstored x (List.mem_cons_of_mem _ hx)
    unfold wake_parked
    refine Answers.load hs (fun hid ho => ?_) (fun error h _ he => by cases he; exact h)
    by_cases hrun : r.state = .Running
    · rw [if_pos hrun]
      have hmem : r.id ∈ t.parked := by
        rw [hp, hid]
        exact List.mem_cons_self
      rw [← hid] at hs
      have hwake : Change t (.wake r.id) r { r with wakeup := some 0 } [] := .wake hrun hmem
      refine Answers.saved hs ho hwake ?_ (fun error h _ he => by cases he; exact h)
      exact hrest _ rfl (fun x hx => (Trans.change hs hwake trivial).stored_kept (hids x hx))
    · rw [if_neg hrun]
      exact hrest t rfl hids

theorem release_dispatch_answers {t : Machine} (hm : Capacity t) (a : ActivityAttempt) :
    Answers (release_dispatch a) t OfStore := by
  unfold release_dispatch
  refine Answers.get (fun e ht => ?_)
  by_cases hlk : e.dispatched.lookup (dispatch_key a) = some a
  · rw [if_neg (not_not_intro hlk)]
    have hparked : t.parked = e.parked := by
      rw [← ht]
      rfl
    have hstored := hm.stored
    rw [hparked] at hstored
    intro e1 hw1 ht1
    have hwake := wake_parked_answers e.parked hparked hstored e1 hw1 ht1
    rw [exec_bind]
    generalize exec (wake_parked e.parked) e1 = out at hwake
    obtain ⟨res, e2⟩ := out
    cases res with
    | error error => exact hwake
    | ok u => rintro error ⟨⟩
  · rw [if_pos hlk]
    rintro e' _ _ error ⟨⟩

/-! ## Steps that report a result -/

/-- What an operation that reports the result of an attempt does before it gives the slot
back. -/
def Operation.report : Operation → Option (ActivityAttempt × EngineM Unit)
  | .complete a output => some (a, complete_inner a output)
  | .fail_at a failure failed_at_ms => some (a, fail_inner a failure failed_at_ms)
  | _ => none

def Step.reports (step : Step) (a : ActivityAttempt) : Prop :=
  ∃ inner, step.op.report = some (a, inner)

def Unfailing {α : Type} (res : Except Error α) : Prop :=
  ∀ error, res = .error error → error.of_store = false

/-- The store does not fail while the step reports a result: not for the result, and not
for the runs that wait for a slot. -/
def Step.served (step : Step) (e : Engine) : Prop :=
  ∀ a inner, step.op.report = some (a, inner) →
    Unfailing (Refine.exec inner (e.under step.outages)).1
      ∧ Unfailing (Refine.exec (release_dispatch a) (Refine.exec inner (e.under step.outages)).2).1

theorem OfStore.ok (h : OfStore res) (hu : Unfailing res) : res = .ok () := by
  cases res with
  | ok => rfl
  | error error =>
    have hyes := h error rfl
    rw [hu error rfl] at hyes
    cases hyes

theorem Step.report_exec (h : step.op.report = some (a, inner)) (e : Engine) :
    (step.exec e).2 = (Refine.exec (release_dispatch a)
      (Refine.exec inner (e.under step.outages)).2).2 := by
  have hperform : perform step.op = (do
      then_release inner a
      return .unit) := by
    cases hop : step.op with
    | complete | fail_at =>
      rw [hop] at h
      cases h
      rfl
    | _ =>
      rw [hop] at h
      cases h
  unfold Step.exec
  rw [hperform]
  show (Refine.exec (then_release inner a >>= fun _ => pure Reply.unit) _).2 = _
  rw [exec_bind, ← exec_then_release]
  generalize Refine.exec (then_release inner a) _ = out
  obtain ⟨res, e'⟩ := out
  cases res <;> rfl

theorem Operation.report_spec {op : Operation} (h : op.report = some (a, inner)) :
    ∃ l : Label, l.ends a ∧ l.calm
      ∧ (∀ t, Refines inner t (fun res ls _ => Commits l res ls))
      ∧ ∀ t, Policed t → Awaited t a → Answers inner t OfStore := by
  cases op with
  | complete a output =>
    cases h
    exact ⟨.complete a output, rfl, trivial, complete_inner_refines a output,
      fun t ht ha => complete_inner_answers ht ha output⟩
  | fail_at a failure failed_at_ms =>
    cases h
    exact ⟨.fail a failure failed_at_ms, rfl, trivial,
      fail_inner_refines a failure failed_at_ms,
      fun t ht ha => fail_inner_answers ht ha failure failed_at_ms⟩
  | _ => cases h

theorem Commits.slots (hc : Commits l res ls) (hp : Path Trans m ls m') (hends : l.ends a)
    (hcalm : l.calm) (hs : Slots m) (hno : ∀ error, res = .error error → ¬ Awaited m a) :
    Slots m' ∧ ¬ Awaited m' a ∧ m'.dispatched = m.dispatched ∧ m'.parked = m.parked := by
  rcases hc with ⟨-, rfl⟩ | ⟨⟨error, herr⟩, rfl⟩
  · cases hp with
    | cons htrans hrest =>
      cases hrest
      refine ⟨htrans.slots_calm hcalm hs, htrans.ends hends hs.tasked, ?_⟩
      cases htrans with
      | change => exact ⟨rfl, rfl⟩
      | _ => exact hends.elim
  · cases hp
    exact ⟨hs, hno error herr, rfl, rfl⟩

/-- **A report**: the result is written or not awaited, and then the slot is given back. -/
theorem Step.report_slots (he : Reachable e) (hs : Slots e.machine)
    (hreport : step.op.report = some (a, inner)) (hserved : step.served e) :
    ∃ m ls, Slots m ∧ m.dispatched = e.machine.dispatched
      ∧ m.parked = e.machine.parked ∧ Path Trans m ls (step.exec e).2.machine
      ∧ (∀ l ∈ ls, l.releases a) ∧ Slots (step.exec e).2.machine
      ∧ (m.dispatched.lookup (dispatch_key a) = some a →
        (step.exec e).2.machine.dispatched = m.dispatched.erase (dispatch_key a)
          ∧ (step.exec e).2.machine.parked = []) := by
  obtain ⟨hinner, hrelease⟩ := hserved a inner hreport
  obtain ⟨l, hends, hcalm, hcommits, hanswers⟩ := Operation.report_spec hreport
  have hw0 : WellFormed (e.under step.outages).store :=
      wellFormed_outages he.wellFormed step.outages
  obtain ⟨ls, hp, hw1, hc⟩ := hcommits e.machine (e.under step.outages) hw0 rfl
  have hanswers := fun ha => hanswers e.machine he.policed ha (e.under step.outages) hw0 rfl
  rw [Step.report_exec hreport e]
  generalize Refine.exec inner (e.under step.outages) = out at hp hw1 hc hanswers hinner hrelease
  obtain ⟨res, e1⟩ := out
  obtain ⟨hs1, hfree, hd1, hp1⟩ := hc.slots hp hends hcalm hs (fun error herr ha => by
    have hyes := hanswers ha error herr
    rw [hinner error herr] at hyes
    cases hyes)
  obtain ⟨ls', hp', -, hrel, hdone⟩ := release_dispatch_refines a e1.machine e1 hw1 rfl
  have hok := (release_dispatch_answers hs1.capacity a e1 hw1 rfl).ok hrelease
  exact ⟨e1.machine, ls', hs1, hd1, hp1, hp', hrel, Path.slots_releases hp' hrel hfree hs1,
    hdone hok⟩

/-- **A step keeps the table.** -/
theorem Step.slots (he : Reachable e) (hs : Slots e.machine) (hserved : step.served e) :
    Slots (step.exec e).2.machine := by
  obtain ⟨ls, hp, -, hout⟩ := step.path he.wellFormed
  have hcalm : (∀ l ∈ ls, l.calm) → Slots (step.exec e).2.machine :=
    fun hl => Path.slots_calm hp hl hs
  -- a move that ends the attempt, and then the release of its slot
  have hended : ∀ (l : Label) (a : ActivityAttempt) (ls' : List Label), ls = l :: ls' →
      l.ends a → l.calm → (∀ l' ∈ ls', l'.releases a) → Slots (step.exec e).2.machine := by
    rintro l a ls' rfl hends hl hls'
    cases hp with
    | cons htrans hrest =>
      exact Path.slots_releases hrest hls' (htrans.ends hends hs.tasked) (htrans.slots_calm hl hs)
  have hemits := hout.emits
  have htells := hout.tells
  cases hop : step.op with
  | complete a output =>
    obtain ⟨-, -, -, -, -, -, -, h, -⟩ :=
      Step.report_slots he hs (show step.op.report = _ by rw [hop]; rfl) hserved
    exact h
  | fail_at a failure failed_at_ms =>
    obtain ⟨-, -, -, -, -, -, -, h, -⟩ :=
      Step.report_slots he hs (show step.op.report = _ by rw [hop]; rfl) hserved
    exact h
  | drive_with_resolver id now resolver =>
    rw [hop] at htells
    obtain ⟨out, -, hdrove⟩ := htells
    exact hdrove.occupancy.slots hp hs
  | prepare_registered_at a resolver started_at_ms =>
    rw [hop] at htells
    obtain ⟨out, -, hprepared⟩ := htells
    cases hprepared with
    | invoked => exact hcalm (List.forall_mem_singleton.mpr trivial)
    | missing _ _ _ hls => exact hended _ a _ rfl rfl trivial hls
    | refused => exact hcalm (by simp)
  | reject_dispatch a reason =>
    rw [hop] at htells
    generalize (step.exec e).1 = answer at htells
    cases htells with
    | done hls => exact hended _ a _ rfl rfl trivial hls
    | failed => exact hcalm (by simp)
  | _ =>
    refine hcalm (fun l hl => ?_)
    have hemit := hemits l hl
    rw [hop] at hemit
    cases l <;> simp [Operation.emits, Label.cancels, Label.calm] at hemit ⊢

/-! ## The runs that wait for a slot -/

/-- If the run is running then it is due, in its record and in the column. -/
def Woken (m : Machine) (id : String) : Prop :=
  ∀ en, m.runs id = some en → en.record.state = .Running →
    en.record.wakeup = some 0 ∧ en.wakeup = some 0

theorem Trans.woken (h : Trans m l m') (hl : l.releases a) (hw : Woken m id) : Woken m' id := by
  cases h with
  | @change _ r run c children hs hc hf =>
    cases hc with
    | wake hrun hmem =>
      rintro ⟨r', c'⟩ hen hrunning
      rcases Machine.commit_inv hen with ⟨-, he⟩ | ⟨x, hx, -⟩ | ⟨-, c0, hr0, hc'⟩
      · cases he
        exact ⟨rfl, by simp [notified, hrun, RunState.ends]⟩
      · cases hx
      · obtain ⟨hrec, hcol⟩ := hw _ hr0 hrunning
        refine ⟨hrec, hc'.trans ?_⟩
        simpa [notified, hrun, RunState.ends] using hcol
    | _ => exact hl.elim
  | unpark | release => exact hw
  | _ => exact hl.elim

theorem Path.wakes (hp : Path Trans m ls m') (hl : ∀ l ∈ ls, l.releases a) (hid : id ∈ m.parked)
    (hgone : id ∉ m'.parked) : Woken m' id := by
  have hboth : Woken m' id ∨ id ∈ m'.parked := by
    refine Path.keeps (I := fun x => Woken x id ∨ id ∈ x.parked) hp ?_ (.inr hid)
    rintro l hmem x y h (hx | hx)
    · exact .inl (h.woken (hl l hmem) hx)
    · have hrel := hl l hmem
      cases h with
      | change | release => exact .inr hx
      | @unpark other hwoken =>
        by_cases hother : id = other
        · subst hother
          exact .inl hwoken
        · exact .inr ((List.mem_erase_of_ne hother).mpr hx)
      | _ => exact hrel.elim
  exact hboth.resolve_right hgone

theorem Path.slot_back (hp : Path Trans m ls m') (hl : ∀ l ∈ ls, l.releases a)
    (hk : m'.dispatched.lookup k = some b) : m.dispatched.lookup k = some b := by
  refine Path.relates (R := fun x y : Machine => y.dispatched.lookup k = some b →
    x.dispatched.lookup k = some b) hp (fun _ h => h) ?_ hk
  intro l hmem x y z hxy h hz
  refine hxy ?_
  have hrel := hl l hmem
  cases h with
  | change | unpark => exact hz
  | @release b' =>
    by_cases hkey : k = dispatch_key b'
    · rw [hkey] at hz
      have hz : (y.dispatched.erase (dispatch_key b')).lookup (dispatch_key b') = some b := hz
      rw [AList.lookup_erase] at hz
      cases hz
    · have hz : (y.dispatched.erase (dispatch_key b')).lookup k = some b := hz
      rwa [AList.lookup_erase_ne hkey] at hz
  | _ => exact hrel.elim

/-- What the report of the attempt does: the slot is free, no run is parked, and every run
that was parked and is running is due. -/
structure Released (e : Engine) (a : ActivityAttempt) (e' : Engine) : Prop where
  slot : e'.dispatched = e.dispatched.erase (dispatch_key a)
  parked : e'.parked = []
  woken : ∀ id ∈ e.parked, ∀ r row, e'.store.load id = .ok r →
    e'.store.engine_runs.lookup id = some row → r.state = .Running →
    r.wakeup = some 0 ∧ row.wakeup = some 0

theorem Step.released (he : Reachable e) (hs : Slots e.machine) (hreport : step.reports a)
    (hserved : step.served e) (hslot : e.dispatched.lookup (dispatch_key a) = some a) :
    Released e a (step.exec e).2 := by
  obtain ⟨inner, hreport⟩ := hreport
  obtain ⟨m, ls, -, hd, hparked, hp, hrel, -, hdone⟩ := step.report_slots he hs hreport hserved
  have hm : m.dispatched.lookup (dispatch_key a) = some a := by
    rw [hd]
    exact hslot
  obtain ⟨herase, hnil⟩ := hdone hm
  refine ⟨?_, hnil, fun id hid r row hload hrow hrun => ?_⟩
  · rw [hd] at herase
    exact herase
  · have hmem : id ∈ m.parked := by
      rw [hparked]
      exact hid
    have hgone : id ∉ (step.exec e).2.machine.parked := by
      rw [hnil]
      exact List.not_mem_nil
    obtain ⟨c, hr⟩ := (load_iff (he.step step).wellFormed).mp hload
    obtain ⟨hrec, hcol⟩ := Path.wakes hp hrel hmem hgone _ hr hrun
    refine ⟨hrec, ?_⟩
    have hview : (step.exec e).2.store.view id = some ⟨r, c⟩ := hr
    unfold SqliteStore.view at hview
    rw [hrow] at hview
    cases hview
    exact hcol

/-! ## Runs -/

/-- The store does not fail at any result that is reported in the run. -/
def ResultsTaken (e : Engine) : List Step → Prop
  | [] => True
  | step :: steps => step.served e ∧ ResultsTaken (step.exec e).2 steps

theorem ResultsTaken.slots (he : Reachable e) (hs : Slots e.machine) {steps : List Step}
    (h : ResultsTaken e steps) : Slots (after e steps).machine := by
  induction steps generalizing e with
  | nil => exact hs
  | cons step steps ih => exact ih (he.step step) (step.slots he hs h.1) h.2

theorem init_slots (codec : Codec) (sha256_hex : String → String) :
    Slots (Engine.init codec sha256_hex).machine := by
  refine ⟨(Reachable.init codec sha256_hex).tasked, fun id en hen => ?_, ?_, ?_⟩
  · cases hen
  · refine ⟨Nat.zero_le _, Nat.succ_pos 7, fun hne => absurd rfl hne, fun id hid => ?_,
      fun k a hk => ?_⟩
    · cases hid
    · cases hk
  · rintro a ⟨id, i, r, c, t, hr, -⟩
    cases hr

theorem ResultsTaken.slot_back (he : Reachable e) (hs : Slots e.machine) {more : List Step}
    (hreports : ∀ step ∈ more, ∃ a, step.reports a) (h : ResultsTaken e more)
    (hk : (after e more).machine.dispatched.lookup k = some b) :
    e.machine.dispatched.lookup k = some b ∧ ∀ step ∈ more, ¬ step.reports b := by
  induction more generalizing e with
  | nil => exact ⟨hk, by simp⟩
  | cons step more ih =>
    obtain ⟨⟨a, inner, hreport⟩, hrest⟩ := List.forall_mem_cons.mp hreports
    have hs1 := step.slots he hs h.1
    obtain ⟨hk1, hnone⟩ := ih (he.step step) hs1 hrest h.2 hk
    obtain ⟨m, ls, -, hd, -, hp, hrel, -⟩ := step.report_slots he hs hreport h.1
    have hk0 : e.machine.dispatched.lookup k = some b := by
      rw [← hd]
      exact Path.slot_back hp hrel hk1
    refine ⟨hk0, List.forall_mem_cons.mpr ⟨fun hb => ?_, hnone⟩⟩
    have hkey := hs1.capacity.keyed k b hk1
    rw [hkey] at hk0 hk1
    have herase : (step.exec e).2.machine.dispatched
        = e.machine.dispatched.erase (dispatch_key b) := (step.released he hs hb h.1 hk0).slot
    rw [herase, AList.lookup_erase] at hk1
    cases hk1

/-- **The capacity of an engine is kept.** -/
structure CapacityKept (e : Engine) : Prop where
  within : e.dispatched.entries.length ≤ e.dispatch_limit
  parked : e.parked ≠ [] → e.dispatched.entries ≠ []
  /-- An executor that has an attempt of this owner, whose result the run would take, has
  its slot. -/
  slotted : ∀ id r t, e.store.load id = .ok r → r.accepts → t ∈ r.tasks → t.state.held = true →
    t.attempt.owner_epoch = e.store.epoch →
    e.dispatched.lookup (dispatch_key t.attempt) = some t.attempt
  /-- Every report gives its slot back, whatever became of the run. -/
  released : ∀ (a : ActivityAttempt) (step : Step),
    e.dispatched.lookup (dispatch_key a) = some a → step.reports a → step.served e →
    Released e a (step.exec e).2
  /-- Once everything that is out is reported, the table is empty. -/
  restored : ∀ more : List Step, (∀ step ∈ more, ∃ a, step.reports a) → ResultsTaken e more →
    (∀ k a, e.dispatched.lookup k = some a → ∃ step ∈ more, step.reports a) →
    (after e more).dispatched.entries = [] ∧ (after e more).parked = []

/-- **Dispatch capacity is neither exceeded nor leaked**, in every run of the engine in
which the store takes the results: what a slot waits for is still out, and what is still
out has its slot, up to runs that are over. -/
theorem dispatch_capacity (codec : Codec) (sha256_hex : String → String) (steps : List Step)
    (hserved : ResultsTaken (Engine.init codec sha256_hex) steps) :
    CapacityKept (after (Engine.init codec sha256_hex) steps) := by
  have he : Reachable (after (Engine.init codec sha256_hex) steps) :=
    ⟨codec, sha256_hex, steps, rfl⟩
  have hs := hserved.slots (Reachable.init codec sha256_hex) (init_slots codec sha256_hex)
  generalize after (Engine.init codec sha256_hex) steps = e at he hs
  refine ⟨hs.capacity.within, hs.capacity.parked, ?_, ?_, ?_⟩
  · intro id r t hload hacc ht hheld hepoch
    obtain ⟨c, hr⟩ := (load_iff he.wellFormed).mp hload
    obtain ⟨i, hi⟩ := List.getElem?_of_mem ht
    exact hs.slotted _ ⟨id, i, r, c, t, hr, hacc, hi, rfl, hheld, hepoch⟩
  · intro a step hslot hreport hstep
    exact step.released he hs hreport hstep hslot
  · intro more hreports hmore hall
    have hs' := hmore.slots he hs
    have hempty : (after e more).dispatched.entries = [] := by
      by_contra hne
      obtain ⟨⟨k, b⟩, hmem⟩ := List.exists_mem_of_ne_nil _ hne
      have hk : (after e more).dispatched.lookup k = some b := AList.mem_lookup_iff.mpr hmem
      obtain ⟨hk0, hnone⟩ := hmore.slot_back he hs hreports hk
      obtain ⟨step, hstep, hb⟩ := hall k b hk0
      exact hnone step hstep hb
    refine ⟨hempty, ?_⟩
    by_contra hne
    exact hs'.capacity.parked hne hempty

theorem Step.served_of_none (h : step.op.report = none) (e : Engine) : step.served e := by
  intro a inner hreport
  rw [h] at hreport
  cases hreport

theorem Unfailing.of_ok {α : Type} {res : Except Error α} {x : α} (h : res = .ok x) :
    Unfailing res := by
  rintro error rfl
  cases h

/-- A host that drives the run with two activities and reports the first attempt. -/
def Sample.reported : List Step :=
  Sample.start (Sample.pair .Read .Read) ++ [Sample.drive "run" 0,
    Sample.call (.complete (Sample.attempt 0 1 1 .Read) Sample.payload)]

/-- The capacity is kept when the result comes in. -/
theorem dispatch_capacity_reported : CapacityKept (Sample.host Sample.reported) := by
  refine dispatch_capacity Sample.codec id Sample.reported ⟨?_, ?_, ?_, ?_, ?_, trivial⟩
  case refine_5 =>
    rintro a inner ⟨⟩
    exact ⟨.of_ok (x := ()) (by decide +kernel), .of_ok (x := ()) (by decide +kernel)⟩
  all_goals exact Step.served_of_none rfl _

/-! ## A run that was cancelled -/

/-- The host rejects the run, or an attempt of it. -/
def Operation.rejects (id : String) : Operation → Prop
  | .reject_run id' _ => id' = id
  | .reject_dispatch a _ => a.run_id = id
  | _ => False

/-- A host that cancels the run while an attempt is out, and then reports the attempt. -/
def Sample.cancelled : List Step :=
  Sample.start (Sample.pair .Read .Read) ++ [Sample.drive "run" 0, Sample.call (.cancel "run"),
    Sample.call (.complete (Sample.attempt 0 1 1 .Read) Sample.payload)]

/-- The slot of a run that was cancelled is given back, and its task stays with an executor:
so a task of a run that was never rejected need not have its slot. -/
theorem cancelled_task_without_slot :
    ¬ ∀ (codec : Codec) (sha256_hex : String → String) (steps : List Step) (id : String),
      (∀ step ∈ steps, step.outages = []) →
      ResultsTaken (Engine.init codec sha256_hex) steps →
      (∀ step ∈ steps, ¬ step.op.rejects id) →
      ∀ r t, (after (Engine.init codec sha256_hex) steps).store.load id = .ok r →
        r.failure_reason = none → t ∈ r.tasks → t.state.held = true →
        t.attempt.owner_epoch = (after (Engine.init codec sha256_hex) steps).store.epoch →
        (after (Engine.init codec sha256_hex) steps).dispatched.lookup (dispatch_key t.attempt)
          = some t.attempt := by
  intro h
  have hserved : ResultsTaken (Engine.init Sample.codec id) Sample.cancelled := by
    refine ⟨?_, ?_, ?_, ?_, ?_, ?_, trivial⟩
    case refine_6 =>
      rintro a inner ⟨⟩
      refine ⟨fun error herr => ?_, .of_ok (x := ()) (by decide +kernel)⟩
      have hconflict : (Refine.exec (complete_inner (Sample.attempt 0 1 1 .Read) Sample.payload)
          ((Sample.host (Sample.cancelled.take 5)).under [])).1 = .error .Conflict := by
        decide +kernel
      have hsame := hconflict.symm.trans herr
      cases hsame
      rfl
    all_goals exact Step.served_of_none rfl _
  have hanswers : ∀ step ∈ Sample.cancelled, step.outages = [] := by
    simp [Sample.cancelled, Sample.start, Sample.drive, Sample.call]
  have hrejects : ∀ step ∈ Sample.cancelled, ¬ step.op.rejects "run" := by
    simp [Sample.cancelled, Sample.start, Sample.drive, Sample.call, Operation.rejects]
  have hclaim := h Sample.codec id Sample.cancelled "run" hanswers hserved hrejects
  obtain ⟨e, he⟩ : ∃ e, e = after (Engine.init Sample.codec id) Sample.cancelled := ⟨_, rfl⟩
  have hfacts : (e.store.load "run").map (fun r =>
      decide (r.failure_reason = none) && r.tasks.any (fun t => t.state.held
        && decide (t.attempt.owner_epoch = e.store.epoch)
        && (e.dispatched.lookup (dispatch_key t.attempt)).isNone)) = .ok true := by
    rw [he]
    decide +kernel
  rw [← he] at hclaim
  cases hload : e.store.load "run" with
  | error error =>
    rw [hload] at hfacts
    cases hfacts
  | ok r =>
    rw [hload] at hfacts
    have hcheck := Except.ok.inj hfacts
    rw [Bool.and_eq_true, decide_eq_true_eq, List.any_eq_true] at hcheck
    obtain ⟨hreason, t, ht, hcheck⟩ := hcheck
    simp only [Bool.and_eq_true, decide_eq_true_eq] at hcheck
    obtain ⟨⟨hheld, hepoch⟩, hnone⟩ := hcheck
    rw [hclaim r t hload hreason ht hheld hepoch] at hnone
    cases hnone

end Appcall.Durable
