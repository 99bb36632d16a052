/-
What a run may become: uncertain effects and final states.

A run with an effect nobody can vouch for waits in `OutcomeUnknown`, the one
state `reconcile` accepts, and a run that is over stays over. Both are facts
about what a single commit does to the state of its run, so both are proved from
`Change` by cases.

Neither holds without a proviso, and for the same reason. A host that refuses an
attempt (`reject_dispatch`), or prepares one whose payload is gone, sets the
state of the run without looking at it. On a run with another effect in doubt
this overwrites `OutcomeUnknown`; on a run that has used up its retries it
revives it. `Overwrites` and `Revives` name exactly these calls.
-/
import Appcall.Engine.Fencing
import Appcall.Engine.History

set_option autoImplicit false

namespace Appcall.Durable

open Appcall.Refine

/-! ## Uncertain effects -/

/-- Every uncertain effect of the run can be reconciled. -/
def Reconcilable (r : RunRecord) : Prop :=
  ∀ t ∈ r.tasks, t.state = .Uncertain → r.state = .OutcomeUnknown

variable {m : Machine} {l : Label} {r r' : RunRecord} {children : List RunRecord} {e : Engine}
  {a : ActivityAttempt} {m' : Machine}

theorem TaskMove.uncertain {id : String} {t t' : ActivityTask} (h : TaskMove m id l t t')
    (hu : t'.state = .Uncertain) :
    t.state = .Uncertain ∨ l = .recover id ∨ ∃ a failure at_ms, l = .fail a failure at_ms := by
  cases h with
  | kept _ h2 => exact .inl (h2.symm.trans hu)
  | rejected _ _ h3 | missing _ _ h3 | invoked _ _ h3 | retried _ _ _ h3 | dispatched _ _ h3 =>
    rw [h3] at hu
    cases hu
  | completed _ _ _ h4 =>
    rw [h4] at hu
    cases hu
  | failed => exact .inr (.inr ⟨_, _, _, rfl⟩)
  | interrupted => exact .inr (.inl rfl)
  | @resolved _ _ observed _ _ h3 =>
    rw [h3] at hu
    cases observed <;> cases hu

theorem Change.uncertain (h : Change m l r r' children) {t' : ActivityTask} (ht' : t' ∈ r'.tasks)
    (hu : t'.state = .Uncertain) :
    (∃ t ∈ r.tasks, t.state = .Uncertain) ∨ l = .recover r.id ∨
      ∃ a failure at_ms, l = .fail a failure at_ms := by
  obtain ⟨base, hgrown, hmoves⟩ := h.tasks
  obtain ⟨i, hi⟩ := List.getElem?_of_mem ht'
  obtain ⟨t, ht, hmove⟩ := (forall₂_getElem? hmoves).2 t' hi
  rcases hmove.uncertain hu with h | h
  · left
    rcases hgrown with rfl | ⟨_, _, _, _, _, -, rfl⟩
    · exact ⟨t, List.mem_of_getElem? ht, h⟩
    · rcases List.mem_append.mp (List.mem_of_getElem? ht) with hmem | hmem
      · exact ⟨t, hmem, h⟩
      · -- the new task of a turn is ready
        rw [List.mem_singleton.mp hmem] at h
        cases h
  · exact .inr h

theorem has_unresolved_effect_of_uncertain {t : ActivityTask} (ht : t ∈ r.tasks)
    (hu : t.state = .Uncertain) : has_unresolved_effect r = true := by
  unfold has_unresolved_effect
  rw [List.any_eq_true]
  exact ⟨t, ht, by simp [ActivityTask.unresolved, hu]⟩

theorem completed_run_unresolved (h : has_unresolved_effect r = true) :
    (completed_run r).state = r.state := by
  unfold completed_run
  rw [if_neg (by simp [h])]

theorem mark_retry_exhausted_unresolved (h : has_unresolved_effect r = true) :
    (mark_retry_exhausted r).state = .OutcomeUnknown := by
  unfold mark_retry_exhausted
  exact if_pos h

theorem reconciled_state_unresolved (h : has_unresolved_effect r = true) :
    reconciled_state r = .OutcomeUnknown := if_pos h

theorem RunState.drivable_known {s : RunState} (h : s.drivable = true) : s ≠ .OutcomeUnknown := by
  rintro rfl
  cases h

/-- **One commit** keeps the uncertain effects of its run reconcilable, unless it
is a rejection. -/
theorem Change.reconcilable (h : Change m l r r' children) (hr : Reconcilable r)
    (hrun : ∀ reason, l ≠ .reject_run r.id reason)
    (hdispatch : (∃ a reason, l = .reject_dispatch a reason) ∨ (∃ a, l = .missing_payload a) →
      ∀ t ∈ r.tasks, t.state ≠ .Uncertain) : Reconcilable r' := by
  intro t' ht' hu
  have hfrom := h.uncertain ht' hu
  -- most commits start from a state in which nothing is uncertain
  have hclean : r.state ≠ .OutcomeUnknown → l ≠ .recover r.id →
      (∀ a failure at_ms, l ≠ .fail a failure at_ms) → False := by
    intro hs h1 h2
    rcases hfrom with ⟨t, ht, htu⟩ | hl | ⟨a, failure, at_ms, hl⟩
    · exact hs (hr t ht htu)
    · exact h1 hl
    · exact h2 a failure at_ms hl
  have hold : l ≠ .recover r.id → (∀ a failure at_ms, l ≠ .fail a failure at_ms) →
      r.state = .OutcomeUnknown := by
    intro h1 h2
    by_contra hs
    exact hclean hs h1 h2
  cases h with
  | reject_run reason => exact absurd rfl (hrun reason)
  | reject_dispatch | missing_payload =>
    rcases hfrom with ⟨t, ht, htu⟩ | hl | ⟨a, failure, at_ms, hl⟩
    · exact absurd htu (hdispatch (by simp) t ht)
    · cases hl
    · cases hl
  | invoke | signal => exact hold (by simp) (by simp)
  | complete hown =>
    rw [completed_run_tasks] at ht'
    rw [completed_run_unresolved (has_unresolved_effect_of_uncertain ht' hu)]
    exact hold (by simp) (by simp)
  | @fail r a i task task' execution failure failed_at_ms hown hmark htask =>
    rw [failed_run_tasks] at ht'
    unfold failed_run
    rcases (failed_task_ok htask).2 with ⟨-, hst | ⟨retry, hst⟩⟩ | hst
    · rw [hst]
      exact mark_retry_exhausted_unresolved (has_unresolved_effect_of_uncertain ht' hu)
    · rw [hst]
      simp only [merge_retry_wakeup_state]
      rcases List.mem_or_eq_of_mem_set ht' with hmem | rfl
      · exact hr t' hmem hu
      · rw [hst] at hu
        cases hu
    · rw [hst]
  | recover hset hfail hany =>
    show (if _ then _ else _ : RunState) = _
    obtain ⟨t, ht, rfl⟩ := List.mem_map.mp ht'
    split
    · rfl
    · rename_i hno
      simp only [Bool.not_eq_true, List.any_eq_false] at hno
      refine hr t ht ?_
      unfold recover_task at hu
      simp only at hu
      split at hu
      · rename_i hint
        have hsafe := hno t ht
        rw [hint] at hsafe
        split at hu
        · cases hu
        · rename_i hpol
          simp [hpol] at hsafe
      · exact hu
  | reconcile =>
    refine reconciled_state_unresolved ?_
    exact has_unresolved_effect_of_uncertain ht' hu
  | resume hs => exact (hclean (by rcases hs with h | h <;> simp [h]) (by simp) (by simp)).elim
  | cancel_request hs =>
    exact (hclean (by intro h; rw [h] at hs; cases hs) (by simp) (by simp)).elim
  | cancel_done hs => exact (hclean (by simp [hs]) (by simp) (by simp)).elim
  | wake hs => exact (hclean (by simp [hs]) (by simp) (by simp)).elim
  | _ =>
    exact (hclean (RunState.drivable_known ‹_›) (by simp) (by simp)).elim

/-! ## Refused attempts -/

/-- The labels that take an attempt back before it started. -/
def Label.refuses (a : ActivityAttempt) (l : Label) : Prop :=
  (∃ reason, l = .reject_dispatch a reason) ∨ l = .missing_payload a

/-- The step takes the attempt back before it started, if it is taken at all: the
host rejects it, or prepares it and its payload is gone. -/
def Step.Refuses (step : Step) (e : Engine) (a : ActivityAttempt) : Prop :=
  (∃ reason, step.op = .reject_dispatch a reason)
    ∨ ∃ resolver started_at_ms, step.op = .prepare_registered_at a resolver started_at_ms
      ∧ resolver a.input = .ok none ∧ e.activities.lookup (a.name, a.version) = some true

/-- A task of the stored run `r` is in flight with `a`, under the current epoch. -/
def Flying (e : Engine) (r : RunRecord) (a : ActivityAttempt) : Prop :=
  a.run_id = r.id ∧ a.owner_epoch = e.store.epoch
    ∧ ∃ task ∈ r.tasks, task.attempt = a ∧ task.state = .InFlight

theorem Change.flying (h : Change e.machine l r r' children) (hok : TasksOk r) (hl : l.refuses a) :
    Flying e r a := by
  cases h with
  | reject_dispatch reason hterm hown hin =>
    obtain ⟨hget, hatt, hepoch, -⟩ := owned_task_ok hown
    have hmem := List.mem_of_getElem? hget
    rcases hl with ⟨reason', hl⟩ | hl <;> cases hl
    exact ⟨by rw [← hatt]; exact (hok.owner _ hmem).1, hepoch, _, hmem, hatt, hin⟩
  | missing_payload hown hin =>
    obtain ⟨hget, hatt, hepoch, -⟩ := owned_attempt_ok hown
    have hmem := List.mem_of_getElem? hget
    rcases hl with ⟨reason', hl⟩ | hl <;> cases hl
    exact ⟨by rw [← hatt]; exact (hok.owner _ hmem).1, hepoch, _, hmem, hatt, hin⟩
  | _ => rcases hl with ⟨reason', hl⟩ | hl <;> cases hl

theorem Outcome.refusal {step : Step} {ls : List Label}
    (h : Outcome e.machine step.op (step.exec e).1 ls) (hmem : l ∈ ls) (hl : l.refuses a) :
    step.Refuses e a ∧ ∃ ls', ls = l :: ls' ∧ ∀ l' ∈ ls', l'.releases a := by
  rcases hl with ⟨reason, rfl⟩ | rfl
  · obtain ⟨hop, hls⟩ := h.refused hmem
    exact ⟨.inl ⟨reason, hop⟩, hls⟩
  · obtain ⟨⟨resolver, started_at_ms, hop, hnone, hnative, -⟩, hls⟩ := h.missing hmem
    exact ⟨.inr ⟨resolver, started_at_ms, hop, hnone, hnative⟩, hls⟩

/-- The step refuses an attempt in flight of the run `id` while another effect of
the run is uncertain. -/
def Overwrites (e : Engine) (step : Step) (id : String) : Prop :=
  ∃ a r, e.store.load id = .ok r ∧ Flying e r a ∧ step.Refuses e a
    ∧ ∃ t ∈ r.tasks, t.state = .Uncertain

theorem Trans.reconcilable (h : Trans m l m') {id : String}
    (hI : ∀ en, m.runs id = some en → Reconcilable en.record)
    (hrun : ∀ reason, l ≠ .reject_run id reason)
    (hdispatch : ∀ a r r' c children, l.refuses a → m.runs id = some ⟨r, c⟩ → r.id = id →
      Change m l r r' children → ∀ t ∈ r.tasks, t.state ≠ .Uncertain) :
    ∀ en, m'.runs id = some en → Reconcilable en.record := by
  intro en hen
  rcases h.backward hen with ⟨c, hr⟩ | ⟨r, c, run, children, hr, hid, hc, heq⟩ | ⟨-, hn, -⟩
  · exact hI ⟨en.record, c⟩ hr
  · have hkept : Reconcilable run := by
      refine hc.reconcilable (hI _ hr) (by rw [hid]; exact hrun) ?_
      rintro (⟨a, reason, rfl⟩ | ⟨a, rfl⟩)
      · exact hdispatch a r run c children (.inl ⟨reason, rfl⟩) hr hid hc
      · exact hdispatch a r run c children (.inr rfl) hr hid hc
    rw [heq]
    exact hkept
  · intro t ht
    rw [hn.tasks] at ht
    cases ht

theorem Label.refuses_releases {b : ActivityAttempt} (h : l.refuses a) : ¬ l.releases b := by
  rcases h with ⟨reason, rfl⟩ | rfl <;> exact fun h => h

theorem Step.reconcilable (he : Reachable e) (step : Step) {id : String}
    (hI : ∀ en, e.machine.runs id = some en → Reconcilable en.record)
    (hrun : ∀ reason, step.op ≠ .reject_run id reason) (hover : ¬ Overwrites e step id) :
    ∀ en, (step.exec e).2.machine.runs id = some en → Reconcilable en.record := by
  obtain ⟨ls, hp, -, hout⟩ := step.path he.wellFormed
  have hnorun : ∀ l ∈ ls, ∀ reason, l ≠ .reject_run id reason := by
    rintro l hl reason rfl
    exact hrun reason (hout.rejected hl).1
  -- a stretch of the call without refusals
  have hplain : ∀ m m' ls', Path Trans m ls' m' → (∀ l ∈ ls', l ∈ ls) →
      (∀ l ∈ ls', ∀ a, ¬ l.refuses a) → (∀ en, m.runs id = some en → Reconcilable en.record) →
      ∀ en, m'.runs id = some en → Reconcilable en.record := by
    intro m m' ls' hp' hsub hno h0
    refine Path.keeps (I := fun m => ∀ en, m.runs id = some en → Reconcilable en.record) hp'
      (fun l hl m1 m2 ht h1 => ?_) h0
    exact ht.reconcilable h1 (hnorun l (hsub l hl))
      (fun a _ _ _ _ href => absurd href (hno l hl a))
  by_cases href : ∃ l ∈ ls, ∃ a, l.refuses a
  · obtain ⟨l, hl, a, hla⟩ := href
    obtain ⟨hstep, ls', rfl, hrel⟩ := hout.refusal hl hla
    generalize (step.exec e).2.machine = m' at hp
    cases hp with
    | cons htrans hrest =>
      refine hplain _ _ ls' hrest (fun l' hl' => List.mem_cons_of_mem _ hl')
        (fun l' hl' b hb => Label.refuses_releases hb (hrel l' hl')) ?_
      refine htrans.reconcilable hI (hnorun _ hl) ?_
      intro b r r' c children _ hr hid hc t ht hu
      have hfly := hc.flying (he.tasked id _ hr).2 hla
      exact hover ⟨a, r, (load_iff he.wellFormed).mpr ⟨c, hr⟩, hfly, hstep, t, ht, hu⟩
  · exact hplain _ _ ls hp (fun l hl => hl) (fun l hl a ha => href ⟨l, hl, a, ha⟩) hI

/-- **An uncertain effect keeps its run reconcilable**, in every run of the engine
in which the host does not reject the run, and refuses no attempt of it while an
effect of it is uncertain. Cancellations and children are as they may be. -/
theorem uncertain_effect_reconcilable (codec : Codec) (sha256_hex : String → String)
    (steps : List Step) (id : String)
    (hsteps : ∀ n step, steps[n]? = some step →
      (∀ reason, step.op ≠ .reject_run id reason)
        ∧ ¬ Overwrites (after (Engine.init codec sha256_hex) (steps.take n)) step id)
    (n : ℕ) (r : RunRecord)
    (hr : (after (Engine.init codec sha256_hex) (steps.take n)).store.load id = .ok r)
    (t : ActivityTask) (ht : t ∈ r.tasks) (hu : t.state = .Uncertain) :
    r.state = .OutcomeUnknown := by
  have hreach : Reachable (after (Engine.init codec sha256_hex) (steps.take n)) :=
    ⟨codec, sha256_hex, steps.take n, rfl⟩
  have hall : ∀ en,
      (after (Engine.init codec sha256_hex) (steps.take n)).machine.runs id = some en →
      Reconcilable en.record := by
    refine after_induction (P := fun e => ∀ en, e.machine.runs id = some en →
      Reconcilable en.record) (Nat.zero_le n) ?_ ?_
    · intro en hen
      exact absurd ((init_runs codec sha256_hex id).symm.trans hen) (by simp)
    · intro n step _ _ hn hreach ih
      exact step.reconcilable hreach ih (hsteps n step hn).1 (hsteps n step hn).2
  obtain ⟨c, hc⟩ := (load_iff hreach.wellFormed).mp hr
  exact hall _ hc t ht hu

/-- Two activities are out, and the outcome of the first is reported as unknown. -/
def Sample.in_doubt : List Step :=
  Sample.start (Sample.pair .Unknown .Idempotent) ++ [Sample.drive "run" 0, Sample.drive "run" 0,
    Sample.call (.fail_at (Sample.attempt 0 1 1 .Unknown) .OutcomeUnknown 0)]

/-- The first effect is uncertain at once; then the host finds the payload of the second
activity gone and rejects its attempt. -/
theorem Sample.in_doubt_loads :
    ((after (Engine.init Sample.codec id) (Sample.in_doubt.take 6)).store.load "run").map
        (fun r => r.tasks.any (fun t => decide (t.state = .Uncertain))) = .ok true
      ∧ ((Sample.host (Sample.in_doubt ++ [Sample.call (.reject_dispatch
        (Sample.attempt 1 1 1 .Idempotent) .PayloadUnavailable)])).store.load "run").map
          (fun r => (r.state, r.tasks.map (·.state))) = .ok (.NeedsInput, [.Uncertain, .Ready])
      ∧ ((Sample.call (.reconcile "run" (effect_id_at "run" 0) (some Sample.payload) 0)).exec
          (Sample.host (Sample.in_doubt ++ [Sample.call (.reject_dispatch
            (Sample.attempt 1 1 1 .Idempotent) .PayloadUnavailable)]))).1 = .error .Conflict :=
  ⟨by decide +kernel, by decide +kernel, by decide +kernel⟩

/-- The run with the uncertain effect is in doubt. -/
theorem uncertain_effect_in_doubt :
    ∃ r t, (after (Engine.init Sample.codec id) (Sample.in_doubt.take 6)).store.load "run" = .ok r
      ∧ t ∈ r.tasks ∧ t.state = .Uncertain ∧ r.state = .OutcomeUnknown := by
  have hsteps : ∀ step ∈ Sample.in_doubt, (∀ reason, step.op ≠ .reject_run "run" reason)
      ∧ ∀ e a, ¬ step.Refuses e a := by
    simp [Sample.in_doubt, Sample.start, Sample.drive, Sample.call, Step.Refuses]
  have hunc := Sample.in_doubt_loads.1
  cases hr : (after (Engine.init Sample.codec id) (Sample.in_doubt.take 6)).store.load "run" with
  | error e =>
    rw [hr] at hunc
    cases hunc
  | ok r =>
    rw [hr] at hunc
    obtain ⟨t, ht, hu⟩ := List.any_eq_true.mp (Except.ok.inj hunc)
    refine ⟨r, t, rfl, ht, of_decide_eq_true hu, ?_⟩
    refine uncertain_effect_reconcilable Sample.codec id Sample.in_doubt "run" ?_ 6 r hr t ht
      (of_decide_eq_true hu)
    intro n step hn
    obtain ⟨h1, h2⟩ := hsteps step (List.mem_of_getElem? hn)
    exact ⟨h1, fun ⟨a, _, _, _, href, _⟩ => h2 _ a href⟩

/-- The run needs input, the first effect is still uncertain, and `reconcile` is
locked out of it. -/
theorem uncertain_effect_locked_out :
    ((Sample.host (Sample.in_doubt ++ [Sample.call (.reject_dispatch
        (Sample.attempt 1 1 1 .Idempotent) .PayloadUnavailable)])).store.load "run").map
          (fun r => (r.state, r.tasks.map (·.state))) = .ok (.NeedsInput, [.Uncertain, .Ready])
      ∧ ((Sample.call (.reconcile "run" (effect_id_at "run" 0) (some Sample.payload) 0)).exec
          (Sample.host (Sample.in_doubt ++ [Sample.call (.reject_dispatch
            (Sample.attempt 1 1 1 .Idempotent) .PayloadUnavailable)]))).1 = .error .Conflict :=
  Sample.in_doubt_loads.2

/-! ## Final states -/

/-- The run is over, and not because its retries ran out. -/
def RunRecord.final (r : RunRecord) : Prop :=
  r.state = .Completed ∨ r.state = .Cancelled ∨ r.state = .Nondeterminism
    ∨ (r.state = .Failed ∧ r.failure_reason ≠ some .RetryExhausted)

/-- The run has used up its retries; an effect of it may still be in doubt. -/
def RunRecord.exhausted (r : RunRecord) : Prop :=
  r.failure_reason = some .RetryExhausted ∧ (r.state = .Failed ∨ r.state = .OutcomeUnknown)

/-- What an exhausted run stays: failed, or in doubt for that reason. -/
def RunRecord.spent (r : RunRecord) : Prop :=
  r.state = .Failed ∨ (r.state = .OutcomeUnknown ∧ r.failure_reason = some .RetryExhausted)

theorem RunRecord.final.terminal (h : r.final) :
    r.state.terminal = true ∧ r.retry_exhausted = false := by
  rcases h with h | h | h | ⟨h, hreason⟩ <;> rw [RunRecord.retry_exhausted, h]
  · exact ⟨rfl, rfl⟩
  · exact ⟨rfl, rfl⟩
  · exact ⟨rfl, rfl⟩
  · exact ⟨rfl, by simp [hreason]⟩

theorem RunState.drivable_active {s : RunState} (h : s.drivable = true) : s.terminal = false := by
  cases s <;> first | rfl | cases h

/-- On a run that is over, and not because its retries ran out, only a cancel commits. -/
theorem Change.cancels (h : Change m l r r' children) (hterm : r.state.terminal = true)
    (hretry : r.retry_exhausted = false) :
    (r.state.uncancellable = false ∧ r'.state = .CancelRequested)
      ∨ (r.state = .CancelRequested ∧ r'.state = .Cancelled) := by
  -- the result of an attempt is refused on a terminal run
  have hown : ∀ a i task, owned_attempt r a m.epoch ≠ .ok (i, task) := by
    intro a i task ho
    obtain ⟨-, -, -, -, himp⟩ := owned_attempt_ok ho
    rw [himp hterm] at hretry
    cases hretry
  cases h with
  | reject_run _ hs | reject_dispatch _ hs | signal hs =>
    rw [hterm] at hs
    cases hs
  | missing_payload ho | invoke ho | complete ho | fail ho => exact (hown _ _ _ ho).elim
  | recover hset hfail =>
    cases hst : r.state with
    | Failed =>
      rw [hfail hst] at hretry
      cases hretry
    | _ =>
      rw [hst] at hset hterm
      first | cases hset; done | cases hterm
  | resume hs =>
    rcases hs with hs | hs <;> rw [hs] at hterm <;> cases hterm
  | cancel_request hs => exact .inl ⟨hs, rfl⟩
  | cancel_done hs => exact .inr ⟨hs, rfl⟩
  | reconcile hs | wake hs =>
    rw [hs] at hterm
    cases hterm
  | _ =>
    rw [RunState.drivable_active (s := r.state) ‹_›] at hterm
    cases hterm

theorem Change.not_final (h : Change m l r r' children) : ¬ r.final := by
  intro hfinal
  obtain ⟨hterm, hretry⟩ := hfinal.terminal
  rcases h.cancels hterm hretry with ⟨hs, -⟩ | ⟨hs, -⟩ <;>
    rcases hfinal with h | h | h | ⟨h, -⟩ <;> rw [h] at hs <;> cases hs

theorem mark_retry_exhausted_spent (r : RunRecord) : (mark_retry_exhausted r).spent := by
  by_cases h : has_unresolved_effect r = true
  · exact .inr ⟨mark_retry_exhausted_unresolved h, rfl⟩
  · exact .inl (if_neg h)

theorem reconciled_state_spent (h : r.failure_reason = some .RetryExhausted) :
    reconciled_state r = .Failed ∨ reconciled_state r = .OutcomeUnknown := by
  by_cases hu : has_unresolved_effect r = true
  · exact .inr (reconciled_state_unresolved hu)
  · refine .inl ?_
    unfold reconciled_state
    rw [if_neg hu, if_pos h]

theorem RunRecord.spent.not_drivable (h : r.spent) : r.state.drivable = false := by
  rcases h with h | ⟨h, -⟩ <;> rw [h] <;> rfl

/-- **One commit** on a run that has used up its retries. -/
theorem Change.spent (h : Change m l r r' children) (hr : r.spent)
    (hrun : ∀ reason, l = .reject_run r.id reason → failure_state reason = .Failed)
    (hdispatch : ∀ a reason, l = .reject_dispatch a reason → failure_state reason = .Failed)
    (hpayload : ∀ a, l ≠ .missing_payload a) : r'.spent := by
  -- where a result is taken, the run is out of retries
  have hreason : ∀ a i task, owned_attempt r a m.epoch = .ok (i, task) →
      r.failure_reason = some .RetryExhausted := by
    intro a i task ho
    obtain ⟨-, -, -, -, himp⟩ := owned_attempt_ok ho
    rcases hr with hs | ⟨-, hreason⟩
    · rw [hs] at himp
      exact (RunRecord.retry_exhausted_iff.mp (himp rfl)).2
    · exact hreason
  cases h with
  | reject_run reason => exact .inl (hrun reason rfl)
  | reject_dispatch reason => exact .inl (hdispatch _ reason rfl)
  | missing_payload => exact absurd rfl (hpayload _)
  | invoke | signal => exact hr
  | complete ho =>
    unfold completed_run
    split
    · rw [if_pos (hreason _ _ _ ho)]
      exact .inl rfl
    · exact hr
  | fail ho hmark htask =>
    unfold failed_run
    split
    · exact mark_retry_exhausted_spent _
    · unfold RunRecord.spent
      simp only [merge_retry_wakeup_state, merge_retry_wakeup_reason]
      exact hr
    · exact .inr ⟨rfl, hreason _ _ _ ho⟩
  | recover hset hfail =>
    have hre : r.failure_reason = some .RetryExhausted := by
      rcases hr with hs | ⟨-, hre⟩
      · exact (RunRecord.retry_exhausted_iff.mp (hfail hs)).2
      · exact hre
    show (if _ then _ else _ : RunState) = _ ∨ (if _ then _ else _ : RunState) = _ ∧ _
    split
    · exact .inr ⟨rfl, hre⟩
    · exact hr
  | reconcile hs =>
    have hre : r.failure_reason = some .RetryExhausted := by
      rcases hr with hs' | ⟨-, hre⟩
      · rw [hs] at hs'
        cases hs'
      · exact hre
    have hre' : ∀ tasks, ({ r.normalized with tasks } : RunRecord).failure_reason
        = some .RetryExhausted := fun _ => hre
    rcases reconciled_state_spent (hre' _) with h | h
    · exact .inl h
    · exact .inr ⟨h, hre⟩
  | resume hs =>
    rcases hr with h | ⟨h, -⟩ <;> rw [h] at hs <;> rcases hs with hs | hs <;> cases hs
  | cancel_request hs => rcases hr with h | ⟨h, -⟩ <;> rw [h] at hs <;> cases hs
  | cancel_done hs | wake hs => rcases hr with h | ⟨h, -⟩ <;> rw [h] at hs <;> cases hs
  | _ =>
    have hs : r.state.drivable = true := ‹_›
    rw [hr.not_drivable] at hs
    cases hs

/-- The step takes a run out of the states of an exhausted one: it rejects the run
or an attempt of it with a reason that asks for something, or it prepares an
attempt whose payload is gone. -/
def Revives (e : Engine) (step : Step) (id : String) : Prop :=
  ∃ r, e.store.load id = .ok r ∧ r.exhausted
    ∧ ((∃ reason, step.op = .reject_run id reason ∧ failure_state reason ≠ .Failed
          ∧ r.state = .OutcomeUnknown)
      ∨ (∃ a reason, step.op = .reject_dispatch a reason ∧ failure_state reason ≠ .Failed
          ∧ r.state = .OutcomeUnknown ∧ Flying e r a)
      ∨ ∃ a resolver started_at_ms, step.op = .prepare_registered_at a resolver started_at_ms
          ∧ resolver a.input = .ok none ∧ e.activities.lookup (a.name, a.version) = some true
          ∧ Flying e r a)

theorem Path.final_kept {ls : List Label} (hp : Path Trans m ls m') {id : String}
    (hr : ∃ c, m.runs id = some ⟨r, c⟩) (hf : r.final) : ∃ c, m'.runs id = some ⟨r, c⟩ := by
  refine Path.keeps (I := fun m => ∃ c, m.runs id = some ⟨r, c⟩) hp (fun l _ m1 m2 ht h1 => ?_) hr
  obtain ⟨c, hc⟩ := h1
  rcases ht.forward hc with h | ⟨run, children, -, hchange, -⟩
  · exact h
  · exact absurd hf hchange.not_final

theorem Trans.spent (h : Trans m l m') {id : String} (hr : ∃ r c, m.runs id = some ⟨r, c⟩ ∧ r.spent)
    (hl : ∀ r c r' children, m.runs id = some ⟨r, c⟩ → r.id = id → r.spent →
      Change m l r r' children →
      (∀ reason, l = .reject_run id reason → failure_state reason = .Failed)
        ∧ (∀ a reason, l = .reject_dispatch a reason → failure_state reason = .Failed)
        ∧ ∀ a, l ≠ .missing_payload a) : ∃ r c, m'.runs id = some ⟨r, c⟩ ∧ r.spent := by
  obtain ⟨r, c, hc, hspent⟩ := hr
  rcases h.forward hc with ⟨c', hc'⟩ | ⟨run, children, hid, hchange, -, -, c', hc'⟩
  · exact ⟨r, c', hc', hspent⟩
  · obtain ⟨h1, h2, h3⟩ := hl r c run children hc hid hspent hchange
    exact ⟨run.saved, c', hc', hchange.spent hspent (by rw [hid]; exact h1) h2 h3⟩

theorem Change.exhausted (h : Change m l r r' children) (hr : r.spent) : r.exhausted := by
  rcases hr with hs | ⟨hs, hre⟩
  · refine ⟨?_, .inl hs⟩
    by_contra hre
    exact h.not_final (.inr (.inr (.inr ⟨hs, hre⟩)))
  · exact ⟨hre, .inr hs⟩

/-- A run stays spent, unless the step revives it. -/
theorem Step.spent (he : Reachable e) (step : Step) {id : String}
    (hr : ∃ r c, e.machine.runs id = some ⟨r, c⟩ ∧ r.spent) (hno : ¬ Revives e step id) :
    ∃ r c, (step.exec e).2.machine.runs id = some ⟨r, c⟩ ∧ r.spent := by
  obtain ⟨ls, hp, -, hout⟩ := step.path he.wellFormed
  -- a stretch of the call that rejects nothing
  have hplain : ∀ m m' ls', Path Trans m ls' m' →
      (∀ l ∈ ls', (∀ reason, l ≠ .reject_run id reason) ∧ ∀ a, ¬ l.refuses a) →
      (∃ r c, m.runs id = some ⟨r, c⟩ ∧ r.spent) → ∃ r c, m'.runs id = some ⟨r, c⟩ ∧ r.spent := by
    intro m m' ls' hp' hls h0
    refine Path.keeps (I := fun m => ∃ r c, m.runs id = some ⟨r, c⟩ ∧ r.spent) hp'
      (fun l hl m1 m2 ht h1 => ht.spent h1 (fun r c r' children _ _ _ _ => ?_)) h0
    refine ⟨fun reason h => absurd h ((hls l hl).1 reason), fun a reason h => ?_, fun a h => ?_⟩
    · exact absurd (.inl ⟨reason, h⟩) ((hls l hl).2 a)
    · exact absurd (.inr h) ((hls l hl).2 a)
  have hload : ∀ r c, e.machine.runs id = some ⟨r, c⟩ → e.store.load id = .ok r :=
    fun r c hc => (load_iff he.wellFormed).mpr ⟨c, hc⟩
  by_cases hrej : ∃ reason, .reject_run id reason ∈ ls
  · obtain ⟨reason, hmem⟩ := hrej
    obtain ⟨hop, rfl⟩ := hout.rejected hmem
    generalize (step.exec e).2.machine = m' at hp
    cases hp with
    | cons htrans hrest =>
      cases hrest
      refine htrans.spent hr (fun r c r' children hc hid hspent hchange => ⟨?_, ?_, ?_⟩)
      · rintro reason' ⟨⟩
        by_contra hfs
        -- a run that can be rejected is not terminal
        have hunk : r.state = .OutcomeUnknown := by
          cases hchange with
          | reject_run _ hterm =>
            rcases hspent with hs | ⟨hs, -⟩
            · rw [hs] at hterm
              cases hterm
            · exact hs
        exact hno ⟨r, hload r c hc, hchange.exhausted hspent, .inl ⟨reason, hop, hfs, hunk⟩⟩
      · rintro a reason' ⟨⟩
      · rintro a ⟨⟩
  · by_cases href : ∃ l ∈ ls, ∃ a, l.refuses a
    · obtain ⟨l, hl, a, hla⟩ := href
      obtain ⟨hstep, ls', rfl, hrel⟩ := hout.refusal hl hla
      generalize (step.exec e).2.machine = m' at hp
      cases hp with
      | cons htrans hrest =>
        refine hplain _ _ ls' hrest (fun l' hl' => ⟨fun reason h => ?_, fun b hb =>
          Label.refuses_releases hb (hrel l' hl')⟩) ?_
        · exact hrej ⟨reason, h ▸ List.mem_cons_of_mem _ hl'⟩
        refine htrans.spent hr (fun r c r' children hc hid hspent hchange => ⟨?_, ?_, ?_⟩)
        · rintro reason rfl
          exact absurd ⟨reason, hl⟩ hrej
        · rintro b reason rfl
          have hb : b = a := by
            rcases hla with ⟨reason', h⟩ | h <;> cases h
            rfl
          subst hb
          by_contra hfs
          have hunk : r.state = .OutcomeUnknown := by
            cases hchange with
            | reject_dispatch _ hterm =>
              rcases hspent with hs | ⟨hs, -⟩
              · rw [hs] at hterm
                cases hterm
              · exact hs
          exact hno ⟨r, hload r c hc, hchange.exhausted hspent, .inr (.inl ⟨b, reason,
            (hout.refused hl).1, hfs, hunk, hchange.flying (he.tasked id _ hc).2 hla⟩)⟩
        · rintro b rfl
          obtain ⟨⟨resolver, started_at_ms, hop, hnone, hnative, -⟩, -⟩ := hout.missing hl
          exact hno ⟨r, hload r c hc, hchange.exhausted hspent, .inr (.inr ⟨b, resolver,
            started_at_ms, hop, hnone, hnative,
            hchange.flying (he.tasked id _ hc).2 (.inr rfl)⟩)⟩
    · exact hplain _ _ ls hp (fun l hl => ⟨fun reason h => hrej ⟨reason, h ▸ hl⟩,
        fun a ha => href ⟨l, hl, a, ha⟩⟩) hr

/-- **Terminal states absorb.** A run that is over keeps its state, output and
reason to the end of every run of the engine, whatever the host does. A run that
has used up its retries stays failed, or in doubt, as long as the host takes none
of the steps that revive it. -/
theorem terminal_states_absorb (codec : Codec) (sha256_hex : String → String)
    (steps : List Step) (id : String) (i n : ℕ) (hin : i ≤ n) (r : RunRecord)
    (hr : (after (Engine.init codec sha256_hex) (steps.take i)).store.load id = .ok r) :
    ∃ r', (after (Engine.init codec sha256_hex) (steps.take n)).store.load id = .ok r'
      ∧ (r.final → r'.state = r.state ∧ r'.output = r.output
          ∧ r'.failure_reason = r.failure_reason)
      ∧ (r.exhausted →
          (∀ k step, i ≤ k → k < n → steps[k]? = some step →
            ¬ Revives (after (Engine.init codec sha256_hex) (steps.take k)) step id) →
          r'.state = .Failed ∨ r'.state = .OutcomeUnknown) := by
  have hreach : ∀ n, Reachable (after (Engine.init codec sha256_hex) (steps.take n)) :=
    fun n => ⟨codec, sha256_hex, steps.take n, rfl⟩
  obtain ⟨c, hc⟩ := (load_iff (hreach i).wellFormed).mp hr
  by_cases hfinal : r.final
  · obtain ⟨ls, hp⟩ := after_path (hreach i).wellFormed ((steps.take n).drop i)
    rw [← after_take_le _ steps hin] at hp
    obtain ⟨c', hc'⟩ := Path.final_kept hp ⟨c, hc⟩ hfinal
    refine ⟨r, (load_iff (hreach n).wellFormed).mpr ⟨c', hc'⟩, fun _ => ⟨rfl, rfl, rfl⟩, ?_⟩
    exact fun h _ => h.2
  by_cases hspent : r.exhausted ∧ ∀ k step, i ≤ k → k < n → steps[k]? = some step →
      ¬ Revives (after (Engine.init codec sha256_hex) (steps.take k)) step id
  · obtain ⟨hex, hno⟩ := hspent
    have h0 : r.spent := by
      rcases hex with ⟨hre, hs | hs⟩
      · exact .inl hs
      · exact .inr ⟨hs, hre⟩
    obtain ⟨r', c', hc', hs'⟩ := after_induction
      (P := fun e => ∃ r c, e.machine.runs id = some ⟨r, c⟩ ∧ r.spent) hin ⟨r, c, hc, h0⟩
      (fun k step hik hkn hk hreach ih => step.spent hreach ih (hno k step hik hkn hk))
    refine ⟨r', (load_iff (hreach n).wellFormed).mpr ⟨c', hc'⟩, fun h => absurd h hfinal, ?_⟩
    intro _ _
    rcases hs' with h | ⟨h, -⟩
    · exact .inl h
    · exact .inr h
  · -- nothing is claimed about its state, but the run is still there
    obtain ⟨ls, hp⟩ := after_path (hreach i).wellFormed ((steps.take n).drop i)
    rw [← after_take_le _ steps hin] at hp
    obtain ⟨r', c', hc', -⟩ := (Path.keeps_histories hp).extends_ (hreach i).histories id r c hc
    exact ⟨r', (load_iff (hreach n).wellFormed).mpr ⟨c', hc'⟩, fun h => absurd h hfinal,
      fun h hno => absurd ⟨h, hno⟩ hspent⟩


/-- A policy that gives an activity one attempt. -/
def Sample.once : RetryPolicy := { RetryPolicy.default with max_attempts := 1 }

/-- Two activities with one attempt each are out, and the first one fails. -/
def Sample.failed_once : List Step :=
  Sample.start (Sample.pair .Idempotent .Idempotent) ++
    [Sample.call (.set_retry_policy Sample.once),
    Sample.drive "run" 0, Sample.drive "run" 0,
    Sample.call (.fail_at
      { Sample.attempt 0 1 1 .Idempotent with retry_policy := some Sample.once } .Retryable 0)]

/-- The second activity completes after its run failed. -/
def Sample.late_result : List Step :=
  Sample.failed_once ++ [Sample.call (.complete
    { Sample.attempt 1 1 1 .Idempotent with retry_policy := some Sample.once } Sample.payload)]

/-- The late result does not bring the exhausted run back. -/
theorem terminal_states_absorb_late_result :
    ∃ r r', (after (Engine.init Sample.codec id) (Sample.late_result.take 7)).store.load "run"
        = .ok r ∧ r.exhausted
      ∧ (after (Engine.init Sample.codec id) (Sample.late_result.take 8)).store.load "run" = .ok r'
      ∧ (r'.state = .Failed ∨ r'.state = .OutcomeUnknown) := by
  have hstate : ((after (Engine.init Sample.codec id) (Sample.late_result.take 7)).store.load
      "run").map (fun r => (r.state, r.failure_reason)) = .ok (.Failed, some .RetryExhausted) := by
    decide +kernel
  cases hr : (after (Engine.init Sample.codec id) (Sample.late_result.take 7)).store.load "run" with
  | error e =>
    rw [hr] at hstate
    cases hstate
  | ok r =>
    rw [hr] at hstate
    have hpair := Prod.ext_iff.mp (Except.ok.inj hstate)
    have hex : r.exhausted := ⟨hpair.2, .inl hpair.1⟩
    obtain ⟨r', hr', -, hs⟩ := terminal_states_absorb Sample.codec id Sample.late_result "run" 7 8
      (by decide) r hr
    refine ⟨r, r', rfl, hex, hr', hs hex ?_⟩
    intro k step hik hkn hk
    have hk7 : k = 7 := by omega
    subst hk7
    cases hk
    rintro ⟨_, _, _, ⟨_, h, _⟩ | ⟨_, _, h, _⟩ | ⟨_, _, _, h, _⟩⟩ <;> cases h

/-- The host prepares the second activity after the run failed and finds its
payload gone: a run whose retries ran out needs input, and runs again when it is
resumed. -/
theorem exhausted_run_revived :
    ((Sample.host Sample.failed_once).store.load "run").map (fun r => (r.state, r.failure_reason))
        = .ok (.Failed, some .RetryExhausted)
      ∧ ((Sample.host (Sample.failed_once ++ [Sample.call (.prepare_registered_at
          { Sample.attempt 1 1 1 .Idempotent with retry_policy := some Sample.once }
          MissingPayloads 0)])).store.load "run").map (·.state) = .ok .NeedsInput
      ∧ ((Sample.host (Sample.failed_once ++ [Sample.call (.prepare_registered_at
          { Sample.attempt 1 1 1 .Idempotent with retry_policy := some Sample.once }
          MissingPayloads 0), Sample.call (.resume "run")])).store.load "run").map (·.state)
        = .ok .Running := by
  exact ⟨by decide +kernel, by decide +kernel, by decide +kernel⟩

end Appcall.Durable
