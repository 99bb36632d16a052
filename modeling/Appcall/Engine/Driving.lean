/-
Driving a run is a path of the transition system, and so is every operation.

A drive keeps the record in memory while the stored one may lag behind it, so
each statement about a part of the drive says which record is stored: the one
that `begun` turns into the record in memory. That is the invariant of the loop,
and it holds again after every command that resolves, because the loop saves
there. `perform_refines` collects the operations.
-/
import Appcall.Engine.Refinement

set_option autoImplicit false

namespace Appcall.Durable

open Appcall.Refine

/-! ## Reading other runs -/

/-- A program that moves nothing: `P` holds of what it answers. -/
def Reads {α : Type} (p : EngineM α) (t : Machine) (P : α → Prop) : Prop :=
  Refines p t (fun res ls t' => ls = [] ∧ t' = t ∧ ∀ a, res = .ok a → P a)

variable {α : Type} {t : Machine} {P : α → Prop} {now : ℤ} {r r1 r2 : RunRecord}
  {value1 value2 : Option CommandValue} {m : Machine} {children1 children2 : List RunRecord}
  {b : RunRecord} {pending1 pending2 : Option Command} {tasks : List ActivityTask} {id : String}
  {l : Label} {ls : List Label} {c : Option ℤ} {s : RunState} {res : Except Error DriveOutcome}
  {workflow : Workflow} {pending : Option Command} {event : HistoryEvent}
  {children : List RunRecord} {value : Option CommandValue} {wrote_history : Bool}
  {next : RunRecord → Bool → EngineM DriveOutcome}

theorem Reads.pure {a : α} (h : P a) : Reads (Pure.pure a) t P :=
  Refines.pure ⟨rfl, rfl, by rintro b ⟨⟩; exact h⟩

theorem Reads.throw {e : Error} : Reads (MonadExcept.throw e : EngineM α) t P :=
  Refines.throw ⟨rfl, rfl, by rintro b ⟨⟩⟩

theorem Reads.bind {β : Type} {p : EngineM α} {f : α → EngineM β} {R : β → Prop} (h : Reads p t P)
    (hf : ∀ a, P a → Reads (f a) t R) : Reads (p >>= f) t R := by
  refine Refines.bind (Refines.weaken h ?_)
  rintro res ls t' ⟨rfl, rfl, hP⟩
  cases res with
  | error e => exact ⟨rfl, rfl, by rintro b ⟨⟩⟩
  | ok a => exact hf a (hP a rfl)

theorem Reads.result {β : Type} {x : Except Error α} {f : α → EngineM β} {R : β → Prop}
    (hf : ∀ a, x = .ok a → Reads (f a) t R) : Reads (Durable.result x >>= f) t R :=
  Refines.result hf (fun _ _ => ⟨rfl, rfl, by rintro b ⟨⟩⟩)

theorem Refines.reads {β : Type} {p : EngineM α} {f : α → EngineM β}
    {Q : Except Error β → List Label → Machine → Prop} (h : Reads p t P)
    (hok : ∀ a, P a → Refines (f a) t Q) (herr : ∀ e, Q (.error e) [] t) :
    Refines (p >>= f) t Q := by
  refine Refines.bind (Refines.weaken h ?_)
  rintro res ls t' ⟨rfl, rfl, hP⟩
  cases res with
  | error e => exact herr e
  | ok a => exact hok a (hP a rfl)

theorem load_reads (id : String) (t : Machine) :
    Reads (load id) t (fun r => ∃ c, t.runs id = some ⟨r, c⟩) := by
  unfold Reads
  rw [← bind_pure (load id)]
  refine Refines.load (fun r c hs hid _ => ?_) (fun _ => ⟨rfl, rfl, by rintro b ⟨⟩⟩)
  subst hid
  exact Reads.pure ⟨c, hs⟩

theorem follow_reads (hops : ℕ) (run : RunRecord) (t : Machine) :
    Reads (follow hops run) t (fun r => follow_view t.runs hops run = some r) := by
  induction hops generalizing run with
  | zero =>
    unfold follow follow_view
    cases run.continued_as with
    | none => exact Reads.pure rfl
    | some next => exact Reads.throw
  | succ hops ih =>
    unfold follow follow_view
    cases run.continued_as with
    | none => exact Reads.pure rfl
    | some next =>
      refine Reads.bind (load_reads next t) ?_
      rintro r ⟨c, hr⟩
      simp only [hr]
      exact ih r

theorem latest_run_reads (id : String) (t : Machine) :
    Reads (latest_run id) t (fun r => latest_view t.runs id = some r) := by
  unfold latest_run latest_view
  refine Reads.bind (load_reads id t) ?_
  rintro r ⟨c, hr⟩
  simp only [hr, Option.bind_some]
  exact follow_reads 1024 r t

theorem all_completed_reads (children : List String) (t : Machine) :
    Reads (all_completed children) t (fun b =>
      (b = true ∧ ∀ child ∈ children, ∃ run, latest_view t.runs child = some run
        ∧ run.state = .Completed)
      ∨ (b = false ∧ ∃ child ∈ children, ∃ run, latest_view t.runs child = some run
        ∧ run.state ≠ .Completed)) := by
  induction children with
  | nil => exact Reads.pure (.inl ⟨rfl, by simp⟩)
  | cons child children ih =>
    unfold all_completed
    refine Reads.bind (latest_run_reads child t) (fun run hrun => ?_)
    by_cases hc : run.state ≠ .Completed
    · rw [if_pos hc]
      exact Reads.pure (.inr ⟨rfl, child, List.mem_cons_self, run, hrun, hc⟩)
    · rw [if_neg hc]
      rw [not_not] at hc
      refine Refines.weaken ih ?_
      rintro res ls t' ⟨hls, ht, hb⟩
      refine ⟨hls, ht, fun b hres => ?_⟩
      rcases hb b hres with ⟨rfl, hall⟩ | ⟨rfl, x, hx, hrest⟩
      · exact .inl ⟨rfl, List.forall_mem_cons.mpr ⟨⟨run, hrun, hc⟩, hall⟩⟩
      · exact .inr ⟨rfl, x, List.mem_cons_of_mem _ hx, hrest⟩

/-! ## Evaluating a command -/

/-- The source that a select finds over, and what it reads of it. -/
theorem select_source_reads (now : ℤ) (r : RunRecord) (i : ℕ) (sources : List WaitSource)
    (t : Machine) :
    Reads (select_source now r i sources) t
      (fun out => Selects t.runs now r i sources out.1 out.2) := by
  induction sources generalizing r i with
  | nil => exact Reads.pure (.nothing r i)
  | cons source sources ih =>
    unfold select_source
    cases source with
    | Timer deadline =>
      dsimp only
      by_cases hd : now ≥ deadline
      · rw [if_pos hd]
        exact Reads.pure (.timer_fired hd)
      · rw [if_neg hd]
        exact Refines.weaken (ih _ _) (fun _ _ _ h =>
          ⟨h.1, h.2.1, fun a ha => .timer_later hd (h.2.2 a ha)⟩)
    | Signal name =>
      refine Reads.result (fun _ _ => ?_)
      cases htake : take_signal r.signals name with
      | none =>
        exact Refines.weaken (ih _ _) (fun _ _ _ h =>
          ⟨h.1, h.2.1, fun a ha => .signal_later htake (h.2.2 a ha)⟩)
      | some taken =>
        obtain ⟨value, signals⟩ := taken
        exact Reads.pure (.signal_taken htake)
    | Child child =>
      dsimp only
      by_cases hmem : child.run_id ∈ r.children
      swap
      · rw [if_pos hmem]
        exact Reads.throw
      rw [if_neg (not_not_intro hmem)]
      refine Reads.bind (latest_run_reads child.run_id t) (fun run hrun => ?_)
      have hlater : run.state.ends = false → Reads (select_source now r (i + 1) sources) t
          (fun out => Selects t.runs now r i (.Child child :: sources) out.1 out.2) :=
        fun he => Refines.weaken (ih _ _) (fun _ _ _ h =>
          ⟨h.1, h.2.1, fun a ha => .child_later hrun hmem he (h.2.2 a ha)⟩)
      cases hst : run.state with
      | Failed =>
        refine Reads.pure ?_
        rw [← hst]
        exact .child_failed hrun hmem (.inl hst)
      | Nondeterminism =>
        refine Reads.pure ?_
        rw [← hst]
        exact .child_failed hrun hmem (.inr hst)
      | Cancelled => exact Reads.pure (.child_cancelled hrun hmem hst)
      | Completed => exact Reads.pure (.child_completed hrun hmem hst)
      | Running | NeedsInput | NeedsImplementation | OutcomeUnknown | CancelRequested
      | ContinuedAsNew => exact hlater (by rw [hst]; rfl)
    | Activity activity =>
      dsimp only
      cases htask : r.task? activity.effect_id with
      | none => exact Reads.throw
      | some task =>
        have hlater : task.state.is_done = false → Reads (select_source now r (i + 1) sources) t
            (fun out => Selects t.runs now r i (.Activity activity :: sources) out.1 out.2) :=
          fun hd => Refines.weaken (ih _ _) (fun _ _ _ h =>
            ⟨h.1, h.2.1, fun a ha => .activity_later htask hd (h.2.2 a ha)⟩)
        dsimp only
        cases hst : task.state with
        | Done p => exact Reads.pure (.activity_done htask hst)
        | Ready | InFlight | Invoking | Retrying | Uncertain => exact hlater (by rw [hst]; rfl)

theorem evaluate_activity_reads (r : RunRecord) (index : ℕ) (now : ℤ) (name version : String)
    (input : PayloadRef) (policy : EffectPolicy) (detached_wait : Bool) (t : Machine) :
    Reads (evaluate_activity { r with wakeup := none } index name version input policy
        detached_wait) t
      (fun out => Evaluates t r index now (.Activity name version input policy detached_wait)
        out.1 out.2.1 out.2.2) := by
  unfold evaluate_activity
  refine Reads.result (fun _ _ => Reads.result (fun _ _ => ?_))
  refine Refines.get (fun e _ ht => ?_)
  have hepoch : e.store.epoch = t.epoch := by
    rw [← ht]
    rfl
  rw [hepoch]
  dsimp only
  have hwith : (if (RunRecord.task? { r with wakeup := none } (effect_id_at r.id index)).isSome
        = true then { r with wakeup := none }
      else { r with
        wakeup := none
        tasks := r.tasks
          ++ [new_task { r with wakeup := none } t.epoch index name version input policy] })
      = with_task { r with wakeup := none } t.epoch index name version input policy := rfl
  rw [hwith]
  cases detached_wait with
  | true => exact Reads.pure .spawned
  | false =>
    simp only [Bool.false_eq_true, if_false]
    cases htask : (with_task { r with wakeup := none } t.epoch index name version input
        policy).task? (effect_id_at r.id index) with
    | none => exact Reads.throw
    | some task =>
      dsimp only
      cases hst : task.state with
      | Done p => exact Reads.pure (.activity_done htask hst)
      | Ready | InFlight | Invoking | Retrying | Uncertain =>
        exact Reads.pure (.activity_later htask (by rw [hst]; rfl))

theorem evaluate_child_reads (r : RunRecord) (index : ℕ) (now : ℤ) (name version : String)
    (input : PayloadRef) (t : Machine) :
    Reads (evaluate_child { r with wakeup := none } index name version input) t
      (fun out => Evaluates t r index now (.Child name version input) out.1 out.2.1 out.2.2) := by
  unfold evaluate_child
  refine Refines.get (fun e _ ht => ?_)
  have hsha : e.sha256_hex = t.sha256_hex := by
    rw [← ht]
    rfl
  rw [hsha]
  refine Reads.bind (run_exists_refines _) (fun b hb => ?_)
  cases b with
  | true => exact Reads.throw
  | false =>
    simp only [Bool.false_eq_true, if_false] at hb ⊢
    exact Reads.result (fun child hchild => Reads.pure (.child hb hchild))

theorem continue_with_successor_reads (r : RunRecord) (index : ℕ) (now : ℤ) (input : PayloadRef)
    (t : Machine) (hdone : ∀ task ∈ r.tasks, task.state.is_done = true)
    (hchildren : ∀ child ∈ r.children, ∃ run, latest_view t.runs child = some run
      ∧ run.state = .Completed)
    (hfree : ∀ existing, r.continued_as = some existing → t.runs existing = none) :
    Reads (continue_with_successor { r with wakeup := none } index input) t
      (fun out => Evaluates t r index now (.ContinueAsNew input) out.1 out.2.1 out.2.2) := by
  unfold continue_with_successor
  refine Refines.get (fun e _ ht => ?_)
  have hsha : e.sha256_hex = t.sha256_hex := by
    rw [← ht]
    rfl
  rw [hsha]
  refine Reads.bind (run_exists_refines _) (fun b hb => ?_)
  cases b with
  | true => exact Reads.throw
  | false =>
    simp only [Bool.false_eq_true, if_false] at hb ⊢
    exact Reads.result (fun successor hs => Reads.pure (.continues hdone hchildren hfree hb hs))

theorem evaluate_continue_reads (r : RunRecord) (index : ℕ) (now : ℤ) (input : PayloadRef)
    (t : Machine) :
    Reads (evaluate_continue { r with wakeup := none } index input) t
      (fun out => Evaluates t r index now (.ContinueAsNew input) out.1 out.2.1 out.2.2) := by
  unfold evaluate_continue
  dsimp only
  by_cases hany : r.tasks.any (fun task => !task.state.is_done) = true
  · rw [if_pos hany]
    exact Reads.throw
  rw [if_neg hany]
  have hdone : ∀ task ∈ r.tasks, task.state.is_done = true := by
    simpa using hany
  refine Reads.bind (all_completed_reads r.children t) (fun b hb => ?_)
  rcases hb with ⟨rfl, hchildren⟩ | ⟨rfl, child, hchild, run, hrun, hst⟩
  swap
  · exact Reads.pure (.continue_too_early hdone hchild hrun hst)
  simp only [Bool.not_true, Bool.false_eq_true, if_false]
  split
  · rename_i existing hex
    refine Reads.bind (run_exists_refines existing) (fun b hb => ?_)
    cases b with
    | true =>
      obtain ⟨en, hen⟩ := hb
      exact Reads.pure (.continued hdone hchildren hex hen)
    | false =>
      refine continue_with_successor_reads r index now input t hdone hchildren ?_
      intro existing' hex'
      rw [hex] at hex'
      cases hex'
      exact hb
  · rename_i hnone
    refine continue_with_successor_reads r index now input t hdone hchildren ?_
    intro existing hex
    rw [hnone] at hex
    cases hex

theorem evaluate_reads (r : RunRecord) (index : ℕ) (command : Command) (now : ℤ) (t : Machine) :
    Reads (evaluate r index command now) t
      (fun out => Evaluates t r index now command out.1 out.2.1 out.2.2) := by
  unfold evaluate
  cases command with
  | Activity name version input policy detached_wait =>
    exact evaluate_activity_reads r index now name version input policy detached_wait t
  | Timer deadline =>
    dsimp only
    by_cases hd : now ≥ deadline
    · rw [if_pos hd]
      exact Reads.pure (.timer_fired hd)
    · rw [if_neg hd]
      exact Reads.pure (.timer_later hd)
  | Signal name =>
    refine Reads.result (fun _ _ => ?_)
    cases htake : take_signal r.signals name with
    | none => exact Reads.pure (.signal_later htake)
    | some taken =>
      obtain ⟨value, signals⟩ := taken
      exact Reads.pure (.signal_taken htake)
  | Child name version input => exact evaluate_child_reads r index now name version input t
  | Select sources =>
    refine Reads.result (fun _ hcheck => ?_)
    refine Reads.bind (select_source_reads now _ 0 sources t) (fun out hout => ?_)
    exact Reads.pure (.select hcheck hout)
  | ContinueAsNew input => exact evaluate_continue_reads r index now input t

/-! ## A turn has one outcome -/

theorem Selects.functional {v : String → Option Entry} {i : ℕ} {sources : List WaitSource}
    (h1 : Selects v now r i sources value1 r1) (h2 : Selects v now r i sources value2 r2) :
    value1 = value2 ∧ r1 = r2 := by
  induction h1 with
  | nothing =>
    cases h2
    exact ⟨rfl, rfl⟩
  | timer_fired | signal_taken | child_failed | child_cancelled | child_completed
  | activity_done => cases h2 <;> grind [RunState.ends, TaskState.is_done]
  | timer_later _ _ ih | signal_later _ _ ih | child_later _ _ _ _ ih | activity_later _ _ _ ih =>
    cases h2 <;> grind [RunState.ends, TaskState.is_done]

theorem Evaluates.functional {index : ℕ} {c : Command}
    (h1 : Evaluates m r index now c value1 r1 children1)
    (h2 : Evaluates m r index now c value2 r2 children2) :
    value1 = value2 ∧ r1 = r2 ∧ children1 = children2 := by
  cases h1 <;> cases h2 <;> grind [TaskState.is_done, Selects.functional]

theorem Blocked.functional (h1 : Blocked m b pending1) (h2 : Blocked m b pending2) :
    pending1 = pending2 := by
  obtain ⟨workflow, cursor, hw, he, -⟩ := h1
  obtain ⟨workflow', cursor', hw', he', -⟩ := h2
  rw [hw] at hw'
  cases hw'
  rw [he] at he'
  exact congrArg Evaluation.pending he'

theorem Turn.functional {event1 event2 : HistoryEvent}
    (h1 : Turn m now b pending1 event1 value1 r1 children1)
    (h2 : Turn m now b pending2 event2 value2 r2 children2) :
    pending1 = pending2 ∧ value1 = value2 ∧ r1 = r2 ∧ children1 = children2 := by
  obtain rfl := h1.blocked.functional h2.blocked
  have he : event1 = event2 := by
    have := h1.open_event
    rw [h2.open_event] at this
    exact (Option.some.inj this).symm
  subst he
  exact ⟨rfl, h1.evaluated.functional h2.evaluated⟩

theorem not_idles_of_resolved (h : r.open_command = false) : ¬ Idles m now r := by
  rintro ⟨event, r1, ht, -⟩
  obtain ⟨workflow, cursor, -, -, hp | hp⟩ := ht.blocked
  · cases hp
  · rw [show (begun r).open_command = r.open_command from rfl, h] at hp
    cases hp

/-! ## Retries -/

/-- No task is due, or out of time, yet. -/
def Early (now : ℤ) (tasks : List ActivityTask) : Prop :=
  ∀ task ∈ tasks, ∀ w, task.retry_due = some w → now < w

theorem retry_wakeup_some {w : ℤ} :
    retry_wakeup r = some w ↔ (∃ task ∈ r.tasks, task.retry_due = some w)
      ∧ ∀ task ∈ r.tasks, ∀ w', task.retry_due = some w' → w ≤ w' := by
  unfold retry_wakeup
  rw [List.min?_eq_some_iff]
  simp only [List.mem_filterMap]
  constructor
  · rintro ⟨⟨task, ht, hw⟩, hle⟩
    exact ⟨⟨task, ht, hw⟩, fun task' ht' w' hw' => hle w' ⟨task', ht', hw'⟩⟩
  · rintro ⟨hex, hle⟩
    exact ⟨hex, fun w' ⟨task', ht', hw'⟩ => hle task' ht' w' hw'⟩

theorem early_iff : Early now r.tasks ↔ ∀ w, retry_wakeup r = some w → now < w := by
  constructor
  · intro h w hw
    obtain ⟨⟨task, ht, hdue⟩, -⟩ := retry_wakeup_some.mp hw
    exact h task ht w hdue
  · intro h task ht w hdue
    have hmem : w ∈ r.tasks.filterMap ActivityTask.retry_due :=
      List.mem_filterMap.mpr ⟨task, ht, hdue⟩
    cases hmin : retry_wakeup r with
    | none =>
      unfold retry_wakeup at hmin
      rw [List.min?_eq_none_iff] at hmin
      rw [hmin] at hmem
      cases hmem
    | some w0 =>
      have := (retry_wakeup_some.mp hmin).2 task ht w hdue
      have := h w0 hmin
      omega

/-- The loop of `advance_retries`. One pass decides every task, except behind the
one that ran out of time. -/
theorem advance_tasks_ok {tasks' : List ActivityTask} {changed exhausted : Bool}
    (h : advance_tasks now tasks = .ok (tasks', changed, exhausted)) :
    (exhausted = false → Early now tasks')
      ∧ (changed = false → exhausted = false → tasks' = tasks)
      ∧ (changed = true ∨ exhausted = true → ¬ Early now tasks)
      ∧ (changed = true → tasks'.any (fun task => task.state.is_ready) = true)
      ∧ ((∀ task ∈ tasks, normalize_task task = task) →
          ∀ task ∈ tasks', normalize_task task = task) := by
  induction tasks generalizing tasks' changed exhausted with
  | nil =>
    cases h
    exact ⟨fun _ => by simp [Early], fun _ _ => rfl, by simp, by simp, fun h => h⟩
  | cons task tasks ih =>
    unfold advance_tasks at h
    cases hst : task.state with
    | Ready | InFlight | Invoking | Done | Uncertain =>
      rw [hst] at h
      simp only [bind, Except.bind, pure, Except.pure] at h
      cases hrec : advance_tasks now tasks with
      | error e => rw [hrec] at h; cases h
      | ok out =>
        obtain ⟨ts, ch, ex⟩ := out
        rw [hrec] at h
        cases h
        obtain ⟨h1, h2, h3, h5, h4⟩ := ih hrec
        have hnone : task.retry_due = none := by
          unfold ActivityTask.retry_due
          rw [hst]
        refine ⟨fun he => List.forall_mem_cons.mpr ⟨?_, h1 he⟩, fun hc he => by rw [h2 hc he],
          fun hce hearly => h3 hce (fun t ht => hearly t (List.mem_cons_of_mem _ ht)), ?_, ?_⟩
        · intro w hw
          rw [hnone] at hw
          cases hw
        · intro hc
          rw [List.any_cons, h5 hc, Bool.or_true]
        · intro hn
          obtain ⟨hn1, hn2⟩ := List.forall_mem_cons.mp hn
          exact List.forall_mem_cons.mpr ⟨hn1, h4 hn2⟩
    | Retrying retry =>
      have hdue : task.retry_due = some (min retry.next_attempt_at_ms
          (elapsed_retry_deadline retry.retry_started_at_ms retry.policy)) := by
        unfold ActivityTask.retry_due
        rw [hst]
      rw [hst] at h
      simp only [bind, Except.bind, pure, Except.pure] at h
      split at h
      · cases h
      split at h
      · rename_i hexp
        cases h
        refine ⟨by simp, by simp, fun _ hearly => ?_, by simp, fun hn => ?_⟩
        · have := hearly task List.mem_cons_self _ hdue
          omega
        · obtain ⟨hn1, hn2⟩ := List.forall_mem_cons.mp hn
          refine List.forall_mem_cons.mpr ⟨?_, hn2⟩
          unfold normalize_task at hn1 ⊢
          rw [ActivityTask.mk.injEq] at hn1
          simp only [hn1.2.2]
      · rename_i hexp
        cases hrec : advance_tasks now tasks with
        | error e => rw [hrec] at h; cases h
        | ok out =>
          obtain ⟨ts, ch, ex⟩ := out
          rw [hrec] at h
          simp only at h
          obtain ⟨h1, h2, h3, h5, h4⟩ := ih hrec
          split at h
          · rename_i hnext
            cases h
            refine ⟨fun he => List.forall_mem_cons.mpr ⟨?_, h1 he⟩, by simp, fun _ hearly => ?_,
              fun _ => rfl, fun hn => ?_⟩
            · intro w hw
              cases hw
            · have := hearly task List.mem_cons_self _ hdue
              omega
            · obtain ⟨hn1, hn2⟩ := List.forall_mem_cons.mp hn
              refine List.forall_mem_cons.mpr ⟨?_, h4 hn2⟩
              unfold normalize_task normalize_legacy_attempt at hn1 ⊢
              rw [ActivityTask.mk.injEq] at hn1
              simp only [hn1.2.2]
          · rename_i hnext
            cases h
            refine ⟨fun he => List.forall_mem_cons.mpr ⟨?_, h1 he⟩,
              fun hc he => by rw [h2 hc he], fun hce hearly => h3 hce
                (fun t ht => hearly t (List.mem_cons_of_mem _ ht)), ?_, ?_⟩
            · intro w hw
              rw [hdue] at hw
              cases hw
              omega
            · intro hc
              rw [List.any_cons, h5 hc, Bool.or_true]
            · intro hn
              obtain ⟨hn1, hn2⟩ := List.forall_mem_cons.mp hn
              exact List.forall_mem_cons.mpr ⟨hn1, h4 hn2⟩

/-! ## The turns of a drive -/

def Label.turns (id : String) (now : ℤ) : Label → Prop
  | .recover _ | .retry_exhausted _ | .retry_ready _ | .retry_wait _ => False
  | l => l.drives id now

/-- The moves after which the wakeup of the run was computed from its commands,
or the run does not run any more. -/
def Label.settles (id : String) : Label → Prop
  | .suspend id' | .nondeterminism id' | .finish id' | .resolve id' | .stop id'
  | .unimplemented id' | .dispatch_exhausted id' | .dispatch id' _ | .progressed id' | .abort id'
  | .hold id' _ | .wait id' _ | .idle id' _ | .cancel_request id' | .retry_exhausted id' => id' = id
  | _ => False

/-- The first turn of a drive of the stored run `r` evaluates a command. -/
def Turns (t : Machine) (now : ℤ) (r : RunRecord) : Prop :=
  ∃ pending event value r1 children, Turn t now (begun r) pending event value r1 children

/-- A move that takes no slot of the dispatch table and gives none back. -/
def Label.calm : Label → Prop
  | .dispatch _ _ | .hand_out _ | .release _ => False
  | _ => True

/-- The moves that give slots of a run back. -/
def Label.frees (id : String) : Label → Prop
  | .release a => a.run_id = id
  | .wake _ | .unpark _ => True
  | _ => False

/-- What a drive does to the dispatch table: nothing, or it ends with handing out the
attempt that it dispatched, or it ends with giving slots of the run back, after it has
aborted the run. -/
inductive Occupancy (id : String) : List Label → Prop where
  | calm {ls : List Label} : (∀ l ∈ ls, l.calm) → Occupancy id ls
  | handed {ls : List Label} {a : ActivityAttempt} :
      (∀ l ∈ ls, l.calm) → Occupancy id (ls ++ [.dispatch id a, .hand_out a])
  | aborted {ls ls' : List Label} :
      (∀ l ∈ ls, l.calm) → (∀ l ∈ ls', l.frees id) → Occupancy id (ls ++ .abort id :: ls')

theorem Occupancy.after (hl : l.calm) (h : Occupancy id ls) : Occupancy id (l :: ls) := by
  cases h with
  | calm hls => exact .calm (List.forall_mem_cons.mpr ⟨hl, hls⟩)
  | handed hls => exact @Occupancy.handed _ (l :: _) _ (List.forall_mem_cons.mpr ⟨hl, hls⟩)
  | aborted hls hls' =>
    exact @Occupancy.aborted _ (l :: _) _ (List.forall_mem_cons.mpr ⟨hl, hls⟩) hls'

/-- The calm moves of the loop of a drive. -/
def Label.calm_turns (id : String) (now : ℤ) : Label → Prop
  | .dispatch _ _ | .hand_out _ | .release _ => False
  | l => l.turns id now

theorem Label.calm_turns_iff : l.calm_turns id now ↔ l.turns id now ∧ l.calm := by
  cases l <;> simp [Label.calm_turns, Label.calm]

/-- What the loop of a drive does from the stored record `r`. -/
structure Looped (t : Machine) (now : ℤ) (r : RunRecord) (res : Except Error DriveOutcome)
    (ls : List Label) : Prop where
  turns : ∀ l ∈ ls, l.turns r.id now
  activity : ∀ a, res = .ok (.Activity a) → ∃ ls0, ls = ls0 ++ [.dispatch r.id a, .hand_out a]
  waiting : res = .ok .Waiting → (ls = [.idle r.id now] ∧ Idles t now r)
    ∨ (∃ ls0 l, ls = ls0 ++ [l] ∧ (l = .wait r.id now ∨ l = .hold r.id now) ∧ ¬ Idles t now r
        ∧ Turns t now r)
  settles : ∀ o, res = .ok o → ∃ l ∈ ls, l.settles r.id
  occupancy : Occupancy r.id ls

theorem Looped.refused (h : ∀ l ∈ ls, l.calm_turns r.id now) (e : Error) :
    Looped t now r (.error e) ls :=
  ⟨fun l hl => (Label.calm_turns_iff.mp (h l hl)).1, by simp, by simp, by simp,
    .calm (fun l hl => (Label.calm_turns_iff.mp (h l hl)).2)⟩

theorem Looped.over {o : DriveOutcome} (h : ∀ l ∈ ls, l.calm_turns r.id now)
    (hs : ∃ l ∈ ls, l.settles r.id) (hw : o ≠ .Waiting) (ha : ∀ a, o ≠ .Activity a) :
    Looped t now r (.ok o) ls :=
  ⟨fun l hl => (Label.calm_turns_iff.mp (h l hl)).1, fun a he => absurd (Except.ok.inj he) (ha a),
    fun he => absurd (Except.ok.inj he) hw, fun _ _ => hs,
    .calm (fun l hl => (Label.calm_turns_iff.mp (h l hl)).2)⟩

/-- The record the loop holds in memory is the stored one with its state reset. -/
structure Holding (t : Machine) (now : ℤ) (r : RunRecord) : Prop where
  stored : ∃ c, t.runs r.id = some ⟨r, c⟩
  one_open : OneOpen r.history
  drivable : r.state.drivable = true
  early : Early now (begun r).tasks

theorem suspend_refines {run : RunRecord} (hs : t.runs r.id = some ⟨r, c⟩) (ho : OneOpen r.history)
    (hc : Change t l r { run with state := s, wakeup := none } []) :
    Refines (suspend run s) t (fun res ls _ =>
      (res = .ok (.Suspended s) ∧ ls = [l]) ∨ ((∃ e, res = .error e) ∧ ls = [])) :=
  Refines.save hs ho hc (Refines.pure (.inl ⟨rfl, rfl⟩)) (fun e => .inr ⟨⟨e, rfl⟩, rfl⟩)

theorem suspended_looped (hl : l.calm_turns r.id now) (hs : l.settles r.id)
    (h : (res = .ok (.Suspended s) ∧ ls = [l]) ∨ ((∃ e, res = .error e) ∧ ls = [])) :
    Looped t now r res ls := by
  rcases h with ⟨rfl, rfl⟩ | ⟨⟨e, rfl⟩, rfl⟩
  · exact .over (List.forall_mem_singleton.mpr hl) ⟨l, List.mem_singleton_self l, hs⟩
      (by simp) (by simp)
  · exact .refused (by simp) e

theorem finish_run_refines {output : PayloadRef} (h : Holding t now r)
    (hw : t.workflows.lookup (r.workflow, r.version) = some workflow)
    (hres : (eval_workflow workflow (begun r)).result = some (.ok output))
    (hfault : (eval_workflow workflow (begun r)).faulted = false) :
    Refines (finish_run (begun r) output (eval_workflow workflow (begun r)).cursor
      (eval_workflow workflow (begun r)).pending) t (fun res ls _ => Looped t now r res ls) := by
  obtain ⟨c, hs⟩ := h.stored
  unfold finish_run
  have hnondet : Faults t (begun r) → Refines (suspend (begun r) .Nondeterminism) t
      (fun res ls _ => Looped t now r res ls) := fun hf =>
    (suspend_refines hs h.one_open (.nondeterminism h.drivable hf)).weaken
      (fun _ _ _ => suspended_looped rfl rfl)
  by_cases hearly : (decide ((eval_workflow workflow (begun r)).cursor ≠ (begun r).history.length)
      || (eval_workflow workflow (begun r)).pending.isSome || (begun r).open_command) = true
  · rw [if_pos hearly]
    refine hnondet ⟨workflow, .ok output, hw, hres, .inr (.inr (.inr ⟨output, rfl, ?_⟩))⟩
    simp only [Bool.or_eq_true, decide_eq_true_eq] at hearly
    tauto
  rw [if_neg hearly]
  simp only [Bool.or_eq_true, decide_eq_true_eq, not_or, not_not] at hearly
  obtain ⟨⟨hcur, hpend⟩, hopen⟩ := hearly
  by_cases hundone : (begun r).tasks.any (fun task => !task.state.is_done) = true
  · rw [if_pos hundone]
    exact Refines.throw (.refused (by simp) _)
  rw [if_neg hundone]
  refine Refines.reads (all_completed_reads _ t) (fun b hb => ?_) (fun e => .refused (by simp) e)
  rcases hb with ⟨rfl, hall⟩ | ⟨rfl, child, hchild, run, hrun, hst⟩
  swap
  · exact hnondet ⟨workflow, .ok output, hw, hres, .inr (.inr (.inr
      ⟨output, rfl, .inr (.inr (.inr ⟨child, hchild, run, hrun, hst⟩))⟩))⟩
  have heval : eval_workflow workflow (begun r)
      = { result := some (.ok output), cursor := r.history.length, pending := none,
          faulted := false } := by
    cases hev : eval_workflow workflow (begun r) with
    | mk result cursor pending faulted =>
      rw [hev] at hres hfault hcur hpend
      simp only at hres hfault hcur hpend
      rw [hres, hfault, hcur]
      simp only [Option.isSome_iff_ne_none, ne_eq, not_not] at hpend
      rw [hpend]
      rfl
  have hdone : ∀ task ∈ r.tasks, task.state.is_done = true := by
    intro task ht
    simp only [List.any_eq_true, not_exists, not_and, Bool.not_eq_true'] at hundone
    have := hundone (normalize_task task) (List.mem_map_of_mem ht)
    simpa [normalize_task] using this
  simp only [Bool.not_true, Bool.false_eq_true, if_false]
  refine Refines.save hs h.one_open (.finish h.drivable hw heval ?_ hdone hall)
    (Refines.pure ?_) (fun e => .refused (by simp) e)
  · exact Bool.eq_false_iff.mpr hopen
  · exact .over (List.forall_mem_singleton.mpr rfl) ⟨_, List.mem_singleton_self _, rfl⟩
      (by simp) (by simp)

theorem dispatch_ready_refines {i : ℕ} {task : ActivityTask} (h : Holding t now r)
    (hturn : Turn t now (begun r) pending event none r1 children) (hrun : r1.state = .Running)
    (hroom : t.dispatched.entries.length < t.dispatch_limit)
    (hf : find_task r1.tasks (fun task => task.state.is_ready) = some (i, task)) :
    Refines (dispatch_ready (merge_retry_wakeup r1) i task now children) t
      (fun res ls _ => Looped t now r res ls) := by
  obtain ⟨c, hs⟩ := h.stored
  unfold dispatch_ready
  refine Refines.get (fun e _ ht => ?_)
  have hact : e.activities = t.activities := by
    rw [← ht]
    rfl
  have hepoch : e.store.epoch = t.epoch := by
    rw [← ht]
    rfl
  have hpolicy : e.retry_policy = t.retry_policy := by
    rw [← ht]
    rfl
  rw [hact, hepoch, hpolicy]
  by_cases hreg : (task.attempt.name, task.attempt.version) ∈ t.activities
  swap
  · rw [if_pos hreg]
    exact (suspend_refines hs h.one_open (.unimplemented h.drivable hturn hrun)).weaken
      (fun _ _ _ => suspended_looped rfl rfl)
  rw [if_neg (not_not_intro hreg)]
  refine Refines.result (fun _ _ => ?_) (fun e _ => .refused (by simp) e)
  dsimp only
  simp only [merge_retry_wakeup_tasks]
  by_cases hout : out_of_retries
      { task with execution := infer_prior_execution task.attempt task.execution }
      (infer_prior_execution task.attempt task.execution)
      (task.attempt.retry_policy.getD t.retry_policy) now = true
  · rw [if_pos hout]
    refine Refines.save hs h.one_open (.dispatch_exhausted h.drivable hturn hrun hf)
      (Refines.pure ?_) (fun e => .refused (by simp) e)
    exact .over (List.forall_mem_singleton.mpr rfl) ⟨_, List.mem_singleton_self _, rfl⟩
      (by simp) (by simp)
  rw [if_neg hout]
  refine Refines.result (fun task' htask => ?_) (fun e _ => .refused (by simp) e)
  refine Refines.save hs h.one_open (.dispatch h.drivable hturn hrun hroom hf hreg
    (Bool.eq_false_iff.mpr hout) htask) ?_ (fun e => .refused (by simp) e)
  refine Refines.modify (l := .hand_out task'.attempt) .hand_out ?_ (Refines.pure ?_)
  · rintro e1 hw1 ht1
    rw [← ht1]
    exact ⟨rfl, hw1⟩
  · refine ⟨?_, ?_, by simp, fun _ _ => ⟨_, List.mem_cons_self, rfl⟩,
      @Occupancy.handed _ [] _ (by simp)⟩
    · exact List.forall_mem_cons.mpr ⟨rfl, List.forall_mem_singleton.mpr trivial⟩
    · intro a ha
      cases ha
      exact ⟨[], rfl⟩

theorem RunState.drivable_cancellable (h : s.drivable = true) : s.uncancellable = false := by
  cases s <;> first | rfl | cases h

theorem find_task_none {p : ActivityTask → Bool} (h : find_task tasks p = none) :
    tasks.any p = false := by
  unfold find_task at h
  rw [List.any_eq_false]
  cases hi : tasks.findIdx? p with
  | none => simpa using List.findIdx?_eq_none_iff.mp hi
  | some i =>
    rw [hi] at h
    rw [List.findIdx?_eq_some_iff_getElem] at hi
    obtain ⟨hlt, -⟩ := hi
    rw [Option.bind_some, List.getElem?_eq_getElem hlt] at h
    cases h

theorem Evaluates.park {r' : RunRecord} {index : ℕ} {c : Command}
    (h : Evaluates m r index now c value r' children) (parked : List String) :
    Evaluates { m with parked } r index now c value r' children := by
  cases h with
  | spawned => exact .spawned
  | activity_done h1 h2 => exact .activity_done h1 h2
  | activity_later h1 h2 => exact .activity_later h1 h2
  | timer_fired h1 => exact .timer_fired h1
  | timer_later h1 => exact .timer_later h1
  | signal_taken h1 => exact .signal_taken h1
  | signal_later h1 => exact .signal_later h1
  | child h1 h2 => exact .child h1 h2
  | select h1 h2 => exact .select h1 h2
  | continue_too_early h1 h2 h3 h4 => exact .continue_too_early h1 h2 h3 h4
  | continued h1 h2 h3 h4 => exact .continued h1 h2 h3 h4
  | continues h1 h2 h3 h4 h5 => exact .continues h1 h2 h3 h4 h5

theorem Turn.park (h : Turn m now b pending event value r1 children) (parked : List String) :
    Turn { m with parked } now b pending event value r1 children :=
  ⟨h.blocked, h.backing_off, h.room, h.open_event, h.evaluated.park parked⟩

/-- The end of a turn that waits. -/
theorem settle_refines (h : Holding t now r)
    (hturn : Turn t now (begun r) pending event none r1 children)
    (hwrote : wrote_history = true → ¬ Idles t now r)
    (hpend : wrote_history = false → pending = none) :
    Refines (settle (merge_retry_wakeup r1) now children r.wakeup wrote_history) t
      (fun res ls _ => Looped t now r res ls) := by
  obtain ⟨c, hs⟩ := h.stored
  have hid : r1.id = r.id := hturn.frame.1.id
  unfold settle
  simp only [merge_retry_wakeup_state, merge_retry_wakeup_id, merge_retry_wakeup_tasks, hid]
  by_cases hcancel : r1.state = .Cancelled
  · rw [if_pos hcancel]
    refine Refines.bind ((cancel_refines r.id t).weaken (fun res ls t' hc => ?_))
    have hturns : ∀ l ∈ ls, l.calm_turns r.id now := by
      intro l hl
      have := hc.cancels l hl
      cases l <;> trivial
    cases res with
    | error e => exact .refused hturns e
    | ok u =>
      refine Refines.pure ?_
      rw [List.append_nil]
      refine .over hturns ?_ (by simp) (by simp)
      rcases hc.requested rfl with hreq | ⟨r', c', hr', hun⟩
      · exact ⟨_, hreq, rfl⟩
      · exfalso
        rw [hs] at hr'
        cases hr'
        rw [RunState.drivable_cancellable h.drivable] at hun
        cases hun
  rw [if_neg hcancel]
  by_cases hcont : r1.state = .ContinuedAsNew
  · rw [if_pos hcont]
    refine Refines.save hs h.one_open (.stop h.drivable hturn (by simp [hcont]) hcancel) ?_
      (fun e => .refused (by simp) e)
    have hturns : ∀ l ∈ [Label.stop r.id], l.calm_turns r.id now :=
      List.forall_mem_singleton.mpr rfl
    split
    · exact Refines.pure (.over hturns ⟨_, List.mem_singleton_self _, rfl⟩ (by simp) (by simp))
    · exact Refines.throw (.refused hturns _)
  rw [if_neg hcont]
  by_cases hrun : r1.state = .Running
  swap
  · rw [if_pos hrun]
    refine Refines.save hs h.one_open (.stop h.drivable hturn hrun hcancel) (Refines.pure ?_)
      (fun e => .refused (by simp) e)
    exact .over (List.forall_mem_singleton.mpr rfl) ⟨_, List.mem_singleton_self _, rfl⟩
      (by simp) (by simp)
  rw [if_neg (not_not_intro hrun)]
  refine Refines.get (fun e hw ht => ?_)
  subst ht
  -- what the evaluation found ready is what an idle drive would have found
  have hsame : Idles e.machine now r → pending = none ∧ children = []
      ∧ r1.tasks.any (fun task => task.state.is_ready) = false
      ∧ (merge_retry_wakeup r1).wakeup = r.wakeup := by
    rintro ⟨event', r1', hturn', -, hready, hwake⟩
    obtain ⟨hp, -, rfl, hch⟩ := hturn.functional hturn'
    exact ⟨hp, hch, hready, hwake⟩
  by_cases hfull : (r1.tasks.any (fun task => task.state.is_ready)
      && decide (e.dispatched.entries.length ≥ e.dispatch_limit)) = true
  · rw [if_pos hfull]
    simp only [Bool.and_eq_true, decide_eq_true_eq] at hfull
    obtain ⟨hready, hfull⟩ := hfull
    split
    · exact Refines.throw (.refused (by simp) _)
    have hpark : ∀ l ∈ [Label.park r.id], l.calm_turns r.id now :=
      List.forall_mem_singleton.mpr rfl
    refine Refines.set (l := .park r.id) (.park ⟨_, hs⟩ hfull) hw ?_
    refine Refines.save hs h.one_open (.hold h.drivable (hturn.park _) hrun hready hfull ?_)
      (Refines.pure ?_) (fun e => .refused hpark e)
    · exact List.mem_insert_self
    · refine ⟨List.forall_mem_cons.mpr ⟨rfl, List.forall_mem_singleton.mpr ⟨rfl, rfl⟩⟩, by simp,
        fun _ => .inr ⟨[.park r.id], _, rfl, .inr rfl, fun hidle => ?_, _, _, _, _, _, hturn⟩,
        fun _ _ => ⟨.hold r.id now, by simp, rfl⟩, .calm ?_⟩
      · rw [(hsame hidle).2.2.1] at hready
        cases hready
      · exact List.forall_mem_cons.mpr ⟨trivial, List.forall_mem_singleton.mpr trivial⟩
  rw [if_neg hfull]
  cases hf : find_task r1.tasks (fun task => task.state.is_ready) with
  | some found =>
    obtain ⟨i, task⟩ := found
    obtain ⟨hget, hp, -⟩ := find_task_some hf
    refine dispatch_ready_refines h hturn hrun ?_ hf
    simp only [Bool.and_eq_true, decide_eq_true_eq, not_and, not_le] at hfull
    exact hfull (List.any_eq_true.mpr ⟨task, List.mem_of_getElem? hget, hp⟩)
  | none =>
    have hready := find_task_none hf
    dsimp only
    by_cases hsave : (wrote_history || !children.isEmpty
        || decide ((merge_retry_wakeup r1).wakeup ≠ r.wakeup)) = true
    · rw [if_pos hsave]
      refine Refines.save hs h.one_open (.wait h.drivable hturn hrun hready)
        (Refines.pure ?_) (fun e => .refused (by simp) e)
      refine ⟨List.forall_mem_singleton.mpr ⟨rfl, rfl⟩, by simp,
        fun _ => .inr ⟨[], _, rfl, .inl rfl, fun hidle => ?_, _, _, _, _, _, hturn⟩,
        fun _ _ => ⟨_, List.mem_singleton_self _, rfl⟩,
        .calm (List.forall_mem_singleton.mpr trivial)⟩
      obtain ⟨-, hch, -, hwake⟩ := hsame hidle
      have hno : wrote_history = false := by
        by_contra hw'
        exact hwrote (by simpa using hw') hidle
      simp [hno, hch, hwake] at hsave
    · rw [if_neg hsave]
      simp only [Bool.or_eq_true, Bool.not_eq_true', decide_eq_true_eq, not_or, not_not,
        Bool.not_eq_true, Bool.not_eq_false, List.isEmpty_iff] at hsave
      obtain ⟨⟨hno, hch⟩, hwake⟩ := hsave
      have hpn := hpend hno
      subst hpn hch
      have hidle : Idles e.machine now r := ⟨event, r1, hturn, hrun, hready, hwake⟩
      intro e1 hw1 ht1
      rw [← ht1] at hs hidle ⊢
      exact ⟨[.idle r.id now], .single (.idle hs h.drivable hidle), hw1,
        List.forall_mem_singleton.mpr ⟨rfl, rfl⟩, by simp, fun _ => .inl ⟨rfl, hidle⟩,
        fun _ _ => ⟨_, List.mem_singleton_self _, rfl⟩,
        .calm (List.forall_mem_singleton.mpr trivial)⟩

theorem Looped.after_resolve {t' : Machine} {r' : RunRecord} (h : Looped t' now r' res ls)
    (hid : r'.id = r.id) (hidle : ¬ Idles t now r) (hturns : Turns t now r)
    (hidle' : ¬ Idles t' now r') : Looped t now r res (.resolve r.id :: ls) := by
  obtain ⟨hlabels, hact, hwait, -, hocc⟩ := h
  rw [hid] at hlabels hact hwait hocc
  refine ⟨List.forall_mem_cons.mpr ⟨rfl, hlabels⟩, fun a ha => ?_, fun hres => ?_,
    fun _ _ => ⟨_, List.mem_cons_self, rfl⟩, hocc.after trivial⟩
  · obtain ⟨ls0, rfl⟩ := hact a ha
    exact ⟨.resolve r.id :: ls0, rfl⟩
  · rcases hwait hres with ⟨-, hi⟩ | ⟨ls0, l, rfl, hl, -⟩
    · exact absurd hi hidle'
    · exact .inr ⟨.resolve r.id :: ls0, l, rfl, hl, hidle, hturns⟩

theorem begun_eq (hn : r.tasks.map normalize_task = r.tasks) (hs : r.state = .Running)
    (hf : r.failure_reason = none) : begun r = r := by
  unfold begun RunRecord.normalized
  cases r
  simp only at hn hs hf
  simp only [hn, hs, hf]

theorem normal_iff :
    tasks.map normalize_task = tasks ↔ ∀ task ∈ tasks, normalize_task task = task := by
  induction tasks with
  | nil => simp
  | cons task tasks ih => simp [ih]

theorem begun_begun (r : RunRecord) : (begun r).tasks.map normalize_task = (begun r).tasks := by
  show (r.tasks.map normalize_task).map normalize_task = r.tasks.map normalize_task
  simp [List.map_map, Function.comp_def]

theorem Turn.tasks_kept (h : Turn m now (begun r) pending event value r1 children) :
    r1.tasks.map normalize_task = r1.tasks ∧ Early now r1.tasks := by
  have hearly : Early now (begun r).tasks := early_iff.mpr h.backing_off
  rcases h.evaluated.tasks with ht | ⟨name, version, input, policy, -, ht⟩
  · rw [ht]
    exact ⟨begun_begun r, hearly⟩
  · rw [ht, List.map_append]
    refine ⟨?_, ?_⟩
    · show (begun r).tasks.map normalize_task ++ _ = (begun r).tasks ++ _
      rw [begun_begun]
      rfl
    · intro task htask w hw
      rcases List.mem_append.mp htask with h1 | h1
      · exact hearly task h1 w hw
      · rw [List.mem_singleton.mp h1] at hw
        cases hw

theorem Resolved.open_command (h : Resolved r.history) : r.open_command = false := by
  unfold RunRecord.open_command
  rw [List.any_eq_false]
  intro e he
  have := h e he
  cases hv : e.value with
  | none => rw [hv] at this; cases this
  | some v => simp

theorem Holding.after_resolve {run : RunRecord} {value : CommandValue} (h : Holding t now r)
    (hturn : Turn t now (begun r) pending event (some value) r1 children)
    (hrun : run = { merge_retry_wakeup r1 with
      history := r1.history.set (seal_end (opened (begun r) pending).history)
        { event with value := some value }
      wakeup := some 0 })
    (hf : Fresh (Function.update t.runs run.id (some ⟨run.saved, run.saved.wakeup⟩)) children) :
    Holding (t.commit run children) now run.saved ∧ begun run.saved = run.saved
      ∧ run.saved.open_command = false := by
  obtain ⟨hnormal, hearly⟩ := hturn.tasks_kept
  obtain ⟨hst, hreason⟩ := hturn.evaluated.value_state rfl
  have htasks : run.saved.tasks = r1.tasks := by
    rw [hrun]
    exact merge_retry_wakeup_tasks r1
  have hstate : run.saved.state = .Running := by
    rw [hrun]
    exact (merge_retry_wakeup_state r1).trans hst
  have hnone : run.saved.failure_reason = none := by
    rw [hrun]
    exact (merge_retry_wakeup_reason r1).trans hreason
  have hresolved : Resolved run.saved.history := by
    rw [hrun]
    show Resolved (r1.history.set _ _)
    rw [hturn.frame.2.1]
    exact (hturn.blocked.one_open (b := begun r) h.one_open).resolve value hturn.open_event
  have hbegun : begun run.saved = run.saved :=
    begun_eq (by rw [htasks]; exact hnormal) hstate hnone
  refine ⟨⟨⟨_, Machine.commit_self hf⟩, .of_resolved hresolved, ?_, ?_⟩, hbegun,
    hresolved.open_command⟩
  · rw [hstate]
    rfl
  · rw [hbegun, htasks]
    exact hearly

section Turn

variable (h : Holding t now r)
  (hw : t.workflows.lookup (r.workflow, r.version) = some workflow)
  (hwrote : wrote_history = true → r.open_command = false)
  (hnext : ∀ t' r' wrote, Holding t' now r' → t'.workflows = t.workflows →
    r'.workflow = r.workflow → r'.version = r.version → r'.open_command = false →
    Refines (next (begun r') wrote) t' (fun res ls _ => Looped t' now r' res ls))

include h hw hwrote hnext in
theorem blocked_turn_refines {cursor : ℕ} (heval : eval_workflow workflow (begun r)
      = { result := some (.error .Blocked), cursor, pending, faulted := false })
    (hblocked : pending.isSome = true ∨ r.open_command = true) :
    Refines (blocked_turn (begun r) now pending wrote_history next) t
      (fun res ls _ => Looped t now r res ls) := by
  obtain ⟨c, hs⟩ := h.stored
  have hb : Blocked t (begun r) pending := ⟨workflow, cursor, hw, heval, hblocked⟩
  unfold blocked_turn
  by_cases hfull : pending.isSome = true ∧ (begun r).history.length ≥ 1024
  · rw [if_pos hfull]
    exact Refines.throw (.refused (by simp) _)
  rw [if_neg hfull]
  dsimp only
  cases hev : (opened (begun r) pending).history[seal_end (opened (begun r) pending).history]? with
  | none => exact Refines.throw (.refused (by simp) _)
  | some event =>
    refine Refines.reads (evaluate_reads _ _ event.command now t) (fun out hout => ?_)
      (fun e => .refused (by simp) e)
    obtain ⟨value, r1, children⟩ := out
    have hturn : Turn t now (begun r) pending event value r1 children :=
      ⟨hb, early_iff.mp h.early, fun hp => by
        by_contra hlen
        exact hfull ⟨hp, not_lt.mp hlen⟩, hev, hout⟩
    dsimp only
    cases value with
    | none =>
      refine settle_refines h hturn (fun hwr => ?_) (fun hwr => ?_)
      · rw [Bool.or_eq_true] at hwr
        rcases hwr with hwr | hwr
        · exact not_idles_of_resolved (hwrote hwr)
        · rintro ⟨event', r1', hturn', -⟩
          rw [(hturn.functional hturn').1] at hwr
          cases hwr
      · rw [Bool.or_eq_false_iff] at hwr
        simpa using hwr.2
    | some value =>
      simp only [merge_retry_wakeup_history]
      have hchange := Change.resolve h.drivable hturn
      refine Refines.save_new hs h.one_open hchange (fun hf => ?_) (fun e => .refused (by simp) e)
      generalize hrun : ({ merge_retry_wakeup r1 with
        history := r1.history.set (seal_end (opened (begun r) pending).history)
          { event with value := some value }
        wakeup := some 0 } : RunRecord) = run at hchange hf
      obtain ⟨hhold, hbegun, hopen⟩ := h.after_resolve hturn hrun.symm hf
      have hframe := hchange.frame
      have hloop := hnext (t.commit run children) run.saved (wrote_history || pending.isSome) hhold
        rfl hframe.workflow hframe.version hopen
      rw [hbegun] at hloop
      have hidle : ¬ Idles t now r := by
        rintro ⟨event', r1', hturn', -⟩
        have := (hturn.functional hturn').2.1
        cases this
      exact hloop.weaken (fun _ _ _ hl =>
        hl.after_resolve hframe.id hidle ⟨_, _, _, _, _, hturn⟩ (not_idles_of_resolved hopen))

theorem abort_refines (h : Holding t now r) :
    Refines (reject_run r.id .InvalidCommand) t (fun res ls _ => Commits (.abort r.id) res ls) := by
  obtain ⟨c, hs⟩ := h.stored
  refine reject_run_refines (fun r' c' hr' hid _ => ?_)
  rw [hid, hs] at hr'
  cases hr'
  exact .abort h.drivable

theorem release_all_refines (attempts : List ActivityAttempt) (id : String)
    (hrun : ∀ a ∈ attempts, a.run_id = id) (t : Machine) :
    Refines (release_all attempts) t (fun _ ls _ => ∀ l ∈ ls, l.frees id) := by
  induction attempts generalizing t with
  | nil => exact Refines.pure (by simp)
  | cons a attempts ih =>
    obtain ⟨ha, hrest⟩ := List.forall_mem_cons.mp hrun
    unfold release_all
    refine Refines.bind ((release_dispatch_refines a t).weaken (fun res ls t' hrel => ?_))
    have hfrees : ∀ l ∈ ls, l.frees id := by
      intro l hl
      have hlabel := hrel.1 l hl
      cases l with
      | release b =>
        have hb : b = a := hlabel
        rw [hb]
        exact ha
      | wake | unpark => trivial
      | _ => exact hlabel.elim
    cases res with
    | error e => exact hfrees
    | ok u => exact (ih hrest t').weaken (fun _ _ _ h => List.forall_mem_append.mpr ⟨hfrees, h⟩)

theorem Looped.abort (h : ∀ l ∈ ls, l.frees r.id) (hw : res ≠ .ok .Waiting)
    (ha : ∀ a, res ≠ .ok (.Activity a)) : Looped t now r res (.abort r.id :: ls) := by
  refine ⟨List.forall_mem_cons.mpr ⟨rfl, fun l hl => ?_⟩, fun a he => absurd he (ha a),
    fun he => absurd he hw, fun _ _ => ⟨_, List.mem_cons_self, rfl⟩,
    @Occupancy.aborted _ [] _ (by simp) h⟩
  have hfrees := h l hl
  cases l with
  | release | wake | unpark => trivial
  | _ => exact hfrees.elim

theorem malformed_refines (h : Holding t now r) :
    Refines (reject_malformed_run r.id >>= fun _ => pure (.Suspended .Failed)) t
      (fun res ls _ => Looped t now r res ls) := by
  unfold reject_malformed_run
  simp only [bind_assoc]
  refine Refines.bind ((abort_refines h).weaken (fun res ls t' hc => ?_))
  rcases hc with ⟨⟨u, rfl⟩, rfl⟩ | ⟨⟨e, rfl⟩, rfl⟩
  swap
  · exact .refused (by simp) e
  refine Refines.load (fun _ _ _ _ _ => ?_) (fun e => .abort (by simp) (by simp) (by simp))
  refine Refines.get (fun e _ _ => ?_)
  refine Refines.bind ((release_all_refines _ r.id (fun a ha => ?_) t').weaken
    (fun res ls t'' hls => ?_))
  · have hmine := (List.mem_filter.mp ha).2
    rw [Bool.and_eq_true, decide_eq_true_eq] at hmine
    exact hmine.1
  cases res with
  | error e => exact .abort hls (by simp) (by simp)
  | ok u =>
    refine Refines.pure ?_
    rw [List.append_nil]
    exact .abort hls (by simp) (by simp)

/-- A workflow that blocks has its command: a new one, or the one the history leaves open. -/
theorem eval_blocked (hres : (eval_workflow workflow (begun r)).result = some (.error .Blocked))
    (hclean : (eval_workflow workflow (begun r)).faulted = false)
    (hopen : ¬ ((eval_workflow workflow (begun r)).pending.isNone && !(begun r).open_command)
      = true) :
    ∃ cursor pending, eval_workflow workflow (begun r)
        = { result := some (.error .Blocked), cursor, pending, faulted := false }
      ∧ (pending.isSome = true ∨ r.open_command = true) := by
  refine ⟨_, (eval_workflow workflow (begun r)).pending, by rw [← hres, ← hclean], ?_⟩
  by_contra hno
  rw [not_or] at hno
  refine hopen (Bool.and_eq_true_iff.mpr ⟨by simpa using hno.1, ?_⟩)
  rw [show (begun r).open_command = r.open_command from rfl]
  simpa using hno.2

include h hw hwrote hnext in
theorem drive_turn_refines :
    Refines (drive_turn workflow (begun r) now wrote_history next) t
      (fun res ls _ => Looped t now r res ls) := by
  obtain ⟨c, hs⟩ := h.stored
  unfold drive_turn
  dsimp only
  have hnondet : Faults t (begun r) → Refines (suspend (begun r) .Nondeterminism) t
      (fun res ls _ => Looped t now r res ls) := fun hf =>
    (suspend_refines hs h.one_open (.nondeterminism h.drivable hf)).weaken
      (fun _ _ _ => suspended_looped rfl rfl)
  cases hres : (eval_workflow workflow (begun r)).result with
  | none =>
    refine Refines.bind ((abort_refines h).weaken (fun res ls t' hc => ?_))
    rcases hc with ⟨⟨u, rfl⟩, rfl⟩ | ⟨⟨e, rfl⟩, rfl⟩
    · exact Refines.pure (.over (List.forall_mem_singleton.mpr rfl)
        ⟨_, List.mem_singleton_self _, rfl⟩ (by simp) (by simp))
    · exact .refused (by simp) e
  | some result =>
    dsimp only
    by_cases hfault : (eval_workflow workflow (begun r)).faulted = true
    · rw [if_pos hfault]
      exact hnondet ⟨workflow, result, hw, hres, .inl hfault⟩
    rw [if_neg hfault]
    have hclean := Bool.eq_false_iff.mpr hfault
    cases result with
    | ok output => exact finish_run_refines h hw hres hclean
    | error err =>
      cases err with
      | Nondeterminism => exact hnondet ⟨workflow, _, hw, hres, .inr (.inl rfl)⟩
      | Invalid => exact hnondet ⟨workflow, _, hw, hres, .inr (.inr (.inl rfl))⟩
      | Blocked =>
        dsimp only
        by_cases hmal : ((eval_workflow workflow (begun r)).pending.isNone
            && !(begun r).open_command) = true
        · rw [if_pos hmal]
          exact malformed_refines h
        rw [if_neg hmal]
        obtain ⟨cursor, pending, heval, hblocked⟩ := eval_blocked hres hclean hmal
        rw [heval]
        exact blocked_turn_refines h hw hwrote hnext heval hblocked

end Turn

/-- **The loop of a drive.** The induction is on the turns left; the record in
memory at the start of each is the stored one with its state reset. -/
theorem drive_loop_refines (turns : ℕ) (h : Holding t now r)
    (hw : t.workflows.lookup (r.workflow, r.version) = some workflow)
    (hwrote : wrote_history = true → r.open_command = false) :
    Refines (drive_loop workflow now turns (begun r) wrote_history) t
      (fun res ls _ => Looped t now r res ls) := by
  induction turns generalizing t r wrote_history with
  | zero =>
    obtain ⟨c, hs⟩ := h.stored
    refine Refines.save hs h.one_open (.progressed h.drivable) (Refines.pure ?_)
      (fun e => .refused (by simp) e)
    exact .over (List.forall_mem_singleton.mpr rfl) ⟨_, List.mem_singleton_self _, rfl⟩
      (by simp) (by simp)
  | succ turns ih =>
    refine drive_turn_refines h hw hwrote ?_
    intro t' r' wrote h' hworkflows hname hversion hopen
    refine ih h' ?_ (fun _ => hopen)
    rw [hworkflows, hname, hversion]
    exact hw

/-! ## A whole drive -/

/-- The stored run `r` is where a drive at `now` stops without a commit. -/
def Idle (t : Machine) (now : ℤ) (r : RunRecord) : Prop :=
  r.tasks.any (fun task => task.interrupted t.epoch r.retry_exhausted) = false
    ∧ (∀ w, retry_wakeup (begun r) = some w → r.wakeup = some w) ∧ Idles t now r

/-- A drive of the stored run `r` at `now` that waits had something to do first: a
task to take back or to retry, a retry time to store, or a command to evaluate. -/
def Busy (t : Machine) (now : ℤ) (r : RunRecord) : Prop :=
  r.tasks.any (fun task => task.interrupted t.epoch r.retry_exhausted) = true
    ∨ ¬ Early now (begun r).tasks ∨ (∃ w, retry_wakeup (begun r) = some w ∧ r.wakeup ≠ some w)
    ∨ Turns t now r

/-- What a drive of the run `id` does. -/
structure Drove (t : Machine) (id : String) (now : ℤ) (res : Except Error DriveOutcome)
    (ls : List Label) : Prop where
  drives : ∀ l ∈ ls, l.drives id now
  activity : ∀ a, res = .ok (.Activity a) → ∃ ls0, ls = ls0 ++ [.dispatch id a, .hand_out a]
  waiting : res = .ok .Waiting → ∃ r c, t.runs id = some ⟨r, c⟩ ∧
    ((ls = [.idle id now] ∧ Idle t now r)
      ∨ (¬ Idle t now r ∧ Busy t now r
        ∧ ((ls = [.retry_wait id, .idle id now]
            ∧ r.tasks.any (fun task => task.state.is_ready) = false)
          ∨ ∃ ls0 l, ls = ls0 ++ [l] ∧ (l = .wait id now ∨ l = .hold id now))))
  settled : .retry_wait id ∈ ls →
    ∃ ls0 ls1, ls = ls0 ++ .retry_wait id :: ls1 ∧ (∀ l ∈ ls0, l = .recover id)
      ∧ (ls0 = [] → ∀ r c, t.runs id = some ⟨r, c⟩ → Early now (begun r).tasks)
      ∧ .retry_wait id ∉ ls1 ∧ ((∃ o, res = .ok o) → ∃ l ∈ ls1, l.settles id)
  occupancy : Occupancy id ls

theorem Drove.over (h : ∀ l ∈ ls, l.drives id now ∧ l.calm) (hw : res ≠ .ok .Waiting)
    (ha : ∀ a, res ≠ .ok (.Activity a)) (hr : .retry_wait id ∉ ls) : Drove t id now res ls :=
  ⟨fun l hl => (h l hl).1, fun a he => absurd he (ha a), fun he => absurd he hw,
    fun hm => absurd hm hr, .calm (fun l hl => (h l hl).2)⟩

theorem Drove.refused (e : Error) :
    Drove t id now (.error e) [] := .over (by simp) (by simp) (by simp) (by simp)

theorem Label.drives_of_turns (h : l.turns id now) : l.drives id now := by
  cases l <;> trivial

theorem Looped.no_retry_wait (h : Looped t now r res ls) :
    .retry_wait r.id ∉ ls := fun hmem => h.turns _ hmem

theorem Idles.no_ready (h : Idles t now r) :
    r.tasks.any (fun task => task.state.is_ready) = false := by
  obtain ⟨event, r1, hturn, -, hready, -⟩ := h
  rw [List.any_eq_false] at hready ⊢
  intro task ht
  have hmem : normalize_task task ∈ r1.tasks := by
    have hb : normalize_task task ∈ (begun r).tasks := List.mem_map_of_mem ht
    rcases hturn.evaluated.tasks with h1 | ⟨_, _, _, _, -, h1⟩
    · rw [h1]
      exact hb
    · rw [h1]
      exact List.mem_append_left _ hb
  exact hready (normalize_task task) hmem

theorem Idles.early (h : Idles t now r) : Early now (begun r).tasks := by
  obtain ⟨event, r1, hturn, -⟩ := h
  exact early_iff.mpr hturn.backing_off

/-- The stored run after the retries at the start of a drive, and the machine then: tasks
that are due are ready, or the earliest retry is stored. None if a task is out of time. -/
def retried (t : Machine) (now : ℤ) (r : RunRecord) : Option (Machine × RunRecord) :=
  match advance_tasks now (begun r).tasks with
  | .ok (tasks, changed, exhausted) =>
    if exhausted then none
    else if changed then
      let run := { begun r with tasks, wakeup := some 0 }
      some (t.commit run [], run.saved)
    else
      match retry_wakeup (begun r) with
      | some w =>
        if r.wakeup ≠ some w then
          let run := { begun r with tasks, wakeup := some w }
          some (t.commit run [], run.saved)
        else some (t, r)
      | none => some (t, r)
  | .error _ => none

/-- What `advance_retries` leaves for the loop. -/
inductive Advanced (t : Machine) (now : ℤ) (r : RunRecord) :
    Except Error (RunRecord × Option DriveOutcome) → List Label → Machine → Prop where
  | failed (e : Error) : Advanced t now r (.error e) [] t
  | exhausted {t' : Machine} {r' : RunRecord} (s : RunState) : retried t now r = none →
      Advanced t now r (.ok (r', some (.Suspended s))) [.retry_exhausted r.id] t'
  | ready {t' : Machine} {r' : RunRecord} :
      retried t now r = some (t', r') → ¬ Early now (begun r).tasks → Holding t' now r' →
        SameRun r.saved r' →
      t'.workflows = t.workflows → r'.tasks.any (fun task => task.state.is_ready) = true →
      Advanced t now r (.ok (begun r', none)) [.retry_ready r.id] t'
  | moved {t' : Machine} {r' : RunRecord} {w : ℤ} :
      retried t now r = some (t', r') → retry_wakeup (begun r) = some w → r.wakeup ≠ some w →
      Holding t' now r' →
      SameRun r.saved r' → t'.workflows = t.workflows → r'.tasks = (begun r).tasks →
      Advanced t now r (.ok (begun r', none)) [.retry_wait r.id] t'
  | kept : retried t now r = some (t, r) → Holding t now r →
    (∀ w, retry_wakeup (begun r) = some w → r.wakeup = some w) →
      Advanced t now r (.ok (begun r, none)) [] t

/-- After the retries the loop starts with the run they leave, or an effect is out of time. -/
theorem Advanced.retried {t' : Machine} {r' : RunRecord} {o : Option DriveOutcome}
    (h : Advanced t now r (.ok (r', o)) ls t') :
    (o = none ∧ ∃ r0, retried t now r = some (t', r0) ∧ r' = begun r0 ∧ Holding t' now r0)
      ∨ ((∃ s, o = some (.Suspended s)) ∧ retried t now r = none) := by
  cases h with
  | exhausted s hnone => exact .inr ⟨⟨s, rfl⟩, hnone⟩
  | ready hr _ hhold => exact .inl ⟨rfl, _, hr, rfl, hhold⟩
  | moved hr _ _ hhold => exact .inl ⟨rfl, _, hr, rfl, hhold⟩
  | kept hr hhold => exact .inl ⟨rfl, _, hr, rfl, hhold⟩

theorem advanced_holding (ho : OneOpen r.history) (hn : tasks.map normalize_task = tasks)
    (hearly : Early now tasks) (w : Option ℤ) :
    Holding (t.commit { begun r with tasks, wakeup := w } []) now
        ({ begun r with tasks, wakeup := w } : RunRecord).saved
      ∧ begun ({ begun r with tasks, wakeup := w } : RunRecord).saved
        = ({ begun r with tasks, wakeup := w } : RunRecord).saved := by
  have hb : begun ({ begun r with tasks, wakeup := w } : RunRecord).saved
      = ({ begun r with tasks, wakeup := w } : RunRecord).saved := begun_eq hn rfl rfl
  refine ⟨⟨⟨_, Machine.commit_self trivial⟩, ho, rfl, ?_⟩, hb⟩
  rw [hb]
  exact hearly

theorem advance_retries_refines (hs : t.runs r.id = some ⟨r, c⟩) (ho : OneOpen r.history)
    (hd : r.state.drivable = true) :
    Refines (advance_retries (begun r) now) t (Advanced t now r) := by
  unfold advance_retries
  refine Refines.result (fun out hout => ?_) (fun e _ => .failed e)
  obtain ⟨tasks, changed, exhausted⟩ := out
  obtain ⟨hearly, hsame, hlate, hready, hnormal⟩ := advance_tasks_ok hout
  have hn : tasks.map normalize_task = tasks :=
    normal_iff.mpr (hnormal (normal_iff.mp (begun_begun r)))
  dsimp only
  cases exhausted with
  | true =>
    simp only [if_true]
    refine Refines.save hs ho (.retry_exhausted hd hout) (Refines.pure ?_) .failed
    refine .exhausted _ ?_
    unfold Durable.retried
    rw [hout]
    rfl
  | false =>
    simp only [Bool.false_eq_true, if_false]
    have hhold := @advanced_holding t now r tasks ho hn (hearly rfl)
    cases changed with
    | true =>
      simp only [if_true]
      refine Refines.save hs ho (.retry_ready hd hout) (Refines.pure ?_) .failed
      obtain ⟨h1, h2⟩ := hhold (some 0)
      rw [← h2]
      refine .ready ?_ (hlate (.inl rfl)) h1 ⟨rfl, rfl, rfl, rfl, rfl, rfl⟩ rfl (hready rfl)
      unfold Durable.retried
      rw [hout]
      rfl
    | false =>
      simp only [Bool.false_eq_true, if_false]
      have htasks := hsame rfl rfl
      subst htasks
      have hkeep : Holding t now r := ⟨⟨c, hs⟩, ho, hd, hearly rfl⟩
      cases hw : retry_wakeup (begun r) with
      | none =>
        refine Refines.pure (.kept ?_ hkeep ?_)
        · unfold Durable.retried
          rw [hout, hw]
          rfl
        · rw [hw]
          simp
      | some w =>
        dsimp only
        by_cases hne : (begun r).wakeup ≠ some w
        · rw [if_pos hne]
          refine Refines.save hs ho (.retry_wait hd hout hw hne) (Refines.pure ?_) .failed
          obtain ⟨h1, h2⟩ := hhold (some w)
          rw [← h2]
          refine .moved ?_ hw hne h1 ⟨rfl, rfl, rfl, rfl, rfl, rfl⟩ rfl rfl
          unfold Durable.retried
          rw [hout, hw]
          exact if_pos hne
        · rw [if_neg hne]
          refine Refines.pure (.kept ?_ hkeep ?_)
          · unfold Durable.retried
            rw [hout, hw]
            exact if_neg hne
          · rw [hw]
            rintro w' ⟨⟩
            exact not_not.mp hne

/-- A drive of a run that may go on. -/
theorem drive_active_refines (resolver : PayloadResolver) (hs : t.runs r.id = some ⟨r, c⟩)
    (ho : OneOpen r.history) (hd : r.state.drivable = true)
    (hq : r.tasks.any (fun task => task.interrupted t.epoch r.retry_exhausted) = false) :
    Refines (drive_active r.normalized now resolver) t
      (fun res ls _ => Drove t r.id now res ls) := by
  unfold drive_active
  have hsuspend : ∀ s, s = .NeedsInput ∨ s = .NeedsImplementation →
      Refines (suspend r.normalized s) t (fun res ls _ => Drove t r.id now res ls) := by
    intro s hst
    refine (suspend_refines hs ho (.suspend hd hst)).weaken (fun res ls _ h => ?_)
    rcases h with ⟨rfl, rfl⟩ | ⟨⟨e, rfl⟩, rfl⟩
    · exact .over (List.forall_mem_singleton.mpr ⟨rfl, trivial⟩) (by simp) (by simp) (by simp)
    · exact .refused e
  refine Refines.get (fun e _ ht => ?_)
  have hwf : e.workflows = t.workflows := by
    rw [← ht]
    rfl
  rw [hwf]
  cases hw : t.workflows.lookup (r.normalized.workflow, r.normalized.version) with
  | none => exact hsuspend _ (.inr rfl)
  | some workflow =>
    dsimp only
    refine Refines.result (fun gone _ => ?_) (fun e _ => .refused e)
    cases gone with
    | true => exact hsuspend _ (.inl rfl)
    | false =>
      simp only [Bool.false_eq_true, if_false]
      refine Refines.result (fun gone _ => ?_) (fun e _ => .refused e)
      cases gone with
      | true => exact hsuspend _ (.inl rfl)
      | false =>
        simp only [Bool.false_eq_true, if_false]
        refine Refines.bind ((advance_retries_refines hs ho hd).weaken (fun res ls t' ha => ?_))
        have hlookup : ∀ r' : RunRecord, SameRun r.saved r' → t'.workflows = t.workflows →
            t'.workflows.lookup (r'.workflow, r'.version) = some workflow := by
          intro r' hsame hwf'
          rw [hwf', hsame.workflow, hsame.version]
          exact hw
        cases ha with
        | failed e => exact .refused e
        | exhausted s _ =>
          exact Refines.pure (.over (List.forall_mem_singleton.mpr ⟨rfl, trivial⟩) (by simp)
            (by simp) (by simp))
        | @ready _ r' _ hlate hhold hsame hwf' hready =>
          refine (drive_loop_refines 128 hhold (hlookup r' hsame hwf') (by simp)).weaken
            (fun res ls _ hl => ?_)
          have hid : r'.id = r.id := hsame.id
          have hno : ¬ Idle t now r := fun hi => hlate hi.2.2.early
          have hloop := hl.no_retry_wait
          obtain ⟨hturns, hact, hwait, -, hocc⟩ := hl
          rw [hid] at hturns hact hwait hloop hocc
          refine ⟨List.forall_mem_cons.mpr ⟨rfl, fun l hl =>
            Label.drives_of_turns (hturns l hl)⟩, fun a ha => ?_, fun hres => ⟨r, c, hs, ?_⟩, ?_,
            hocc.after trivial⟩
          · obtain ⟨ls0, rfl⟩ := hact a ha
            exact ⟨.retry_ready r.id :: ls0, rfl⟩
          · rcases hwait hres with ⟨-, hi⟩ | ⟨ls0, l, rfl, hl, -⟩
            · rw [hi.no_ready] at hready
              cases hready
            · exact .inr ⟨hno, .inr (.inl hlate), .inr ⟨.retry_ready r.id :: ls0, l, rfl, hl⟩⟩
          · intro hmem
            rcases List.mem_cons.mp hmem with hf | hf
            · cases hf
            · exact absurd hf hloop
        | @moved _ r' w _ hw' hne hhold hsame hwf' htasks =>
          refine (drive_loop_refines 128 hhold (hlookup r' hsame hwf') (by simp)).weaken
            (fun res ls _ hl => ?_)
          have hid : r'.id = r.id := hsame.id
          have hno : ¬ Idle t now r := fun hi => hne (hi.2.1 w hw')
          have hloop := hl.no_retry_wait
          obtain ⟨hturns, hact, hwait, hset, hocc⟩ := hl
          rw [hid] at hturns hact hwait hloop hset hocc
          refine ⟨List.forall_mem_cons.mpr ⟨rfl, fun l hl =>
            Label.drives_of_turns (hturns l hl)⟩, fun a ha => ?_, fun hres => ⟨r, c, hs, ?_⟩,
            fun _ => ⟨[], ls, rfl, by simp, fun _ r0 c0 hr0 => ?_, hloop,
              fun ⟨o, hok⟩ => hset o hok⟩, hocc.after trivial⟩
          · obtain ⟨ls0, rfl⟩ := hact a ha
            exact ⟨.retry_wait r.id :: ls0, rfl⟩
          · have hbusy : Busy t now r := .inr (.inr (.inl ⟨w, hw', hne⟩))
            rcases hwait hres with ⟨rfl, hi⟩ | ⟨ls0, l, rfl, hl, -⟩
            · refine .inr ⟨hno, hbusy, .inl ⟨rfl, ?_⟩⟩
              have hnr := hi.no_ready
              rw [htasks] at hnr
              rw [List.any_eq_false] at hnr ⊢
              exact fun task ht => hnr (normalize_task task) (List.mem_map_of_mem ht)
            · exact .inr ⟨hno, hbusy, .inr ⟨.retry_wait r.id :: ls0, l, rfl, hl⟩⟩
          · rw [hs] at hr0
            cases hr0
            have hearly := hhold.early
            unfold begun RunRecord.normalized at hearly
            simp only [htasks, begun_begun] at hearly
            exact hearly
        | kept _ hhold hsettled =>
          refine (drive_loop_refines 128 hhold hw (by simp)).weaken (fun res ls _ hl => ?_)
          refine ⟨fun l hmem => Label.drives_of_turns (hl.turns l hmem), hl.activity,
            fun hres => ⟨r, c, hs, ?_⟩, fun hmem => absurd hmem hl.no_retry_wait, hl.occupancy⟩
          rcases hl.waiting hres with ⟨hls, hi⟩ | ⟨ls0, l, hls, hl', hi, hturns⟩
          · exact .inl ⟨hls, hq, hsettled, hi⟩
          · exact .inr ⟨fun hid => hi hid.2.2, .inr (.inr (.inr hturns)), .inr ⟨ls0, l, hls, hl'⟩⟩

theorem drivable_not_exhausted (h : r.state.drivable = true) : r.retry_exhausted = false := by
  unfold RunRecord.retry_exhausted
  have hne : r.state ≠ .Failed := by
    intro hf
    rw [hf] at h
    cases h
  simp [hne]

theorem drivable_recoverable (h : r.state.drivable = true) : r.unrecoverable = false := by
  unfold RunRecord.unrecoverable
  cases hst : r.state <;> rw [hst] at h <;> first | cases h; done | rfl

theorem recover_task_quiet (epoch : ℕ) (x : Bool) (task : ActivityTask) :
    (recover_task epoch x task).interrupted epoch false = false := by
  unfold recover_task ActivityTask.interrupted
  by_cases hi : (task.state.held && (decide (task.attempt.owner_epoch ≠ epoch)
      || (x && !task.attempt.policy.safe))) = true
  · simp only [hi, if_true]
    split <;> rfl
  · simp only [hi]
    cases hh : task.state.held with
    | false => simp [hh]
    | true =>
      rw [hh] at hi
      simp only [Bool.true_and, Bool.or_eq_true, decide_eq_true_eq, not_or, not_not] at hi
      simp [hi.1]

theorem recovered_ready {epoch : ℕ}
    (h : r.tasks.any (fun task => task.interrupted epoch r.retry_exhausted) = true)
    (hd : (recovered epoch r).state.drivable = true) :
    (recovered epoch r).tasks.any (fun task => task.state.is_ready) = true := by
  rw [List.any_eq_true] at h ⊢
  obtain ⟨task, ht, hi⟩ := h
  refine ⟨recover_task epoch r.retry_exhausted task, List.mem_map_of_mem ht, ?_⟩
  have hsafe : task.attempt.policy.safe = true := by
    by_contra hns
    have hany : r.tasks.any
        (fun t => t.interrupted epoch r.retry_exhausted && !t.attempt.policy.safe) = true :=
      List.any_eq_true.mpr ⟨task, ht, by simp [hi, hns]⟩
    unfold recovered at hd
    simp only [hany, if_true] at hd
    cases hd
  unfold recover_task
  simp [hi, hsafe, TaskState.is_ready]

theorem Drove.after_recover {t' : Machine} {r0 : RunRecord} {c0 : Option ℤ}
    (h : Drove t' id now res ls) (hs : t.runs id = some ⟨r, c⟩) (hs0 : t'.runs id = some ⟨r0, c0⟩)
    (hi : r.tasks.any (fun task => task.interrupted t.epoch r.retry_exhausted) = true)
    (hready : r0.tasks.any (fun task => task.state.is_ready) = true) :
    Drove t id now res (.recover id :: ls) := by
  have hno : ¬ Idle t now r := by
    rintro ⟨hq, -⟩
    rw [hq] at hi
    cases hi
  refine ⟨List.forall_mem_cons.mpr ⟨rfl, h.drives⟩, fun a ha => ?_, fun hres => ⟨r, c, hs, ?_⟩,
    fun hmem => ?_, h.occupancy.after trivial⟩
  · obtain ⟨ls0, rfl⟩ := h.activity a ha
    exact ⟨.recover id :: ls0, rfl⟩
  · obtain ⟨r', c', hr', hw⟩ := h.waiting hres
    rw [hs0] at hr'
    cases hr'
    rcases hw with ⟨-, hidle⟩ | ⟨-, -, ⟨-, hnr⟩ | ⟨ls0, l, rfl, hl⟩⟩
    · rw [hidle.2.2.no_ready] at hready
      cases hready
    · rw [hnr] at hready
      cases hready
    · exact .inr ⟨hno, .inl hi, .inr ⟨.recover id :: ls0, l, rfl, hl⟩⟩
  · rcases List.mem_cons.mp hmem with hf | hf
    · cases hf
    · obtain ⟨ls0, ls1, rfl, h0, -, h1, h2⟩ := h.settled hf
      exact ⟨.recover id :: ls0, ls1, rfl, List.forall_mem_cons.mpr ⟨rfl, h0⟩, by simp, h1, h2⟩

/-- A drive, with all that it checks first. -/
theorem drive_with_resolver_refines (id : String) (now : ℤ) (resolver : PayloadResolver)
    (t : Machine) :
    Refines (drive_with_resolver id now resolver) t (fun res ls _ => Drove t id now res ls) := by
  unfold drive_with_resolver
  refine Refines.load (fun r c hs hid ho => ?_) .refused
  subst hid
  refine Refines.bind ((recover_refines hs ho).weaken (fun res ls t' hrec => ?_))
  -- the labels of the recovery, and what the rest of the drive adds to them
  have hrec_drives : ∀ l ∈ ls, (l.drives r.id now ∧ l.calm) ∧ l ≠ .retry_wait r.id := by
    cases hrec with
    | failed | left | quiet => simp
    | saved => exact List.forall_mem_singleton.mpr ⟨⟨rfl, trivial⟩, by simp⟩
  have hno : .retry_wait r.id ∉ ls := fun hmem => (hrec_drives _ hmem).2 rfl
  have hover : ∀ res : Except Error DriveOutcome, res ≠ .ok .Waiting →
      (∀ a, res ≠ .ok (.Activity a)) → Drove t r.id now res ls :=
    fun res hw ha => .over (fun l hl => (hrec_drives l hl).1) hw ha hno
  cases res with
  | error e => exact hover _ (by simp) (by simp)
  | ok r' =>
    have hfinal : ∀ o : DriveOutcome, o ≠ .Waiting → (∀ a, o ≠ .Activity a) →
        Refines (pure o : EngineM DriveOutcome) t'
          (fun res ls' _ => Drove t r.id now res (ls ++ ls')) := by
      intro o hw ha
      refine Refines.pure ?_
      rw [List.append_nil]
      exact hover _ (fun h => hw (Except.ok.inj h)) (fun a h => ha a (Except.ok.inj h))
    have hthrow : ∀ e : Error, Refines (throw e : EngineM DriveOutcome) t'
        (fun res ls' _ => Drove t r.id now res (ls ++ ls')) := by
      intro e
      refine Refines.throw ?_
      rw [List.append_nil]
      exact hover _ (by simp) (by simp)
    have hactive : r'.state.drivable = true → Refines (drive_active r' now resolver) t'
        (fun res ls' _ => Drove t r.id now res (ls ++ ls')) := by
      intro hd
      cases hrec with
      | left hun =>
        rw [drivable_recoverable hd] at hun
        cases hun
      | quiet hun hq hr' =>
        obtain ⟨r0, c0, hs0, hid0, ho0, rfl, hst0⟩ := hr'.stored
        rw [hid0, hs] at hs0
        cases hs0
        exact drive_active_refines resolver hs ho hd hq
      | saved hun hi hr' =>
        obtain ⟨r0, c0, hs0, hid0, ho0, rfl, hst0⟩ := hr'.stored
        have hnot : r0.retry_exhausted = false := drivable_not_exhausted hd
        have hready : r0.tasks.any (fun task => task.state.is_ready) = true := by
          have h1 := recovered_ready hi (by rw [← hr'.state]; exact hd)
          rw [← hr'.tasks] at h1
          unfold RunRecord.normalized at h1
          rw [List.any_map] at h1
          exact h1
        have hq : r0.tasks.any (fun task => task.interrupted t'.epoch r0.retry_exhausted)
            = false := by
          have h1 : r0.normalized.tasks.any (fun task => task.interrupted t.epoch false)
              = false := by
            rw [hr'.tasks, List.any_eq_false]
            intro task ht
            obtain ⟨task0, -, rfl⟩ := List.mem_map.mp ht
            rw [recover_task_quiet]
            exact Bool.false_ne_true
          unfold RunRecord.normalized at h1
          rw [List.any_map] at h1
          rw [hnot, hr'.epoch]
          exact h1
        have hdrove := @drive_active_refines t' now r0 c0 resolver hs0 ho0 hd hq
        rw [hid0] at hdrove hs0
        exact hdrove.weaken (fun _ _ _ h => h.after_recover hs hs0 hi hready)
    dsimp only
    cases hst : r'.state with
    | CancelRequested =>
      dsimp only
      refine Refines.bind ((cancel_refines r.id t').weaken (fun res ls' t'' hc => ?_))
      have hcan : ∀ l ∈ ls ++ ls', l.drives r.id now ∧ l.calm := by
        refine List.forall_mem_append.mpr ⟨fun l hl => (hrec_drives l hl).1, fun l hl => ?_⟩
        have hcancels := hc.cancels l hl
        cases l with
        | cancel_request | cancel_done => exact ⟨trivial, trivial⟩
        | _ => exact hcancels.elim
      have hno' : .retry_wait r.id ∉ ls ++ ls' := by
        intro hmem
        rcases List.mem_append.mp hmem with h1 | h1
        · exact hno h1
        · exact hc.cancels _ h1
      cases res with
      | error e => exact .over hcan (by simp) (by simp) hno'
      | ok u =>
        refine Refines.pure ?_
        rw [List.append_nil]
        exact .over hcan (by simp) (by simp) hno'
    | Completed =>
      dsimp only
      cases r'.output with
      | none => exact hthrow _
      | some output => exact hfinal _ (by simp) (by simp)
    | ContinuedAsNew =>
      dsimp only
      cases r'.continued_as with
      | none => exact hthrow _
      | some successor => exact hfinal _ (by simp) (by simp)
    | Cancelled | OutcomeUnknown | Nondeterminism | Failed => exact hfinal _ (by simp) (by simp)
    | Running | NeedsInput | NeedsImplementation => exact hactive (by rw [hst]; rfl)

end Appcall.Durable
