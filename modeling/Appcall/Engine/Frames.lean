/-
What the pieces of a commit leave alone.

Three things are settled here for every commit at once: the identity of a run
never changes, its history is written once, and the runs inserted with it are
new ones. The last two are what `SqliteStore.commit` needs in order to read back
what it wrote, so this file stands between the transition system and the proof
that the engine follows it.

The one argument that is not bookkeeping is about the replay: a workflow that
asks for a new command has consumed its whole history, and every event of it
was resolved (`Program.run_pending`).
-/
import Appcall.Engine.Machine

set_option autoImplicit false

namespace Appcall.Durable

/-! ## The replay -/

/-- The context between two calls of a workflow: what has been consumed while it
is not blocked is resolved, and a pending command means all of it has been. -/
structure Context.Valid (ctx : Context) : Prop where
  within : ctx.cursor ≤ ctx.history.length
  consumed : ctx.blocked = false → Resolved (ctx.history.take ctx.cursor)
  pending : ctx.pending.isSome = true → Resolved ctx.history

theorem Context.start_valid (history : List HistoryEvent) : (Context.start history).Valid :=
  ⟨Nat.zero_le _, fun _ e he => by simp [Context.start] at he, fun h => by
    simp [Context.start] at h⟩

variable {ctx : Context} {r' : RunRecord} {v : String → Option Entry} {now : ℤ}
  {sources : List WaitSource} {value : Option CommandValue} {index : ℕ} {c : Command}
  {pending : Option Command} {l : Label} {en : Entry}

theorem Context.command_valid (hv : ctx.Valid) (c : Command) :
    (ctx.command c).2.Valid ∧ (ctx.command c).2.history = ctx.history := by
  unfold Context.command
  by_cases hbf : (ctx.blocked || ctx.faulted) = true
  · rw [if_pos hbf]
    exact ⟨⟨hv.within, hv.consumed, hv.pending⟩, rfl⟩
  · rw [if_neg hbf]
    have hb : ctx.blocked = false := by
      cases h : ctx.blocked
      · rfl
      · simp [h] at hbf
    cases hget : ctx.history[ctx.cursor]? with
    | none =>
      have hlen : ctx.history.length ≤ ctx.cursor := List.getElem?_eq_none_iff.mp hget
      refine ⟨⟨hv.within, fun h => by simp at h, fun _ => ?_⟩, rfl⟩
      have hres := hv.consumed hb
      rwa [List.take_of_length_le hlen] at hres
    | some event =>
      simp only
      by_cases hne : event.command ≠ c
      · rw [if_pos hne]
        exact ⟨⟨hv.within, hv.consumed, hv.pending⟩, rfl⟩
      · rw [if_neg hne]
        obtain ⟨hlt, hev⟩ := List.getElem?_eq_some_iff.mp hget
        cases hval : event.value with
        | none =>
          refine ⟨⟨hlt, fun h => by simp at h, hv.pending⟩, rfl⟩
        | some value =>
          refine ⟨⟨hlt, fun _ e he => ?_, hv.pending⟩, rfl⟩
          simp only [List.take_add_one, hget, Option.toList_some, List.mem_append,
            List.mem_singleton] at he
          rcases he with he | he
          · exact hv.consumed hb e he
          · rw [he, hval]
            rfl

theorem Context.expect_valid {α : Type} (hv : ctx.Valid) (c : Command)
    (project : CommandValue → Option α) :
    (ctx.expect c project).2.Valid ∧ (ctx.expect c project).2.history = ctx.history := by
  have h := Context.command_valid hv c
  unfold Context.expect
  cases hc : ctx.command c with
  | mk r ctx' =>
    rw [hc] at h
    cases r with
    | error e => exact h
    | ok value =>
      simp only
      cases project value <;> exact h

theorem Context.select_valid (hv : ctx.Valid) (sources : List WaitSource) :
    (ctx.select sources).2.Valid ∧ (ctx.select sources).2.history = ctx.history := by
  unfold Context.select
  by_cases hb : (sources.isEmpty || decide (sources.length > 64)) = true
  · rw [if_pos hb]
    exact ⟨⟨hv.within, hv.consumed, hv.pending⟩, rfl⟩
  · rw [if_neg hb]
    exact Context.expect_valid hv _ _

/-- A whole evaluation keeps the context valid. The induction is on the program:
every call is one command of the context. -/
theorem Program.run_valid (p : Program) (hv : ctx.Valid) :
    (p.run ctx).2.Valid ∧ (p.run ctx).2.history = ctx.history := by
  induction p generalizing ctx with
  | ret result => exact ⟨hv, rfl⟩
  | panic => exact ⟨hv, rfl⟩
  | activity name version input policy next ih =>
    obtain ⟨h1, h2⟩ := Context.expect_valid hv (.Activity name version input policy false)
      CommandValue.payload?
    obtain ⟨h3, h4⟩ := ih _ h1
    exact ⟨h3, h4.trans h2⟩
  | spawn_activity name version input policy next ih =>
    obtain ⟨h1, h2⟩ := Context.expect_valid hv (.Activity name version input policy true)
      CommandValue.activity?
    obtain ⟨h3, h4⟩ := ih _ h1
    exact ⟨h3, h4.trans h2⟩
  | timer deadline next ih =>
    obtain ⟨h1, h2⟩ := Context.expect_valid hv (.Timer deadline) CommandValue.unit?
    obtain ⟨h3, h4⟩ := ih _ h1
    exact ⟨h3, h4.trans h2⟩
  | signal name next ih =>
    obtain ⟨h1, h2⟩ := Context.expect_valid hv (.Signal name) CommandValue.payload?
    obtain ⟨h3, h4⟩ := ih _ h1
    exact ⟨h3, h4.trans h2⟩
  | child name version input next ih =>
    obtain ⟨h1, h2⟩ := Context.expect_valid hv (.Child name version input) CommandValue.child?
    obtain ⟨h3, h4⟩ := ih _ h1
    exact ⟨h3, h4.trans h2⟩
  | select sources next ih =>
    obtain ⟨h1, h2⟩ := Context.select_valid hv sources
    obtain ⟨h3, h4⟩ := ih _ h1
    exact ⟨h3, h4.trans h2⟩
  | continue_as_new input next ih =>
    obtain ⟨h1, h2⟩ := Context.expect_valid hv (.ContinueAsNew input)
      (fun _ => (none : Option PayloadRef))
    obtain ⟨h3, h4⟩ := ih _ h1
    exact ⟨h3, h4.trans h2⟩

theorem Program.run_pending {workflow : Workflow} {r : RunRecord}
    (h : (eval_workflow workflow r).pending.isSome = true) : Resolved r.history := by
  obtain ⟨hv, hh⟩ := Program.run_valid (workflow r.input) (Context.start_valid r.history)
  have hres := hv.pending h
  rw [hh] at hres
  exact hres

/-! ## The identity of a run -/

/-- What no operation ever changes of a run, and the revision, which only `save`
changes. -/
structure SameRun (r r' : RunRecord) : Prop where
  id : r'.id = r.id
  parent : r'.parent = r.parent
  workflow : r'.workflow = r.workflow
  version : r'.version = r.version
  input : r'.input = r.input
  revision : r'.revision = r.revision

theorem SameRun.refl (r : RunRecord) : SameRun r r := ⟨rfl, rfl, rfl, rfl, rfl, rfl⟩

theorem SameRun.of_wakeup {r : RunRecord} {w : Option ℤ} (h : SameRun { r with wakeup := w } r') :
    SameRun r r' :=
  ⟨h.id, h.parent, h.workflow, h.version, h.input, h.revision⟩

theorem Selects.frame {r : RunRecord} {i : ℕ} (h : Selects v now r i sources value r') :
    SameRun r r' ∧ r'.history = r.history ∧ r'.tasks = r.tasks ∧ r'.children = r.children
      ∧ r'.output = r.output ∧ r'.continued_as = r.continued_as
      ∧ r'.reconciliation_audit = r.reconciliation_audit := by
  induction h with
  | timer_later _ _ ih =>
    obtain ⟨hsame, hrest⟩ := ih
    exact ⟨hsame.of_wakeup, hrest⟩
  | signal_later _ _ ih => exact ih
  | child_later _ _ _ _ ih => exact ih
  | activity_later _ _ _ ih => exact ih
  | nothing | timer_fired | signal_taken | child_failed | child_cancelled | child_completed
  | activity_done => exact ⟨⟨rfl, rfl, rfl, rfl, rfl, rfl⟩, rfl, rfl, rfl, rfl, rfl, rfl⟩

theorem with_task_frame (r : RunRecord) (epoch index : ℕ) (name version : String)
    (input : PayloadRef) (policy : EffectPolicy) :
    SameRun r (with_task r epoch index name version input policy)
      ∧ (with_task r epoch index name version input policy).history = r.history
      ∧ (with_task r epoch index name version input policy).output = r.output
      ∧ (with_task r epoch index name version input policy).reconciliation_audit
          = r.reconciliation_audit := by
  unfold with_task
  split
  · exact ⟨.refl r, rfl, rfl, rfl⟩
  · exact ⟨⟨rfl, rfl, rfl, rfl, rfl, rfl⟩, rfl, rfl, rfl⟩

theorem Evaluates.frame {m : Machine} {r : RunRecord} {children : List RunRecord}
    (h : Evaluates m r index now c value r' children) :
    SameRun r r' ∧ r'.history = r.history ∧ r'.output = r.output
      ∧ r'.reconciliation_audit = r.reconciliation_audit := by
  cases h with
  | spawned | activity_done | activity_later =>
    obtain ⟨hsame, hrest⟩ := with_task_frame { r with wakeup := none } _ _ _ _ _ _
    exact ⟨hsame.of_wakeup, hrest⟩
  | select _ hs =>
    obtain ⟨h1, h2, -, -, h5, -, h7⟩ := hs.frame
    exact ⟨h1.of_wakeup, h2, h5, h7⟩
  | timer_fired | timer_later | signal_taken | signal_later | child | continue_too_early
  | continued | continues => exact ⟨⟨rfl, rfl, rfl, rfl, rfl, rfl⟩, rfl, rfl, rfl⟩

/-- The runs a command creates have nothing in them yet. -/
structure NewRun (r : RunRecord) : Prop where
  state : r.state = .Running
  history : r.history = []
  tasks : r.tasks = []
  signals : r.signals = []
  children : r.children = []
  output : r.output = none
  wakeup : r.wakeup = some 0
  failure_reason : r.failure_reason = none
  continued_as : r.continued_as = none

theorem new_run_ok {id name version : String} {input : PayloadRef} {run : RunRecord}
    (h : new_run id name version input = .ok run) :
    NewRun run ∧ run.id = id ∧ run.workflow = name ∧ run.version = version ∧ run.input = input
      ∧ run.parent = none := by
  unfold new_run at h
  simp only [bind, Except.bind, pure, Except.pure] at h
  split at h
  · cases h
  split at h
  · cases h
  split at h
  · cases h
  cases h
  exact ⟨⟨rfl, rfl, rfl, rfl, rfl, rfl, rfl, rfl, rfl⟩, rfl, rfl, rfl, rfl, rfl⟩

theorem Evaluates.new_children {m : Machine} {r : RunRecord} {children : List RunRecord}
    (h : Evaluates m r index now c value r' children) : ∀ x ∈ children, NewRun x := by
  cases h with
  | child _ hn =>
    intro x hx
    obtain ⟨h1, -⟩ := new_run_ok hn
    rw [List.mem_singleton.mp hx]
    exact ⟨h1.state, h1.history, h1.tasks, h1.signals, h1.children, h1.output, h1.wakeup,
      h1.failure_reason, h1.continued_as⟩
  | continues _ _ _ _ hn =>
    intro x hx
    obtain ⟨h1, -⟩ := new_run_ok hn
    rw [List.mem_singleton.mp hx]
    exact ⟨h1.state, h1.history, h1.tasks, h1.signals, h1.children, h1.output, h1.wakeup,
      h1.failure_reason, h1.continued_as⟩
  | spawned | activity_done | activity_later | timer_fired | timer_later | signal_taken
  | signal_later | select | continue_too_early | continued =>
    intro x hx
    cases hx

theorem Evaluates.tasks {m : Machine} {r : RunRecord} {children : List RunRecord}
    (h : Evaluates m r index now c value r' children) :
    r'.tasks = r.tasks ∨ ∃ name version input policy,
      r.task? (effect_id_at r.id index) = none
        ∧ r'.tasks = r.tasks ++ [new_task r m.epoch index name version input policy] := by
  cases h with
  | @spawned name version input policy | @activity_done name version input policy
  | @activity_later name version input policy =>
    unfold with_task
    split
    · exact .inl rfl
    · rename_i hnone
      refine .inr ⟨name, version, input, policy, ?_, rfl⟩
      rw [Bool.not_eq_true, Option.isSome_eq_false_iff, Option.isNone_iff_eq_none] at hnone
      exact hnone
  | select _ hs => exact .inl hs.frame.2.2.1
  | timer_fired | timer_later | signal_taken | signal_later | child | continue_too_early
  | continued | continues => exact .inl rfl

theorem Selects.value_state {r : RunRecord} {i : ℕ} (h : Selects v now r i sources value r')
    (hv : value.isSome = true) : r'.state = r.state ∧ r'.failure_reason = r.failure_reason := by
  induction h with
  | timer_later _ _ ih | signal_later _ _ ih | child_later _ _ _ _ ih
  | activity_later _ _ _ ih => exact ih hv
  | nothing | child_failed | child_cancelled => cases hv
  | timer_fired | signal_taken | child_completed | activity_done => exact ⟨rfl, rfl⟩

theorem Evaluates.value_state {m : Machine} {r : RunRecord} {children : List RunRecord}
    (h : Evaluates m r index now c value r' children) (hv : value.isSome = true) :
    r'.state = r.state ∧ r'.failure_reason = r.failure_reason := by
  cases h with
  | spawned | activity_done =>
    unfold with_task
    split <;> exact ⟨rfl, rfl⟩
  | select _ hs => exact hs.value_state hv
  | activity_later | timer_later | signal_later | continue_too_early | continued | continues =>
    cases hv
  | timer_fired | signal_taken | child => exact ⟨rfl, rfl⟩

/-! ## Small records -/

theorem merge_retry_wakeup_frame (r : RunRecord) :
    merge_retry_wakeup r = { r with wakeup := (merge_retry_wakeup r).wakeup } := by
  unfold merge_retry_wakeup
  cases retry_wakeup r <;> rfl

section Merge

variable (r : RunRecord)

@[simp] theorem merge_retry_wakeup_id : (merge_retry_wakeup r).id = r.id := by
  rw [merge_retry_wakeup_frame]

@[simp] theorem merge_retry_wakeup_state : (merge_retry_wakeup r).state = r.state := by
  rw [merge_retry_wakeup_frame]

@[simp] theorem merge_retry_wakeup_tasks : (merge_retry_wakeup r).tasks = r.tasks := by
  rw [merge_retry_wakeup_frame]

@[simp] theorem merge_retry_wakeup_history : (merge_retry_wakeup r).history = r.history := by
  rw [merge_retry_wakeup_frame]

@[simp] theorem merge_retry_wakeup_signals : (merge_retry_wakeup r).signals = r.signals := by
  rw [merge_retry_wakeup_frame]

@[simp] theorem merge_retry_wakeup_reason :
    (merge_retry_wakeup r).failure_reason = r.failure_reason := by
  rw [merge_retry_wakeup_frame]

@[simp] theorem merge_retry_wakeup_children : (merge_retry_wakeup r).children = r.children := by
  rw [merge_retry_wakeup_frame]

@[simp] theorem merge_retry_wakeup_output : (merge_retry_wakeup r).output = r.output := by
  rw [merge_retry_wakeup_frame]

@[simp] theorem merge_retry_wakeup_continued :
    (merge_retry_wakeup r).continued_as = r.continued_as := by
  rw [merge_retry_wakeup_frame]

end Merge
variable {m : Machine} {r : RunRecord} {children : List RunRecord} {id : String}


theorem completed_run_frame (r : RunRecord) :
    completed_run r
      = { r with state := (completed_run r).state, wakeup := (completed_run r).wakeup } := by
  unfold completed_run
  split
  · split <;> rfl
  · rfl

theorem failed_run_frame (r : RunRecord) (s : TaskState) :
    failed_run r s
      = { r with
          state := (failed_run r s).state, wakeup := (failed_run r s).wakeup
          failure_reason := (failed_run r s).failure_reason } := by
  cases s with
  | Retrying retry =>
    show merge_retry_wakeup r = { r with
      state := (merge_retry_wakeup r).state, wakeup := (merge_retry_wakeup r).wakeup
      failure_reason := (merge_retry_wakeup r).failure_reason }
    rw [merge_retry_wakeup_frame r]
  | Ready | InFlight | Invoking | Done | Uncertain => rfl

theorem still_ready_frame (r : RunRecord) :
    still_ready r = { r with wakeup := (still_ready r).wakeup } := by
  unfold still_ready
  split <;> rfl

/-! ## Identity and history across a commit -/

theorem Turn.frame {r1 : RunRecord} {event : HistoryEvent}
    (h : Turn m now (begun r) pending event value r1 children) :
    SameRun r r1 ∧ r1.history = (opened (begun r) pending).history ∧ r1.output = r.output
      ∧ r1.reconciliation_audit = r.reconciliation_audit := by
  obtain ⟨hsame, hh, ho, ha⟩ := h.evaluated.frame
  exact ⟨⟨hsame.id, hsame.parent, hsame.workflow, hsame.version, hsame.input, hsame.revision⟩,
    hh, ho, ha⟩

theorem SameRun.merge_retry_wakeup (h : SameRun r r') : SameRun r (merge_retry_wakeup r') := by
  rw [merge_retry_wakeup_frame]
  exact ⟨h.id, h.parent, h.workflow, h.version, h.input, h.revision⟩

/-- **No commit changes which run it is.** -/
theorem Change.frame (h : Change m l r r' children) : SameRun r r' := by
  cases h with
  | complete =>
    rw [completed_run_frame]
    exact ⟨rfl, rfl, rfl, rfl, rfl, rfl⟩
  | fail =>
    rw [failed_run_frame]
    exact ⟨rfl, rfl, rfl, rfl, rfl, rfl⟩
  | resolve _ ht | unimplemented _ ht | dispatch_exhausted _ ht =>
    have hs := ht.frame.1.merge_retry_wakeup
    exact ⟨hs.id, hs.parent, hs.workflow, hs.version, hs.input, hs.revision⟩
  | stop _ ht | hold _ ht | wait _ ht => exact ht.frame.1.merge_retry_wakeup
  | dispatch _ ht =>
    have hs := ht.frame.1.merge_retry_wakeup
    rw [still_ready_frame]
    exact ⟨hs.id, hs.parent, hs.workflow, hs.version, hs.input, hs.revision⟩
  | _ =>
    exact ⟨rfl, rfl, rfl, rfl, rfl, rfl⟩

theorem seal_end_open {h : List HistoryEvent} {e : HistoryEvent}
    (he : h[seal_end h]? = some e) : e.value = none := by
  have := List.findIdx_of_getElem?_eq_some
    (p := fun event : HistoryEvent => event.value.isNone) he
  simpa using this

theorem Extends.resolve {h : List HistoryEvent} {e : HistoryEvent} (v : CommandValue)
    (he : h[seal_end h]? = some e) :
    Extends h (h.set (seal_end h) { e with value := some v }) := by
  intro i e' he'
  by_cases hi : seal_end h = i
  · rw [← hi, he] at he'
    cases he'
    have hlt : seal_end h < h.length := (List.getElem?_eq_some_iff.mp he).1
    refine ⟨{ e with value := some v }, ?_, rfl, fun hs => ?_⟩
    · rw [← hi, List.getElem?_set_self hlt]
    · rw [seal_end_open he] at hs
      cases hs
  · refine ⟨e', ?_, rfl, fun _ => rfl⟩
    rw [List.getElem?_set_ne hi]
    exact he'

theorem OneOpen.resolve {h : List HistoryEvent} (ho : OneOpen h) {e : HistoryEvent}
    (v : CommandValue) (he : h[seal_end h]? = some e) :
    Resolved (h.set (seal_end h) { e with value := some v }) := by
  intro x hx
  obtain ⟨i, hi⟩ := List.getElem?_of_mem hx
  by_cases hs : seal_end h = i
  · have hlt : seal_end h < h.length := (List.getElem?_eq_some_iff.mp he).1
    rw [← hs, List.getElem?_set_self hlt] at hi
    cases hi
    rfl
  · rw [List.getElem?_set_ne hs] at hi
    obtain ⟨hlt, hget⟩ := List.getElem?_eq_some_iff.mp hi
    have hle : i < seal_end h := by
      have hsl : h.length - 1 ≤ seal_end h := by
        refine le_seal_end (by omega) ?_
        rw [← List.dropLast_eq_take]
        exact ho
      have : seal_end h < h.length := (List.getElem?_eq_some_iff.mp he).1
      omega
    refine resolved_take_seal_end h x ?_
    rw [List.mem_take_iff_getElem]
    exact ⟨i, by omega, hget⟩

theorem opened_extends (b : RunRecord) (pending : Option Command) :
    Extends b.history (opened b pending).history := by
  cases pending with
  | none => exact .refl _
  | some c => exact .append _ _

theorem Blocked.one_open {b : RunRecord} (h : Blocked m b pending) (ho : OneOpen b.history) :
    OneOpen (opened b pending).history := by
  obtain ⟨workflow, cursor, -, heval, -⟩ := h
  cases pending with
  | none => exact ho
  | some c =>
    have hres : Resolved b.history :=
      @Program.run_pending workflow b (by rw [heval]; rfl)
    exact .append_singleton hres _

/-- **Every commit extends the history**, and leaves at most its last event open. -/
theorem Change.extends (h : Change m l r r' children) (ho : OneOpen r.history) :
    Extends r.history r'.history ∧ OneOpen r'.history := by
  cases h with
  | complete =>
    rw [completed_run_frame]
    exact ⟨.refl _, ho⟩
  | fail =>
    rw [failed_run_frame]
    exact ⟨.refl _, ho⟩
  | @resolve r r1 now pending event value children _ ht =>
    have hopen := ht.blocked.one_open (b := begun r) ho
    have hh := ht.frame.2.1
    have hev := ht.open_event
    simp only [hh]
    exact ⟨(opened_extends (begun r) pending).trans (.resolve value hev),
      .of_resolved (hopen.resolve value hev)⟩
  | @stop r r1 now pending _ _ _ ht | @hold r r1 now pending _ _ _ ht
  | @wait r r1 now pending _ _ _ ht =>
    rw [merge_retry_wakeup_frame]
    simp only [ht.frame.2.1]
    exact ⟨opened_extends (begun r) pending, ht.blocked.one_open (b := begun r) ho⟩
  | @unimplemented r r1 now pending _ _ _ ht | @dispatch_exhausted r r1 now pending _ _ _ _ _ ht =>
    rw [merge_retry_wakeup_frame]
    simp only [mark_retry_exhausted, ht.frame.2.1]
    exact ⟨opened_extends (begun r) pending, ht.blocked.one_open (b := begun r) ho⟩
  | @dispatch r r1 now pending _ _ _ _ _ _ ht =>
    rw [still_ready_frame, merge_retry_wakeup_frame]
    simp only [ht.frame.2.1]
    exact ⟨opened_extends (begun r) pending, ht.blocked.one_open (b := begun r) ho⟩
  | _ => exact ⟨.refl _, ho⟩

theorem Change.new_children (h : Change m l r r' children) : ∀ x ∈ children, NewRun x := by
  cases h with
  | resolve _ ht | stop _ ht | hold _ ht | dispatch_exhausted _ ht | dispatch _ ht
  | wait _ ht => exact ht.evaluated.new_children
  | _ =>
    intro x hx
    cases hx

/-! ## The table after a commit -/

theorem wake_view_some {parent : String} (h : v id = some en) : wake_view v parent id = some
      (if id = parent ∧ state en.record = .running then { en with wakeup := some 0 } else en) := by
  unfold wake_view
  by_cases hid : id = parent
  · subst hid
    rw [Function.update_self, h, Option.map_some]
    simp only [true_and]
  · rw [Function.update_of_ne hid, h, if_neg (fun hc => hid hc.1)]

theorem wake_view_none {parent : String} (h : v id = none) : wake_view v parent id = none := by
  unfold wake_view
  by_cases hid : id = parent
  · subst hid
    rw [Function.update_self, h, Option.map_none]
  · rw [Function.update_of_ne hid, h]

theorem insert_view_some (hf : Fresh v children) {id : String} (h : v id = some en) :
    insert_view v children id = some en := by
  induction children generalizing v with
  | nil => exact h
  | cons x children ih =>
    obtain ⟨hnone, hrest⟩ := hf
    refine ih hrest ?_
    rw [Function.update_of_ne]
    · exact h
    · rintro rfl
      rw [hnone] at h
      cases h

theorem insert_view_inv (h : insert_view v children id = some en) :
    v id = some en ∨ ∃ x ∈ children, x.id = id ∧ en = ⟨x, x.wakeup⟩ := by
  induction children generalizing v with
  | nil => exact .inl h
  | cons x children ih =>
    rcases ih h with h' | ⟨y, hy, hid, he⟩
    · by_cases hid : id = x.id
      · subst hid
        rw [Function.update_self] at h'
        exact .inr ⟨x, List.mem_cons_self, rfl, (Option.some.inj h').symm⟩
      · rw [Function.update_of_ne hid] at h'
        exact .inl h'
    · exact .inr ⟨y, List.mem_cons_of_mem _ hy, hid, he⟩

theorem insert_view_new (hf : Fresh v children) {x : RunRecord} (hx : x ∈ children) :
    insert_view v children x.id = some ⟨x, x.wakeup⟩ := by
  induction children generalizing v with
  | nil => cases hx
  | cons y children ih =>
    obtain ⟨hnone, hrest⟩ := hf
    rcases List.mem_cons.mp hx with rfl | hx
    · exact insert_view_some hrest (Function.update_self _ _ _)
    · exact ih hrest hx

theorem update_none {x : String} (h : Function.update v id (some en) x = none) :
    x ≠ id ∧ v x = none := by
  by_cases hx : x = id
  · rw [hx, Function.update_self] at h
    cases h
  · rw [Function.update_of_ne hx] at h
    exact ⟨hx, h⟩

theorem update_some {x : String} {en' : Entry} (h : Function.update v id (some en) x = some en') :
    (x = id ∧ en' = en) ∨ (x ≠ id ∧ v x = some en') := by
  by_cases hx : x = id
  · rw [hx, Function.update_self] at h
    cases h
    exact .inl ⟨hx, rfl⟩
  · rw [Function.update_of_ne hx] at h
    exact .inr ⟨hx, h⟩

theorem Fresh.none (hf : Fresh v children) {x : RunRecord} (hx : x ∈ children) : v x.id = none := by
  induction children generalizing v with
  | nil => cases hx
  | cons y children ih =>
    rcases List.mem_cons.mp hx with rfl | hx
    · exact hf.1
    · exact (update_none (ih hf.2 hx)).2

/-- The wakeup column a commit of `run` leaves for the run `id`, which had `c`. -/
def notified (run : RunRecord) (id : String) (record : RunRecord) (c : Option ℤ) : Option ℤ :=
  if run.state.ends = true ∧ run.parent = some id ∧ state record = .running then some 0 else c

theorem commit_view_some {v : String → Option Entry} {run : RunRecord} {en : Entry}
    (h : insert_view (Function.update v run.id (some ⟨run, run.wakeup⟩)) children id = some en) :
    commit_view v run children id
      = some ⟨en.record, notified run id en.record en.wakeup⟩ := by
  unfold commit_view notified
  cases hends : run.state.ends with
  | false => simp [h]
  | true =>
    cases hpar : run.parent with
    | none => simp [h]
    | some parent =>
      simp only
      rw [wake_view_some h]
      by_cases hc : id = parent ∧ state en.record = .running
      · obtain ⟨rfl, hst⟩ := hc
        simp [hst]
      · rw [if_neg hc, if_neg]
        rintro ⟨-, h1, h2⟩
        exact hc ⟨(Option.some.inj h1).symm, h2⟩

theorem commit_view_inv {v : String → Option Entry} {run : RunRecord} {en : Entry}
    (h : commit_view v run children id = some en) :
    ∃ c, insert_view (Function.update v run.id (some ⟨run, run.wakeup⟩)) children id
        = some ⟨en.record, c⟩ ∧ en.wakeup = notified run id en.record c := by
  cases hi : insert_view (Function.update v run.id (some ⟨run, run.wakeup⟩)) children id with
  | none =>
    exfalso
    unfold commit_view at h
    cases hends : run.state.ends with
    | false => simp [hends, hi] at h
    | true =>
      cases hpar : run.parent with
      | none => simp [hends, hpar, hi] at h
      | some parent =>
        simp only [hends, hpar, wake_view_none hi] at h
        cases h
  | some en' =>
    rw [commit_view_some hi] at h
    cases h
    exact ⟨en'.wakeup, rfl, rfl⟩

section Commit

variable {m : Machine} {run : RunRecord} {children : List RunRecord}
  (hf : Fresh (Function.update m.runs run.id (some ⟨run.saved, run.saved.wakeup⟩)) children)

include hf

theorem Machine.commit_self :
    (m.commit run children).runs run.id
      = some ⟨run.saved, notified run run.id run.saved run.wakeup⟩ :=
  @commit_view_some _ _ _ run.saved _ (insert_view_some hf (Function.update_self _ _ _))

theorem Machine.commit_live (hlive : run.state.ends = false) :
    (m.commit run children).runs run.id = some ⟨run.saved, run.wakeup⟩ := by
  rw [Machine.commit_self hf]
  unfold notified
  rw [hlive, if_neg (by simp)]

theorem Machine.commit_other {id : String} {en : Entry} (hid : id ≠ run.id)
    (h : m.runs id = some en) :
    (m.commit run children).runs id = some ⟨en.record, notified run id en.record en.wakeup⟩ := by
  refine @commit_view_some _ _ _ run.saved _ (insert_view_some hf ?_)
  rw [Function.update_of_ne hid]
  exact h

theorem Machine.commit_new {x : RunRecord} (hx : x ∈ children) :
    (m.commit run children).runs x.id = some ⟨x, notified run x.id x x.wakeup⟩ :=
  @commit_view_some _ _ _ run.saved _ (insert_view_new hf hx)

end Commit

theorem Machine.commit_inv {m : Machine} {run : RunRecord} {children : List RunRecord} {id : String}
    (h : (m.commit run children).runs id = some en) :
    (id = run.id ∧ en = ⟨run.saved, notified run id run.saved run.wakeup⟩)
    ∨ (∃ x ∈ children, x.id = id ∧ en = ⟨x, notified run id x x.wakeup⟩)
    ∨ (id ≠ run.id ∧ ∃ c, m.runs id = some ⟨en.record, c⟩
        ∧ en.wakeup = notified run id en.record c) := by
  obtain ⟨record, wakeup⟩ := en
  obtain ⟨c, hi, hw⟩ := @commit_view_inv _ _ _ run.saved _ h
  simp only at hi hw
  subst hw
  rcases insert_view_inv hi with hu | ⟨x, hx, hid, he⟩
  · by_cases hid : id = run.id
    · left
      subst hid
      rw [show run.saved.id = run.id from rfl, Function.update_self] at hu
      cases hu
      exact ⟨rfl, rfl⟩
    · right; right
      rw [Function.update_of_ne (by exact hid)] at hu
      exact ⟨hid, c, hu, rfl⟩
  · right; left
    cases he
    exact ⟨_, hx, hid, rfl⟩

/-! ## Opening the database again -/

theorem WellFormed.foldl_wake {s : SqliteStore} (hw : WellFormed s) (ids : List String) :
    WellFormed (ids.foldl SqliteStore.wake s) ∧ (ids.foldl SqliteStore.wake s).epoch = s.epoch
      ∧ ∀ id, (ids.foldl SqliteStore.wake s).view id
          = (s.view id).map (fun en => if id ∈ ids ∧ state en.record = .running
              then { en with wakeup := some 0 } else en) := by
  induction ids generalizing s with
  | nil =>
    refine ⟨hw, rfl, fun id => ?_⟩
    simp
  | cons x ids ih =>
    obtain ⟨hw1, hv1, he1, -⟩ := hw.wake x
    obtain ⟨hw2, he2, hv2⟩ := ih hw1
    refine ⟨hw2, he2.trans he1, fun id => ?_⟩
    rw [List.foldl_cons, hv2 id, hv1]
    cases hv : s.view id with
    | none => rw [wake_view_none hv, Option.map_none, Option.map_none]
    | some en =>
      rw [wake_view_some hv, Option.map_some, Option.map_some]
      by_cases hx : id = x ∧ state en.record = .running
      · rw [if_pos hx]
        simp [hx.1, hx.2]
      · rw [if_neg hx]
        by_cases hst : state en.record = .running
        · have hne : id ≠ x := fun h => hx ⟨h, hst⟩
          simp [hne, hst]
        · simp [hst]

/-- **Opening the database again** makes due the runs that may have lost their
owner, and changes no record. -/
theorem WellFormed.reopen {s : SqliteStore} (hw : WellFormed s) (failed : ℕ) :
    WellFormed (s.reopen failed) ∧ (s.reopen failed).epoch = s.epoch + failed + 1
      ∧ (s.reopen failed).view = fun id => (s.view id).map reopened := by
  obtain ⟨hw1, he1, hv1⟩ := hw.foldl_wake s.recovery_ids
  refine ⟨⟨hw1.key, hw1.revision, hw1.column, hw1.flag, hw1.sealed_resolved, hw1.tail, hw1.cap,
    hw1.orphan⟩, ?_, ?_⟩
  · show (s.recovery_ids.foldl SqliteStore.wake s).epoch + failed + 1 = _
    rw [he1]
  funext id
  show (s.recovery_ids.foldl SqliteStore.wake s).view id = _
  rw [hv1]
  cases hl : s.engine_runs.lookup id with
  | none => rw [WellFormed.view_eq_none.mpr hl, Option.map_none, Option.map_none]
  | some row =>
    obtain ⟨hv, hst⟩ := hw.view_row hl
    have hrec : requires_recovery
        { row.record with history := s.load_sealed id ++ row.record.history }
          = row.recoverable := by
      rw [hw.flag id row hl]
      rfl
    rw [hv, Option.map_some, Option.map_some]
    unfold reopened
    simp only [hst, hrec, SqliteStore.mem_recovery_ids hl]
    by_cases hc : row.state = .running ∧ row.recoverable = true
    · rw [if_pos hc]
      by_cases h0 : row.wakeup = some 0
      · simp [h0]
      · rw [if_pos ⟨⟨hc.1, hc.2, h0⟩, hc.1⟩]
    · rw [if_neg hc, if_neg (fun h => hc ⟨h.1.1, h.1.2.1⟩)]

/-! ## One move, on one run -/

theorem Trans.forward {t t' : Machine} {l : Label} {id : String} (h : Trans t l t') {r : RunRecord}
    {c : Option ℤ}
    (hr : t.runs id = some ⟨r, c⟩) : (∃ c', t'.runs id = some ⟨r, c'⟩)
      ∨ ∃ run children, r.id = id ∧ Change t l r run children ∧ t' = t.commit run children
        ∧ Fresh (Function.update t.runs run.id (some ⟨run.saved, run.saved.wakeup⟩)) children
        ∧ ∃ c', t'.runs id = some ⟨run.saved, c'⟩ := by
  cases h with
  | @change _ r0 run c0 children hs hc hf =>
    rw [← hc.frame.id] at hf
    by_cases hid : id = r0.id
    · subst hid
      rw [hs] at hr
      cases hr
      have hself := Machine.commit_self hf
      rw [hc.frame.id] at hself
      exact .inr ⟨run, children, rfl, hc, rfl, hf, _, hself⟩
    · rw [← hc.frame.id] at hid
      exact .inl ⟨_, Machine.commit_other hf hid hr⟩
  | @start id0 _ _ _ _ _ hnone =>
    have hid : id ≠ id0 := by
      rintro rfl
      rw [hnone] at hr
      cases hr
    refine .inl ⟨c, ?_⟩
    show Function.update t.runs id0 _ id = _
    rw [Function.update_of_ne hid]
    exact hr
  | restart failed =>
    exact .inl (reopened_iff.mpr ⟨c, hr⟩)
  | idle | park | unpark | hand_out | release | register_workflow | configure =>
    exact .inl ⟨c, hr⟩

theorem Trans.backward {t t' : Machine} {l : Label} {id : String} (h : Trans t l t')
    {r' : RunRecord} {c' : Option ℤ}
    (hr : t'.runs id = some ⟨r', c'⟩) : (∃ c, t.runs id = some ⟨r', c⟩)
      ∨ (∃ r c run children, t.runs id = some ⟨r, c⟩ ∧ r.id = id ∧ Change t l r run children
          ∧ r' = run.saved)
      ∨ (t.runs id = none ∧ NewRun r' ∧ r'.id = id) := by
  cases h with
  | @change _ r0 run c0 children hs hc hf =>
    rcases Machine.commit_inv hr with ⟨hid, he⟩ | ⟨x, hx, hid, he⟩ | ⟨-, c, hr0, -⟩
    · cases he
      rw [hc.frame.id] at hid
      subst hid
      exact .inr (.inl ⟨r0, c0, run, children, hs, rfl, hc, rfl⟩)
    · cases he
      subst hid
      exact .inr (.inr ⟨(update_none (hf.none hx)).2, hc.new_children _ hx, rfl⟩)
    · exact .inl ⟨c, hr0⟩
  | @start id0 _ _ _ run hnew hnone =>
    obtain ⟨hn, hid0, -⟩ := new_run_ok hnew
    rcases update_some hr with ⟨rfl, he⟩ | ⟨-, hother⟩
    · cases he
      exact .inr (.inr ⟨hnone, hn, hid0⟩)
    · exact .inl ⟨c', hother⟩
  | restart failed =>
    exact .inl (reopened_iff.mp ⟨c', hr⟩)
  | idle | park | unpark | hand_out | release | register_workflow | configure =>
    exact .inl ⟨c', hr⟩
end Appcall.Durable
