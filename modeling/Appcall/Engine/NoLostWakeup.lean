/-
A run that could go on is due.

The wakeup of a run is stored twice, in the record and in a column, and only the
column is polled. Every commit writes the column from the record; the end of a
child writes only the column of its parent. So a commit that keeps the wakeup of
the record, and that is made between the end of the child and the next drive of
the parent, takes the wakeup back. `Erases` says which steps make such a commit:
the start of a sibling activity, and a failure of one that is backed off.

There is a second way. A drive stores the earliest retry of a run before it looks
at the command the run waits for. Where it then fails, the record is left with a
wakeup that ignores the command (`Stalls`).

`no_lost_wakeup` says that there is no third. Its invariant is `Timely`: the
record of a running run covers its deadlines, its signals, its results and its
ready tasks, and the column covers its children.
-/
import Appcall.Engine.Families
import Appcall.Engine.States
import Appcall.Engine.Waiting

set_option autoImplicit false

namespace Appcall.Durable

open Appcall.Refine

/-! ## Records that cover what they wait for -/

/-- The wakeup of the record comes at `d`, or at once. -/
def RunRecord.wakes (r : RunRecord) (d : ℤ) : Prop := ∃ x, r.wakeup = some x ∧ x ≤ max d 0

/-- The record is woken for everything it waits for but its children. A run that
waits for a free slot is parked, and woken by the slot. -/
structure Covered (parked : List String) (r : RunRecord) : Prop where
  times : ∀ d ∈ r.deadlines ++ r.retry_times, r.wakes d
  offered : r.offered = true → r.wakes 0
  ready : r.tasks.any (fun task => task.state.is_ready) = true → r.id ∈ parked ∨ r.wakes 0

theorem wakes_of_zero {r : RunRecord} (h : r.wakeup = some 0) (d : ℤ) : r.wakes d :=
  ⟨0, h, le_max_right d 0⟩

/-- A record that is due is woken for everything. -/
theorem Covered.of_zero {parked : List String} {r : RunRecord} (h : r.wakeup = some 0) :
    Covered parked r :=
  ⟨fun d _ => wakes_of_zero h d, fun _ => wakes_of_zero h 0, fun _ => .inr (wakes_of_zero h 0)⟩

variable {r' : RunRecord} {m : Machine} {children : List RunRecord} {l : Label} {m' : Machine}
  {e : Engine} {r : RunRecord}

theorem RunRecord.wakes_mono {d : ℤ} (h : r.wakes d)
    (hw : ∀ x, r.wakeup = some x → ∃ y, r'.wakeup = some y ∧ y ≤ x) : r'.wakes d := by
  obtain ⟨x, hx, hle⟩ := h
  obtain ⟨y, hy, hyx⟩ := hw x hx
  exact ⟨y, hy, hyx.trans hle⟩

theorem min_le_of_mem {times : List ℤ} {d : ℤ} (hd : d ∈ times) :
    ∃ x, times.min? = some x ∧ x ≤ d := by
  cases hmin : times.min? with
  | none =>
    rw [List.min?_eq_none_iff.mp hmin] at hd
    cases hd
  | some x => exact ⟨x, rfl, (List.min?_eq_some_iff.mp hmin).2 d hd⟩

/-- A record that wakes at its due time is woken at each of these times. -/
theorem wakes_of_due (h : r'.wakeup = r.due) {d : ℤ} (hd : d ∈ r.deadlines ++ r.retry_times) :
    r'.wakes d := by
  obtain ⟨x, hx, hle⟩ := min_le_of_mem hd
  exact ⟨x, h.trans hx, hle.trans (le_max_left d 0)⟩

/-- The merged wakeup comes no later than the old one and than every retry. -/
theorem merge_retry_wakeup_le {d : ℤ} (hd : r.wakeup = some d ∨ d ∈ r.retry_times) :
    ∃ y, (merge_retry_wakeup r).wakeup = some y ∧ y ≤ d := by
  have hmem : d ∈ r.wakeup.toList ++ r.retry_times := by
    rcases hd with hd | hd
    · rw [hd]
      exact List.mem_cons_self
    · exact List.mem_append_right _ hd
  rw [merge_retry_wakeup_earliest]
  exact min_le_of_mem hmem

/-! ## Writing back one task -/

/-- Two tasks of one effect, both with a result or both without. -/
def SameResult (t t' : ActivityTask) : Prop :=
  t'.attempt.effect_id = t.attempt.effect_id ∧ t'.state.is_done = t.state.is_done

theorem has_result_congr (h : List.Forall₂ SameResult r.tasks r'.tasks) (effect_id : String) :
    r'.has_result effect_id = r.has_result effect_id := by
  unfold RunRecord.has_result RunRecord.task?
  generalize r.tasks = tasks at h ⊢
  generalize r'.tasks = tasks' at h ⊢
  induction h with
  | nil => rfl
  | @cons t t' _ _ hs _ ih =>
    rw [List.find?_cons, List.find?_cons, hs.1]
    by_cases he : t.attempt.effect_id = effect_id
    · simp [he, hs.2]
    · simpa [he] using ih

section SetTask

variable {i : ℕ} {task task' : ActivityTask}

theorem mem_retry_times_set {d : ℤ}
    (hd : d ∈ ({ r with tasks := r.tasks.set i task' } : RunRecord).retry_times) :
    d ∈ r.retry_times ∨ task'.retry_due = some d := by
  obtain ⟨t, ht, hdue⟩ := List.mem_filterMap.mp hd
  rcases List.mem_or_eq_of_mem_set ht with hmem | rfl
  · exact .inl (List.mem_filterMap.mpr ⟨t, hmem, hdue⟩)
  · exact .inr hdue

theorem offered_set (hget : r.tasks[i]? = some task) (hsame : SameResult task task') :
    ({ r with tasks := r.tasks.set i task' } : RunRecord).offered = r.offered :=
  RunRecord.offered_congr rfl rfl rfl
    (has_result_congr (forall₂_set (fun _ => ⟨rfl, rfl⟩) hget hsame))

theorem ready_set (hready : task'.state.is_ready = false)
    (h : (r.tasks.set i task').any (fun task => task.state.is_ready) = true) :
    r.tasks.any (fun task => task.state.is_ready) = true := by
  obtain ⟨t, ht, htr⟩ := List.any_eq_true.mp h
  rcases List.mem_or_eq_of_mem_set ht with hmem | rfl
  · exact List.any_eq_true.mpr ⟨t, hmem, htr⟩
  · rw [hready] at htr
    cases htr

/-- Writing back a task that is not ready keeps a record covered, if the wakeup is no later than
before and than the retry of the task. -/
theorem Covered.set {parked : List String} {w : Option ℤ} (h : Covered parked r)
    (hget : r.tasks[i]? = some task) (hsame : SameResult task task')
    (hready : task'.state.is_ready = false)
    (hw : ∀ x, r.wakeup = some x → ∃ y, w = some y ∧ y ≤ x)
    (hdue : ∀ d, task'.retry_due = some d → ∃ y, w = some y ∧ y ≤ d) :
    Covered parked { r with tasks := r.tasks.set i task', wakeup := w } := by
  have hmono : ∀ d, r.wakes d →
      ({ r with tasks := r.tasks.set i task', wakeup := w } : RunRecord).wakes d :=
    fun d hd => RunRecord.wakes_mono hd hw
  refine ⟨fun d hd => ?_, fun hoff => ?_, fun hany => ?_⟩
  · rcases List.mem_append.mp hd with hd | hd
    · exact hmono d (h.times d (List.mem_append_left _ hd))
    · rcases mem_retry_times_set (r := r) hd with hd | hd
      · exact hmono d (h.times d (List.mem_append_right _ hd))
      · obtain ⟨y, hy, hle⟩ := hdue d hd
        exact ⟨y, hy, hle.trans (le_max_left d 0)⟩
  · exact hmono 0 (h.offered ((offered_set hget hsame).symm.trans hoff))
  · rcases h.ready (ready_set hready hany) with hp | hwake
    · exact .inl hp
    · exact .inr (hmono 0 hwake)

end SetTask

/-! ## What a commit leaves behind -/

/-- The record is woken for everything it waits for. -/
def Timely (m : Machine) (r : RunRecord) : Prop :=
  Covered m.parked r ∧ (EndedChild m.runs r → r.wakes 0)

theorem Timely.of_zero (h : r.wakeup = some 0) : Timely m r :=
  ⟨.of_zero h, fun _ => wakes_of_zero h 0⟩

/-- A record that waits for what a turn found nothing of, with the wakeup that the
turn has computed. -/
theorem Turn.timely {now : ℤ} {r1 : RunRecord} {pending : Option Command} {event : HistoryEvent}
    (h : Turn m now (begun r) pending event none r1 children) (hrun : r1.state = .Running)
    (hid : r'.id = r1.id) (hh : r'.history = r1.history) (hs : r'.signals = r1.signals)
    (hch : r'.children = r1.children) (hw : r'.wakeup = (merge_retry_wakeup r1).wakeup)
    (htimes : ∀ d ∈ r'.retry_times, d ∈ r1.retry_times)
    (hres : ∀ effect_id, r'.has_result effect_id = r1.has_result effect_id)
    (hready : r'.tasks.any (fun task => task.state.is_ready) = true → r'.id ∈ m.parked) :
    Timely m r' := by
  obtain ⟨hdue, -, hoff, hend, -⟩ := h.waits hrun
  refine ⟨⟨fun d hd => ?_, fun hoff' => ?_, fun hany => .inl (hready hany)⟩, fun hend' => ?_⟩
  · refine wakes_of_due (r := r1) (hw.trans hdue) ?_
    rcases List.mem_append.mp hd with hd | hd
    · refine List.mem_append_left _ ?_
      unfold RunRecord.deadlines RunRecord.open_event at hd ⊢
      rw [← hh]
      exact hd
    · exact List.mem_append_right _ (htimes d hd)
  · rw [RunRecord.offered_congr hid hh hs hres, hoff] at hoff'
    cases hoff'
  · exact absurd (hend'.congr hh.symm hch.symm) hend

/-- The moves that answer for an activity and leave the wakeup of the run to the
record. -/
def Label.reports : Label → Prop
  | .invoke _ | .fail _ _ _ => True
  | _ => False

theorem failure_state_not_running (reason : RunFailure) : failure_state reason ≠ .Running := by
  cases reason <;> simp [failure_state]

theorem mark_retry_exhausted_not_running (r : RunRecord) :
    (mark_retry_exhausted r).state ≠ .Running := by
  rcases mark_retry_exhausted_spent r with h | ⟨h, -⟩ <;> rw [h] <;> simp

/-- **One commit.** A record that runs after a commit is timely: most commits are
due at once or computed by a turn, and a report keeps what was there. The storing
of a retry time is left out; it is the business of the drive that goes on. -/
theorem Change.timely (h : Change m l r r' children) (hrun : r'.state = .Running)
    (hl : l ≠ .retry_wait r.id) (hkeep : l.reports → r.state = .Running → Timely m r) :
    Timely m r' := by
  cases h with
  | reject_run reason | reject_dispatch reason =>
    exact absurd hrun (failure_state_not_running reason)
  | retry_exhausted | dispatch_exhausted =>
    exact absurd hrun (mark_retry_exhausted_not_running _)
  | stop _ _ hnot =>
    rw [merge_retry_wakeup_state] at hrun
    exact absurd hrun hnot
  | abort | missing_payload | cancel_request | cancel_done | nondeterminism | finish
  | unimplemented => cases hrun
  | suspend _ hs => rcases hs with rfl | rfl <;> cases hrun
  | resume | signal | wake | retry_ready | resolve | progressed => exact .of_zero rfl
  | retry_wait => exact absurd rfl hl
  | recover =>
    refine .of_zero ?_
    exact if_pos hrun
  | reconcile =>
    refine .of_zero ?_
    have hs : reconciled_state _ = .Running := hrun
    show (if reconciled_state _ = .Failed then none else some 0 : Option ℤ) = some 0
    rw [hs]
    rfl
  | complete =>
    refine .of_zero ?_
    unfold completed_run at hrun ⊢
    split at hrun
    · rename_i hunk
      rw [if_pos hunk]
      split at hrun
      · cases hrun
      · rename_i hreason
        rw [if_neg hreason]
    · rename_i hunk
      rw [if_neg hunk]
      have hs : r.state = .Running := hrun
      show (if r.state = .OutcomeUnknown then none else some 0 : Option ℤ) = some 0
      rw [hs]
      rfl
  | invoke hown hin hstart =>
    obtain ⟨hget, hatt, -⟩ := owned_attempt_ok hown
    obtain ⟨hcov, hend⟩ := hkeep trivial hrun
    refine ⟨hcov.set hget ⟨rfl, ?_⟩ rfl (fun x hx => ⟨x, hx, le_rfl⟩) (fun d hd => ?_), ?_⟩
    · rw [hin]
      rfl
    · cases hd
    · exact fun hended => hend (hended.congr rfl rfl)
  | @fail r a i task task' execution failure failed_at_ms hown hmark hfail =>
    obtain ⟨hget, hatt, -, hheld, -⟩ := owned_attempt_ok hown
    obtain ⟨hatt', hst⟩ := failed_task_ok hfail
    rcases hst with ⟨-, hst | ⟨retry, hst⟩⟩ | hst
    · rw [hst] at hrun
      exact absurd hrun (mark_retry_exhausted_not_running _)
    · rw [hst] at hrun ⊢
      unfold failed_run at hrun ⊢
      rw [merge_retry_wakeup_state] at hrun
      obtain ⟨hcov, hend⟩ := hkeep trivial hrun
      have hdone : task'.state.is_done = task.state.is_done := by
        rw [hst]
        cases hs : task.state <;> rw [hs] at hheld <;> first | rfl | cases hheld
      have hi : i < r.tasks.length := (List.getElem?_eq_some_iff.mp hget).1
      rw [merge_retry_wakeup_frame]
      -- the merged wakeup is no later than the old one, and than every retry
      have hle : ∀ d, r.wakeup = some d
          ∨ d ∈ ({ r with tasks := r.tasks.set i task' } : RunRecord).retry_times →
          ∃ y, (merge_retry_wakeup { r with tasks := r.tasks.set i task' }).wakeup = some y
            ∧ y ≤ d := fun d hd => merge_retry_wakeup_le hd
      refine ⟨hcov.set hget ⟨by rw [hatt'], hdone⟩ (by rw [hst]; rfl) (fun x hx => hle x (.inl hx))
        (fun d hd => hle d (.inr ?_)), fun hended => ?_⟩
      · exact List.mem_filterMap.mpr ⟨task', List.mem_set hi task', hd⟩
      · exact RunRecord.wakes_mono (hend (hended.congr rfl rfl)) (fun x hx => hle x (.inl hx))
    · rw [hst] at hrun
      cases hrun
  | hold hd hturn hrun1 hready hfull hparked =>
    rw [merge_retry_wakeup_frame]
    exact hturn.timely hrun1 rfl rfl rfl rfl rfl (fun _ hd => hd) (fun _ => rfl)
      (fun _ => by rw [show _ = r.id from hturn.frame.1.id]; exact hparked)
  | wait hd hturn hrun1 hready =>
    rw [merge_retry_wakeup_frame]
    exact hturn.timely hrun1 rfl rfl rfl rfl rfl (fun _ hd => hd) (fun _ => rfl)
      (fun hany => by rw [hready] at hany; cases hany)
  | @dispatch r r1 now _ event children i task task' hd hturn hrun1 hroom hf hreg hout hnext =>
    obtain ⟨hget, hready, -⟩ := find_task_some hf
    obtain ⟨hin, started, policy, hatt⟩ := next_dispatch_ok hnext
    unfold still_ready
    split
    · exact .of_zero rfl
    · rename_i hnone
      have hsame : SameResult task task' := by
        refine ⟨by rw [hatt], ?_⟩
        rw [hin]
        cases hst : task.state <;> rw [hst] at hready <;> first | rfl | cases hready
      rw [merge_retry_wakeup_frame] at hnone ⊢
      refine hturn.timely hrun1 rfl rfl rfl rfl rfl (fun d hd' => ?_) (fun effect_id => ?_)
        (fun hany => absurd hany hnone)
      · rcases mem_retry_times_set (r := r1) hd' with hd' | hd'
        · exact hd'
        · unfold ActivityTask.retry_due at hd'
          rw [hin] at hd'
          cases hd'
      · exact has_result_congr (r := r1) (forall₂_set (fun _ => ⟨rfl, rfl⟩) hget hsame) effect_id

/-! ## One move -/

/-- The column is the wakeup of the record, or zero. -/
def Columned (m : Machine) : Prop :=
  ∀ id r c, m.runs id = some ⟨r, c⟩ → c = r.wakeup ∨ c = some 0

theorem notified_cases (run : RunRecord) (id : String) (record : RunRecord) (c : Option ℤ) :
    notified run id record c = c ∨ notified run id record c = some 0 := by
  unfold notified
  split
  · exact .inr rfl
  · exact .inl rfl

/-- Every move leaves the wakeup of the record in the column, or zero. -/
theorem Trans.columned (h : Trans m l m') (hm : Columned m) : Columned m' := by
  intro id r' c' hr'
  cases h with
  | @change _ r run c children hs hc hf =>
    rcases Machine.commit_inv hr' with ⟨-, he⟩ | ⟨x, -, -, he⟩ | ⟨-, c, hr, he⟩
    · cases he
      exact notified_cases run id run.saved run.wakeup
    · cases he
      exact notified_cases run id r' r'.wakeup
    · have he' : c' = notified run id r' c := he
      rcases notified_cases run id r' c with h0 | h0
      · rw [he', h0]
        exact hm id r' c hr
      · rw [he', h0]
        exact .inr rfl
  | @start id0 _ _ _ run hnew hnone =>
    rcases update_some hr' with ⟨rfl, he⟩ | ⟨-, hother⟩
    · cases he
      exact .inl rfl
    · exact hm id r' c' hother
  | restart failed =>
    have hmap : (m.runs id).map reopened = some ⟨r', c'⟩ := hr'
    rw [Option.map_eq_some_iff] at hmap
    obtain ⟨⟨r, c⟩, hr, he⟩ := hmap
    unfold reopened at he
    split at he <;> cases he
    · exact .inr rfl
    · exact hm id r' c' hr
  | idle | park | unpark | hand_out | release | register_workflow | configure =>
    exact hm id r' c' hr'

theorem Reachable.columned (h : Reachable e) : Columned e.machine := by
  refine Reachable.invariant ?_ (fun m l m' ht hm => ht.columned hm) h
  intro m hm id r c hr
  rw [hm id] at hr
  cases hr

/-- The stored run `id`, if it runs, is covered by its record, and by its column
for a child that is over. -/
def TimelyAt (m : Machine) (id : String) : Prop :=
  ∀ r c, m.runs id = some ⟨r, c⟩ → r.state = .Running →
    Covered m.parked r ∧ (EndedChild m.runs r → ∃ x, c = some x ∧ x ≤ 0)

/-- A run that ends makes its parent due. -/
theorem Committed.notifies {r0 run : RunRecord} (h : Committed m l m' r0 run)
    (hends : run.state.ends = true) {id : String} {c : Option ℤ} (hp : run.parent = some id)
    (hr : m'.runs id = some ⟨r, c⟩) (hrun : r.state = .Running) : c = some 0 := by
  obtain ⟨-, run', children, -, -, rfl, -, rfl⟩ := h
  have hset : ∀ c0, notified run' id r c0 = some 0 := by
    intro c0
    refine if_pos ⟨hends, hp, ?_⟩
    unfold state
    rw [hrun]
  rcases Machine.commit_inv hr with ⟨-, he⟩ | ⟨x, -, -, he⟩ | ⟨-, c0, -, he⟩
  · cases he
    -- the run would be its own parent, and over
    have hlive : run'.state = .Running := hrun
    have hover : run'.state.ends = true := hends
    rw [hlive] at hover
    cases hover
  · cases he
    exact hset _
  · exact Eq.trans he (hset c0)

/-- After a move as before it, the column of a run with an ended child is due. -/
theorem Trans.ended_column (h : Trans m l m') (hm : Families m) {id : String} {c : Option ℤ}
    (hid : r.id = id) (hr : m'.runs id = some ⟨r, c⟩) (hrun : r.state = .Running)
    (hbefore : EndedChild m.runs r → ∃ x, c = some x ∧ x ≤ 0) (hend : EndedChild m'.runs r) :
    ∃ x, c = some x ∧ x ≤ 0 := by
  rcases h.endedChild_back hm hr hend with hold | ⟨r0, run, hcommitted, hends, hp⟩
  · exact hbefore hold
  · rw [hid] at hp
    exact ⟨0, hcommitted.notifies hends hp hr hrun, le_rfl⟩

theorem wakes_zero (h : r.wakes 0) : ∃ x, r.wakeup = some x ∧ x ≤ 0 := by
  obtain ⟨x, hx, hle⟩ := h
  exact ⟨x, hx, by simpa using hle⟩

/-- A commit that writes a timely record leaves its run timely. -/
theorem Trans.commit_timely {run : RunRecord} (h : Trans m l (m.commit run children))
    (hm : Families m)
    (hf : Fresh (Function.update m.runs run.id (some ⟨run.saved, run.saved.wakeup⟩)) children)
    (ht : run.state = .Running → Timely m run) : TimelyAt (m.commit run children) run.id := by
  intro r c hr hrun
  have hlive : run.state.ends = false → r = run.saved ∧ c = run.wakeup := by
    intro hlive
    have hself := Machine.commit_live hf hlive
    rw [hr] at hself
    cases hself
    exact ⟨rfl, rfl⟩
  have hrunning : run.state = .Running := by
    have hself := Machine.commit_self hf
    rw [hr] at hself
    cases hself
    exact hrun
  obtain ⟨rfl, rfl⟩ := hlive (by rw [hrunning]; rfl)
  obtain ⟨hcov, hend⟩ := ht hrunning
  refine ⟨⟨hcov.times, hcov.offered, hcov.ready⟩, ?_⟩
  exact h.ended_column hm rfl hr hrun (fun hold => wakes_zero (hend hold))

theorem NewRun.timely {c : Option ℤ} (h : NewRun r) (hc : c = r.wakeup ∨ c = some 0) :
    Covered m.parked r ∧ (EndedChild m.runs r → ∃ x, c = some x ∧ x ≤ 0) := by
  have hzero : c = some 0 := by
    rcases hc with hc | hc
    · rw [hc, h.wakeup]
    · exact hc
  exact ⟨.of_zero h.wakeup, fun _ => ⟨0, hzero, le_rfl⟩⟩

/-- **One move.** Only the storing of a retry time, a restart, and a report on a
run with a child that is over can leave a run late. -/
theorem Trans.timelyAt (h : Trans m l m') (hm : Families m) (hk : Tasked m) {id : String}
    (hI : TimelyAt m id) (hl : l ≠ .retry_wait id) (hnr : l ≠ .restart)
    (hkeep : l.reports → ∀ r c r' children, m.runs id = some ⟨r, c⟩ → Change m l r r' children →
      r.state = .Running → r'.state = .Running → EndedChild m.runs r → r.wakes 0) :
    TimelyAt m' id := by
  have htrans := h
  cases h with
  | @change _ r run c children hs hc hf =>
    rw [← hc.frame.id] at hf
    by_cases hid : id = r.id
    · subst hid
      rw [← hc.frame.id]
      refine htrans.commit_timely hm hf (fun hrun => hc.timely hrun hl (fun hrep hrun0 => ?_))
      exact ⟨(hI r c hs hrun0).1, hkeep hrep r c run children hs hc hrun0 hrun⟩
    · intro r' c' hr' hrun
      rcases Machine.commit_inv hr' with ⟨hself, -⟩ | ⟨x, hx, hxid, he⟩ | ⟨-, c0, hr, he⟩
      · rw [hc.frame.id] at hself
        exact absurd hself hid
      · cases he
        exact (hc.new_children _ hx).timely (notified_cases run id _ _)
      · obtain ⟨hcov, hend⟩ := hI r' c0 hr hrun
        refine ⟨⟨hcov.times, hcov.offered, hcov.ready⟩, ?_⟩
        refine htrans.ended_column hm (hk id _ hr).1 hr' hrun (fun hold => ?_)
        -- a notification only moves the column to zero
        have he' : c' = notified run id r' c0 := he
        rcases notified_cases run id r' c0 with h0 | h0
        · rw [he', h0]
          exact hend hold
        · exact ⟨0, he'.trans h0, le_rfl⟩
  | @start id0 _ _ _ run hnew hnone =>
    intro r' c' hr' hrun
    rcases update_some hr' with ⟨rfl, he⟩ | ⟨-, hother⟩
    · cases he
      exact (new_run_ok hnew).1.timely (.inl rfl)
    · obtain ⟨hcov, hend⟩ := hI r' c' hother hrun
      exact ⟨⟨hcov.times, hcov.offered, hcov.ready⟩,
        htrans.ended_column hm (hk id _ hother).1 hr' hrun hend⟩
  | @park id0 =>
    intro r c hr hrun
    obtain ⟨hcov, hend⟩ := hI r c hr hrun
    refine ⟨⟨hcov.times, hcov.offered, fun hany => ?_⟩, hend⟩
    rcases hcov.ready hany with hp | hw
    · exact .inl (List.mem_insert_of_mem hp)
    · exact .inr hw
  | @unpark id0 hguard =>
    intro r c hr hrun
    obtain ⟨hcov, hend⟩ := hI r c hr hrun
    by_cases hid : id = id0
    · -- a run is only unparked after it was made due
      subst hid
      obtain ⟨hw, -⟩ := hguard ⟨r, c⟩ hr hrun
      exact ⟨.of_zero hw, hend⟩
    · refine ⟨⟨hcov.times, hcov.offered, fun hany => ?_⟩, hend⟩
      rcases hcov.ready hany with hp | hw
      · left
        rw [(hk id _ hr).1] at hp ⊢
        exact (List.mem_erase_of_ne hid).mpr hp
      · exact .inr hw
  | restart => exact absurd rfl hnr
  | idle | hand_out | release | register_workflow | configure => exact hI

/-- A move that settles a run leaves it timely. -/
theorem Trans.settles_timely (h : Trans m l m') (hm : Families m) {id : String}
    (hl : l.settles id) :
    TimelyAt m' id := by
  have htrans := h
  cases h with
  | @change _ r run c children hs hc hf =>
    rw [← hc.frame.id] at hf
    have hid : id = r.id ∧ ¬ l.reports ∧ l ≠ .retry_wait r.id := by
      cases hc <;> first | exact ⟨hl.symm, fun h => h, by simp⟩ | exact hl.elim
    obtain ⟨rfl, hrep, hne⟩ := hid
    rw [← hc.frame.id]
    exact htrans.commit_timely hm hf (fun hrun => hc.timely hrun hne (fun h => absurd h hrep))
  | @idle r c now hs hd hidle =>
    cases hl
    intro r' c' hr' hrun
    rw [hs] at hr'
    cases hr'
    obtain ⟨hdue, -⟩ := hidle.due
    obtain ⟨hoff, hend⟩ := hidle.nothing
    refine ⟨⟨fun d hd => wakes_of_due hdue hd, fun h => ?_, fun h => ?_⟩, fun h => absurd h hend⟩
    · rw [hoff] at h
      cases h
    · rw [hidle.no_ready] at h
      cases h
  | _ => exact hl.elim

/-! ## The drive that stores a retry time -/

/-- The run has something to do before `w`. -/
def RunRecord.Misses (v : String → Option Entry) (parked : List String) (r : RunRecord) (w : ℤ) :
    Prop :=
  (∃ d ∈ r.deadlines, d < w) ∨ r.offered = true ∨ EndedChild v r
    ∨ (r.tasks.any (fun task => task.state.is_ready) = true ∧ r.id ∉ parked)

/-- Storing the earliest retry leaves a run timely unless there is something to do before. -/
theorem Trans.retry_wait_timely {id : String} (h : Trans m (.retry_wait id) m') (hm : Families m) :
    ∃ r c w, m.runs id = some ⟨r, c⟩ ∧ r.state.drivable = true ∧ retry_wakeup r = some w
      ∧ r.wakeup ≠ some w ∧ (¬ (0 < w ∧ r.Misses m.runs m.parked w) → TimelyAt m' id) := by
  have htrans := h
  cases h with
  | @change _ r run c children hs hc hf =>
    rw [← hc.frame.id] at hf
    cases hc with
    | @retry_wait _ now w tasks hd hadv hw hne =>
      obtain ⟨-, hsame, -⟩ := advance_tasks_ok hadv
      have htasks := hsame rfl rfl
      subst htasks
      have hw' : retry_wakeup r = some w := by
        rw [← begun_retry_wakeup]
        exact hw
      refine ⟨r, c, w, hs, hd, hw', hne, fun hmiss => ?_⟩
      refine htrans.commit_timely hm hf (fun _ => ?_)
      have hmin : ∀ d ∈ r.retry_times, w ≤ d := by
        intro d hd
        exact (List.min?_eq_some_iff.mp hw').2 d hd
      have hwake : ∀ d, w ≤ max d 0 →
          ({ begun r with tasks := (begun r).tasks, wakeup := some w } : RunRecord).wakes d :=
        fun d hle => ⟨w, rfl, hle⟩
      -- either `w` is not in the future of the epoch, or nothing is missed
      by_cases hpos : 0 < w
      · have hno : ¬ r.Misses m.runs m.parked w := fun h => hmiss ⟨hpos, h⟩
        refine ⟨⟨fun d hd => hwake d ?_, fun hoff => ?_, fun hany => ?_⟩, fun hend => ?_⟩
        · rcases List.mem_append.mp hd with hd | hd
          · by_contra hlt
            exact hno (.inl ⟨d, hd, by omega⟩)
          · have hd' : d ∈ (begun r).retry_times := hd
            rw [begun_retry_times] at hd'
            exact (hmin d hd').trans (le_max_left d 0)
        · exact absurd (.inr (.inl ((begun_offered r).symm.trans hoff))) hno
        · left
          by_contra hp
          refine hno (.inr (.inr (.inr ⟨?_, hp⟩)))
          obtain ⟨task, ht, hready⟩ := List.any_eq_true.mp hany
          obtain ⟨task0, ht0, rfl⟩ := List.mem_map.mp ht
          exact List.any_eq_true.mpr ⟨task0, ht0, hready⟩
        · exact absurd (.inr (.inr (.inl (hend.congr rfl rfl)))) hno
      · have hle : ∀ d, w ≤ max d 0 := fun d => by omega
        exact ⟨⟨fun d _ => hwake d (hle d), fun _ => hwake 0 (hle 0), fun _ =>
          .inr (hwake 0 (hle 0))⟩, fun _ => hwake 0 (hle 0)⟩

/-! ## Attempts without a restart -/

/-- Every attempt that is out was handed out under the current epoch. -/
def Owned (m : Machine) : Prop :=
  ∀ id r c, m.runs id = some ⟨r, c⟩ → ∀ task ∈ r.tasks, task.state.held = true →
    task.attempt.owner_epoch = m.epoch

/-- An attempt that is out after a move is of the current epoch if it was before. -/
theorem TaskMove.owned {id : String} {t t' : ActivityTask} (h : TaskMove m id l t t')
    (ht : t.state.held = true → t.attempt.owner_epoch = m.epoch) (hheld : t'.state.held = true) :
    t'.attempt.owner_epoch = m.epoch := by
  cases h with
  | kept ha hs =>
    rw [ha]
    exact ht (hs ▸ hheld)
  | invoked hin ha =>
    rw [ha]
    exact ht (by rw [hin]; rfl)
  | dispatched _ ha => rw [ha]
  | rejected _ _ hs | missing _ _ hs | retried _ _ _ hs =>
    rw [hs] at hheld
    cases hheld
  | completed _ _ _ hs =>
    rw [hs] at hheld
    cases hheld
  | failed _ hep ha => rw [ha, hep]
  | interrupted _ _ hs =>
    rw [hs] at hheld
    split at hheld <;> cases hheld
  | @resolved _ _ observed _ _ hs =>
    rw [hs] at hheld
    cases observed <;> cases hheld

/-- No move but a restart leaves an attempt out under an earlier epoch. -/
theorem Trans.owned (h : Trans m l m') (hnr : l ≠ .restart) (hm : Owned m) : Owned m' := by
  have hepoch : m'.epoch = m.epoch := by
    cases h with
    | restart => exact absurd rfl hnr
    | _ => rfl
  intro id r' c' hr'
  rw [hepoch]
  rcases h.backward hr' with ⟨c, hr⟩ | ⟨r, c, run, children, hr, -, hc, rfl⟩ | ⟨-, hn, -⟩
  · exact hm id r' c hr
  · intro t' ht' hheld
    obtain ⟨base, hgrown, hmoves⟩ := hc.tasks
    obtain ⟨i, hi⟩ := List.getElem?_of_mem ht'
    obtain ⟨t, ht, hmove⟩ := (forall₂_getElem? hmoves).2 t' hi
    refine hmove.owned (fun hth => ?_) hheld
    rcases hgrown with rfl | ⟨_, _, _, _, _, -, rfl⟩
    · exact hm id r c hr t (List.mem_of_getElem? ht) hth
    · rcases List.mem_append.mp (List.mem_of_getElem? ht) with hmem | hmem
      · exact hm id r c hr t hmem hth
      · rw [List.mem_singleton.mp hmem] at hth
        cases hth
  · intro t ht
    rw [hn.tasks] at ht
    cases ht

/-- A drive recovers nothing where every attempt is of the current epoch. -/
theorem Path.no_recovery {id : String} {ls0 ls1 : List Label}
    (hp : Path Trans m (ls0 ++ .retry_wait id :: ls1) m') (hm : Owned m)
    (h0 : ∀ l ∈ ls0, l = .recover id) : ls0 = [] := by
  cases ls0 with
  | nil => rfl
  | cons l ls0 =>
    exfalso
    obtain rfl := h0 l List.mem_cons_self
    obtain ⟨t1, hp0, hp1⟩ := hp.split
    -- the first recovery
    have hspent : ∃ r c, m.runs id = some ⟨r, c⟩ ∧ r.spent := by
      cases hp0 with
      | cons hfirst _ =>
        cases hfirst with
        | @change _ r run c children hs hc hf =>
          cases hc with
          | recover hset hfail hany =>
            obtain ⟨task, ht, hi⟩ := List.any_eq_true.mp hany
            unfold ActivityTask.interrupted at hi
            obtain ⟨hheld, hi⟩ := Bool.and_eq_true_iff.mp hi
            rw [hm r.id r c hs task ht hheld] at hi
            have hex : r.retry_exhausted = true := by
              by_contra hne
              simp [Bool.eq_false_iff.mpr hne] at hi
            obtain ⟨hstate, hreason⟩ := RunRecord.retry_exhausted_iff.mp hex
            exact ⟨r, c, hs, .inl hstate⟩
    have hstays : ∃ r c, t1.runs id = some ⟨r, c⟩ ∧ r.spent := by
      refine Path.keeps (I := fun m => ∃ r c, m.runs id = some ⟨r, c⟩ ∧ r.spent) hp0
        (fun l hl m1 m2 ht h1 => ht.spent h1 (fun r c r' children _ _ _ _ => ?_)) hspent
      rw [h0 l hl]
      exact ⟨by simp, by simp, by simp⟩
    obtain ⟨r, c, hr, hsp⟩ := hstays
    cases hp1 with
    | cons hretry _ =>
      cases hretry with
      | change hs hc _ =>
        cases hc with
        | retry_wait hd =>
          rw [hs] at hr
          cases hr
          rw [hsp.not_drivable] at hd
          cases hd

/-! ## Steps that lose a wakeup -/

/-- The step reports on an activity of the running run `id` and keeps it running,
while a child it selects on is over and its record does not know. -/
def Erases (e : Engine) (step : Step) (id : String) : Prop :=
  ∃ r a i task, e.store.load id = .ok r ∧ r.state = .Running ∧ EndedChild e.store.view r
    ∧ ¬ r.wakes 0 ∧ owned_attempt r a e.store.epoch = .ok (i, task)
    ∧ ((task.state = .InFlight ∧ ∃ resolver started_at_ms bytes,
          step.op = .prepare_registered_at a resolver started_at_ms
            ∧ resolver a.input = .ok (some bytes))
      ∨ ∃ failure failed_at_ms execution task' retry, step.op = .fail_at a failure failed_at_ms
          ∧ mark_execution task.attempt task.execution task.attempt.started_at_ms = .ok execution
          ∧ failed_task task execution failure failed_at_ms e.retry_policy = .ok task'
          ∧ task'.state = .Retrying retry)

/-- The step is a drive of the run `id` that fails, and the earliest retry of the
run, which a drive stores first, comes after something else it has to do. -/
def Stalls (e : Engine) (step : Step) (id : String) : Prop :=
  ∃ r now resolver w, e.store.load id = .ok r ∧ r.state.drivable = true
    ∧ step.op = .drive_with_resolver id now resolver
    ∧ (∃ error, (step.exec e).1 = .error error) ∧ retry_wakeup r = some w ∧ max now 0 < w
    ∧ r.wakeup ≠ some w ∧ r.Misses e.store.view e.parked w

/-- A failure that keeps the run going stores the retry of its task. -/
theorem Change.backs_off {a : ActivityAttempt} {failure : ActivityFailure} {failed_at_ms : ℤ}
    (h : Change m (.fail a failure failed_at_ms) r r' children) (hrun : r'.state = .Running) :
    ∃ i task execution task' retry, owned_attempt r a m.epoch = .ok (i, task)
      ∧ mark_execution task.attempt task.execution task.attempt.started_at_ms = .ok execution
      ∧ failed_task task execution failure failed_at_ms m.retry_policy = .ok task'
      ∧ task'.state = .Retrying retry := by
  cases h with
  | @fail _ _ i task task' execution _ _ hown hmark hfail =>
    obtain ⟨-, hst⟩ := failed_task_ok hfail
    rcases hst with ⟨-, hst | ⟨retry, hst⟩⟩ | hst
    · rw [hst] at hrun
      exact absurd hrun (mark_retry_exhausted_not_running _)
    · exact ⟨i, task, execution, task', retry, hown, hmark, hfail, hst⟩
    · rw [hst] at hrun
      cases hrun

/-- **One step.** -/
theorem Step.timelyAt (he : Reachable e) (step : Step) {id : String} (howned : Owned e.machine)
    (hI : TimelyAt e.machine id) (hnr : ∀ failed, step.op ≠ .restart failed)
    (herase : ¬ Erases e step id) (hstall : ¬ Stalls e step id) :
    Owned (step.exec e).2.machine ∧ TimelyAt (step.exec e).2.machine id := by
  obtain ⟨ls, hp, -, hout⟩ := step.path he.wellFormed
  have hnorestart : ∀ l ∈ ls, l ≠ .restart := by
    rintro l hl rfl
    obtain ⟨failed, hop⟩ := hout.restarted hl
    exact hnr failed hop
  have hload : ∀ r c, e.machine.runs id = some ⟨r, c⟩ → e.store.load id = .ok r :=
    fun r c hr => (load_iff he.wellFormed).mpr ⟨c, hr⟩
  refine ⟨hp.keeps (fun l hl m1 m2 ht => ht.owned (hnorestart l hl)) howned, ?_⟩
  -- a stretch of the call that stores no retry time and reports nothing
  have hplain : ∀ m m' ls', Path Trans m ls' m' →
      (∀ l ∈ ls', l ∈ ls ∧ l ≠ .retry_wait id ∧ ¬ l.reports) → Families m ∧ Tasked m →
      TimelyAt m id → TimelyAt m' id := by
    intro m m' ls' hp' hls hinv h0
    have hall : (Families m' ∧ Tasked m') ∧ TimelyAt m' id := by
      refine Path.keeps (I := fun m => (Families m ∧ Tasked m) ∧ TimelyAt m id) hp'
        (fun l hl m1 m2 ht h1 => ?_) ⟨hinv, h0⟩
      obtain ⟨⟨hf, hk⟩, h1⟩ := h1
      obtain ⟨hmem, hne, hrep⟩ := hls l hl
      exact ⟨⟨ht.families hf, ht.tasked hk⟩,
        ht.timelyAt hf hk h1 hne (hnorestart l hmem) (fun h => absurd h hrep)⟩
    exact hall.2
  have hinv : Families e.machine ∧ Tasked e.machine := ⟨he.families, he.tasked⟩
  generalize hm' : (step.exec e).2.machine = m' at hp
  by_cases hrep : ∃ l ∈ ls, l.reports
  · -- a report is the first thing its call does, on the state before the step
    obtain ⟨l, hl, hlr⟩ := hrep
    have hfirst : ∃ a ls', ls = l :: ls' ∧ (∀ l' ∈ ls', l'.releases a)
        ∧ ∀ r c r' children, e.machine.runs id = some ⟨r, c⟩ →
          Change e.machine l r r' children → r.state = .Running → r'.state = .Running →
          EndedChild e.machine.runs r → r.wakes 0 := by
      cases l with
      | invoke a =>
        obtain ⟨⟨resolver, started_at_ms, bytes, hop, hbytes⟩, hls⟩ := hout.invoked hl
        refine ⟨a, [], hls, by simp, fun r c r' children hr hc hrun _ hend => ?_⟩
        by_contra hlate
        cases hc with
        | @invoke _ _ i task _ _ hown hin _ =>
          exact herase ⟨r, a, i, task, hload r c hr, hrun, hend, hlate, hown,
            .inl ⟨hin, resolver, started_at_ms, bytes, hop, hbytes⟩⟩
      | fail a failure failed_at_ms =>
        obtain ⟨hop, ls', hls, hrel⟩ := hout.reported hl
        refine ⟨a, ls', hls, hrel, fun r c r' children hr hc hrun hrun' hend => ?_⟩
        by_contra hlate
        obtain ⟨i, task, execution, task', retry, hown, hmark, hfail, hst⟩ := hc.backs_off hrun'
        exact herase ⟨r, a, i, task, hload r c hr, hrun, hend, hlate, hown,
          .inr ⟨failure, failed_at_ms, execution, task', retry, hop, hmark, hfail, hst⟩⟩
      | _ => exact hlr.elim
    obtain ⟨a, ls', rfl, hrel, hkeep⟩ := hfirst
    cases hp with
    | cons htrans hrest =>
      have hne : l ≠ .retry_wait id := by
        rintro rfl
        exact hlr
      refine hplain _ _ ls' hrest (fun l' hl' => ⟨List.mem_cons_of_mem _ hl', ?_⟩)
        ⟨htrans.families hinv.1, htrans.tasked hinv.2⟩
        (htrans.timelyAt hinv.1 hinv.2 hI hne (hnorestart l hl) (fun _ => hkeep))
      have := hrel l' hl'
      cases l' <;> first | exact this.elim | exact ⟨by simp, fun h => h⟩
  · have hquiet : ∀ l ∈ ls, ¬ l.reports := fun l hl h => hrep ⟨l, hl, h⟩
    by_cases hwait : .retry_wait id ∈ ls
    · -- the drive stores the earliest retry, before anything else
      obtain ⟨now, resolver, hop, out, hres, hdrove⟩ := hout.retried hwait
      obtain ⟨ls0, ls1, rfl, h0, hearly, hone, hsettled⟩ := hdrove.settled hwait
      obtain rfl := Path.no_recovery hp howned h0
      cases hp with
      | cons hretry hrest =>
        obtain ⟨r, c, w, hr, hd, hw, hne, htimely⟩ := hretry.retry_wait_timely hinv.1
        have hinv1 := And.intro (hretry.families hinv.1) (hretry.tasked hinv.2)
        have hls1 : ∀ l ∈ ls1, l ∈ [] ++ Label.retry_wait id :: ls1 ∧ l ≠ .retry_wait id
            ∧ ¬ l.reports := by
          intro l hl
          have hmem : l ∈ [] ++ Label.retry_wait id :: ls1 := List.mem_cons_of_mem _ hl
          refine ⟨hmem, ?_, hquiet l hmem⟩
          rintro rfl
          exact hone hl
        by_cases hmiss : 0 < w ∧ r.Misses e.machine.runs e.machine.parked w
        · -- something is missed, so the drive did not fail, and settled the run later
          have hok : ∃ o, out = .ok o := by
            cases out with
            | ok o => exact ⟨o, rfl⟩
            | error error =>
              exfalso
              have hlater : now < w := by
                refine early_iff.mp (hearly rfl r c hr) w ?_
                rw [begun_retry_wakeup]
                exact hw
              exact hstall ⟨r, now, resolver, w, hload r c hr, hd, hop, ⟨error, hres⟩, hw,
                by omega, hne, hmiss.2⟩
          obtain ⟨l, hl, hlset⟩ := hsettled hok
          obtain ⟨before, rest, rfl⟩ := List.append_of_mem hl
          obtain ⟨t1, hp0, hp1⟩ := hrest.split
          cases hp1 with
          | cons hset hrest' =>
            have hinv2 : Families t1 ∧ Tasked t1 :=
              Path.keeps (I := fun m => Families m ∧ Tasked m) hp0
                (fun l _ m1 m2 ht h1 => ⟨ht.families h1.1, ht.tasked h1.2⟩) hinv1
            exact hplain _ _ rest hrest'
              (fun l' hl' => hls1 l' (List.mem_append_right _ (List.mem_cons_of_mem _ hl')))
              ⟨hset.families hinv2.1, hset.tasked hinv2.2⟩ (hset.settles_timely hinv2.1 hlset)
        · exact hplain _ _ ls1 hrest hls1 hinv1 (htimely hmiss)
    · refine hplain _ _ ls hp (fun l hl => ⟨hl, ?_, hquiet l hl⟩) hinv hI
      rintro rfl
      exact hwait hl

/-! ## No lost wakeup -/

/-- At `t`, a drive of the stored run would get further: a time it waits for has
come, a signal or a result it waits for is there, a child it waits for is over, or
a task of it is ready and there is a free slot. -/
def Progress (e : Engine) (r : RunRecord) (t : ℤ) : Prop :=
  (∃ d ∈ r.deadlines ++ r.retry_times, d ≤ t) ∨ r.offered = true ∨ EndedChild e.store.view r
    ∨ (r.tasks.any (fun task => task.state.is_ready) = true
      ∧ e.dispatched.entries.length < e.dispatch_limit)

/-- A run is due at `t` when its column has a time up to `t`. -/
theorem due_iff (hw : WellFormed e.store) {id : String} {c : Option ℤ}
    (hr : e.machine.runs id = some ⟨r, c⟩) (hrun : r.state = .Running) {t : ℤ} :
    (∃ row, e.store.engine_runs.lookup id = some row ∧ row.due t = true)
      ↔ ∃ x, c = some x ∧ x ≤ t := by
  have hv : e.store.view id = some ⟨r, c⟩ := hr
  unfold SqliteStore.view at hv
  cases hrow : e.store.engine_runs.lookup id with
  | none =>
    rw [hrow] at hv
    cases hv
  | some row =>
    rw [hrow] at hv
    cases hv
    have hstate : row.state = .running := by
      rw [hw.column id row hrow]
      unfold state
      have hs : row.record.state = .Running := hrun
      rw [hs]
    unfold Row.due
    cases hc : row.wakeup with
    | none => simp [hc]
    | some x => simp [hstate, hc]

/-- **No lost wakeup.** Take any run of the engine without a restart in which no
step erases the wakeup of the run `id`, and none stalls it. At every point of it, if
`id` is stored as running, is not parked, and could get further at `t`, its column is
not null and not after `t`, so that a poll at `t` finds it. -/
theorem no_lost_wakeup (codec : Codec) (sha256_hex : String → String) (steps : List Step)
    (id : String)
    (hsteps : ∀ n step, steps[n]? = some step → (∀ failed, step.op ≠ .restart failed)
      ∧ ¬ Erases (after (Engine.init codec sha256_hex) (steps.take n)) step id
      ∧ ¬ Stalls (after (Engine.init codec sha256_hex) (steps.take n)) step id)
    (n : ℕ) (r : RunRecord)
    (hr : (after (Engine.init codec sha256_hex) (steps.take n)).store.load id = .ok r)
    (hrun : r.state = .Running)
    (hparked : id ∉ (after (Engine.init codec sha256_hex) (steps.take n)).parked)
    (t : ℤ) (ht : 0 ≤ t)
    (hprogress : Progress (after (Engine.init codec sha256_hex) (steps.take n)) r t) :
    ∃ row, (after (Engine.init codec sha256_hex) (steps.take n)).store.engine_runs.lookup id
      = some row ∧ row.due t = true := by
  have hreach : Reachable (after (Engine.init codec sha256_hex) (steps.take n)) :=
    ⟨codec, sha256_hex, steps.take n, rfl⟩
  have hall : Owned (after (Engine.init codec sha256_hex) (steps.take n)).machine
      ∧ TimelyAt (after (Engine.init codec sha256_hex) (steps.take n)).machine id := by
    refine after_induction (P := fun e => Owned e.machine ∧ TimelyAt e.machine id)
      (Nat.zero_le n) ⟨?_, ?_⟩ ?_
    · intro id' r' c' hr'
      exact absurd ((init_runs codec sha256_hex id').symm.trans hr') (by simp)
    · intro r' c' hr'
      exact absurd ((init_runs codec sha256_hex id).symm.trans hr') (by simp)
    · intro k step _ _ hk hreach ih
      obtain ⟨h1, h2, h3⟩ := hsteps k step hk
      exact step.timelyAt hreach ih.1 ih.2 h1 h2 h3
  generalize after (Engine.init codec sha256_hex) (steps.take n) = e at *
  obtain ⟨c, hc⟩ := (load_iff hreach.wellFormed).mp hr
  obtain ⟨hcov, hend⟩ := hall.2 r c hc hrun
  rw [due_iff hreach.wellFormed hc hrun]
  -- what the record is woken for, the column is
  have hcolumn : ∀ d, d ≤ t → r.wakes d → ∃ x, c = some x ∧ x ≤ t := by
    rintro d hd ⟨x, hx, hle⟩
    rcases hreach.columned id r c hc with h0 | h0
    · exact ⟨x, h0.trans hx, by omega⟩
    · exact ⟨0, h0, ht⟩
  rcases hprogress with ⟨d, hd, hdt⟩ | hoff | hended | ⟨hready, -⟩
  · exact hcolumn d hdt (hcov.times d hd)
  · exact hcolumn 0 ht (hcov.offered hoff)
  · obtain ⟨x, hx, hle⟩ := hend hended
    exact ⟨x, hx, hle.trans ht⟩
  · rcases hcov.ready hready with hp | hw
    · rw [(hreach.tasked id _ hc).1] at hp
      exact absurd hp hparked
    · exact hcolumn 0 ht hw

/-- A run waits for a signal, and the signal has come. -/
def Sample.called : List Step :=
  Sample.start (fun _ => .signal "go" .ret)
    ++ [Sample.drive "run" 0, Sample.call (.signal "run" "go" Sample.payload)]

/-- The run is due once its signal has come. -/
theorem no_lost_wakeup_called :
    ∃ row, (after (Engine.init Sample.codec id) (Sample.called.take 5)).store.engine_runs.lookup
      "run" = some row ∧ row.due 0 = true := by
  have hfacts : ((after (Engine.init Sample.codec id) (Sample.called.take 5)).store.load "run").map
      (fun r => (r.state, r.offered)) = .ok (.Running, true) := by
    decide +kernel
  cases hr : (after (Engine.init Sample.codec id) (Sample.called.take 5)).store.load "run" with
  | error error =>
    rw [hr] at hfacts
    cases hfacts
  | ok r =>
    rw [hr] at hfacts
    have hpair := Prod.ext_iff.mp (Except.ok.inj hfacts)
    refine no_lost_wakeup Sample.codec id Sample.called "run" ?_ 5 r hr hpair.1 (by decide +kernel)
      0 le_rfl (.inr (.inl hpair.2))
    intro n step hn
    have hops : ∀ step ∈ Sample.called, (∀ failed, step.op ≠ .restart failed)
        ∧ (∀ a resolver at_ms, step.op ≠ .prepare_registered_at a resolver at_ms)
        ∧ ∀ a failure at_ms, step.op ≠ .fail_at a failure at_ms := by
      simp [Sample.called, Sample.start, Sample.drive, Sample.call]
    obtain ⟨h1, h2, h3⟩ := hops step (List.mem_of_getElem? hn)
    refine ⟨h1, ?_, ?_⟩
    · rintro ⟨_, a, _, _, _, _, _, _, _, ⟨_, _, _, _, hop, _⟩ | ⟨_, _, _, _, _, hop, _⟩⟩
      · exact h2 _ _ _ hop
      · exact h3 _ _ _ hop
    · -- the one drive does not fail
      rintro ⟨_, now, resolver, _, _, _, hop, ⟨error, herror⟩, _⟩
      have hok : ((Sample.drive "run" 0).exec
          (after (Engine.init Sample.codec id) (Sample.called.take 3))).1
            = .ok (.drive .Waiting) := by
        decide +kernel
      rcases n with _ | _ | _ | _ | _ | n
      · cases hn
        cases hop
      · cases hn
        cases hop
      · cases hn
        cases hop
      · cases hn
        cases hok.symm.trans herror
      · cases hn
        cases hop
      · cases hn

def Sample.child_first : Workflow := fun input =>
  .child "leaf" "1" input (.and_then fun child =>
    .spawn_activity "a" "1" input .Idempotent (.and_then fun activity =>
      .join_child child (.and_then fun _ => .join_activity activity .ret)))

/-- The activity is out, and the child has returned. -/
def Sample.child_over : List Step :=
  Sample.start Sample.child_first
    ++ [Sample.call (.register_workflow "leaf" "1" (fun input => .ret (.ok input))),
      Sample.drive "run" 0, Sample.drive (derived_id id "run" 'c' 0) 0]

def Sample.child_forgotten : List Step :=
  Sample.child_over ++ [Sample.call (.prepare_registered_at (Sample.attempt 1 1 1 .Idempotent)
    (fun _ => .ok (some [])) 0)]

/-- The end of the child makes its parent due. The start of an activity of the
parent takes that back: the run is running, not parked, selects on a child that is
over, and its column is null. -/
theorem wakeup_erased :
    (Sample.host Sample.child_over).store.runnable 0 8 = .ok ["run"]
      ∧ (∃ r, (Sample.host Sample.child_forgotten).store.load "run" = .ok r ∧ r.state = .Running
          ∧ "run" ∉ (Sample.host Sample.child_forgotten).parked
          ∧ ∀ t, Progress (Sample.host Sample.child_forgotten) r t)
      ∧ ∀ t, ¬ ∃ row, (Sample.host Sample.child_forgotten).store.engine_runs.lookup "run" = some row
          ∧ row.due t = true := by
  have hfacts : ((Sample.host Sample.child_forgotten).store.load "run").map
      (fun r => (r.state, r.open_event.map (·.command), r.children))
        = .ok (.Running, some (.Select [.Child ⟨derived_id id "run" 'c' 0⟩]),
          [derived_id id "run" 'c' 0]) := by
    decide +kernel
  have hlatest : (latest_view (Sample.host Sample.child_forgotten).store.view
      (derived_id id "run" 'c' 0)).map (·.state) = some .Completed := by
    decide +kernel
  have hcolumn : ((Sample.host Sample.child_forgotten).store.engine_runs.lookup "run").map
      (·.wakeup) = some none := by
    decide +kernel
  refine ⟨by decide +kernel, ?_, ?_⟩
  · cases hr : (Sample.host Sample.child_forgotten).store.load "run" with
    | error error =>
      rw [hr] at hfacts
      cases hfacts
    | ok r =>
      rw [hr] at hfacts
      obtain ⟨hstate, hrest⟩ := Prod.ext_iff.mp (Except.ok.inj hfacts)
      obtain ⟨hopen, hchildren⟩ := Prod.ext_iff.mp hrest
      refine ⟨r, rfl, hstate, by decide +kernel, fun t => .inr (.inr (.inl ?_))⟩
      obtain ⟨event, hevent, hcmd⟩ := Option.map_eq_some_iff.mp hopen
      obtain ⟨run, hrun, hdone⟩ := Option.map_eq_some_iff.mp hlatest
      refine ⟨event, hevent, ?_⟩
      rw [hcmd]
      refine ⟨⟨derived_id id "run" 'c' 0⟩, List.mem_cons_self, ?_, run, hrun, by rw [hdone]; rfl⟩
      have hchildren' : r.children = [derived_id id "run" 'c' 0] := hchildren
      rw [hchildren']
      exact List.mem_singleton_self _
  · rintro t ⟨row, hrow, hdue⟩
    rw [hrow] at hcolumn
    have hnone : row.wakeup = none := Option.some.inj hcolumn
    unfold Row.due at hdue
    rw [hnone] at hdue
    simp at hdue

end Appcall.Durable
