/-
What a run waits for, and when it has to be looked at again.

A run that waits has one unresolved command. `deadlines` are the times it names,
`Offered` says that a signal or a result it waits for is already there, and
`EndedChild` that a child it waits for is over. `Turn.waits` is the one fact about
the evaluation that the two files on wakeups rest on: a turn that ends in waiting
found none of these, and computed the earliest deadline.
-/
import Appcall.Engine.Runs

set_option autoImplicit false

namespace Appcall.Durable

open Appcall.Refine

/-! ## The unresolved command -/

def RunRecord.open_event (r : RunRecord) : Option HistoryEvent := r.history[seal_end r.history]?

def WaitSource.deadline : WaitSource → Option ℤ
  | .Timer deadline => some deadline
  | _ => none

def Command.deadlines : Command → List ℤ
  | .Timer deadline => [deadline]
  | .Select sources => sources.filterMap WaitSource.deadline
  | _ => []

def RunRecord.deadlines (r : RunRecord) : List ℤ :=
  match r.open_event with
  | some event => event.command.deadlines
  | none => []

def RunRecord.retry_times (r : RunRecord) : List ℤ := r.tasks.filterMap ActivityTask.retry_due

/-- The earliest of the pending deadlines and retry times of a run. -/
def RunRecord.due (r : RunRecord) : Option ℤ := (r.deadlines ++ r.retry_times).min?

/-- A signal of the name has not been consumed. -/
def RunRecord.has_signal (r : RunRecord) (name : String) : Bool :=
  r.signals.any (fun s => decide (s.name = name) && !s.consumed)

def RunRecord.has_result (r : RunRecord) (effect_id : String) : Bool :=
  (r.task? effect_id).any (fun task => task.state.is_done)

def WaitSource.offered (r : RunRecord) : WaitSource → Bool
  | .Signal name => r.has_signal name
  | .Activity activity => r.has_result activity.effect_id
  | _ => false

/-- The signal or the result a command waits for is there; `index` is its
position in the history. -/
def Command.offered (r : RunRecord) (index : ℕ) : Command → Bool
  | .Signal name => r.has_signal name
  | .Activity _ _ _ _ false => r.has_result (effect_id_at r.id index)
  | .Select sources => sources.any (WaitSource.offered r)
  | _ => false

/-- A signal or a result that the unresolved command waits for is there. -/
def RunRecord.offered (r : RunRecord) : Bool :=
  r.open_event.any (fun event => event.command.offered r (seal_end r.history))

/-- A child of the run that the command selects on is over. -/
def Command.ended_child (v : String → Option Entry) (r : RunRecord) : Command → Prop
  | .Select sources => ∃ child, .Child child ∈ sources ∧ child.run_id ∈ r.children
      ∧ ∃ run, latest_view v child.run_id = some run ∧ run.state.ends = true
  | _ => False

/-- A child that the unresolved command selects on is over. -/
def EndedChild (v : String → Option Entry) (r : RunRecord) : Prop :=
  ∃ event, r.open_event = some event ∧ event.command.ended_child v r

/-! ## Evaluations that wait -/

theorem take_signal_none {signals : List SignalEvent} {name : String} :
    take_signal signals name = none ↔
      signals.any (fun s => decide (s.name = name) && !s.consumed) = false := by
  induction signals with
  | nil => simp [take_signal]
  | cons s signals ih =>
    unfold take_signal
    by_cases hs : s.name = name ∧ s.consumed = false
    · simp [hs.1, hs.2]
    · rw [if_neg hs, Option.map_eq_none_iff, ih]
      have hhead : (decide (s.name = name) && !s.consumed) = false := by
        by_contra hne
        simp only [Bool.not_eq_false, Bool.and_eq_true, decide_eq_true_eq, Bool.not_eq_true'] at hne
        exact hs hne
      rw [List.any_cons, hhead, Bool.false_or]

variable {r r' : RunRecord} {v : String → Option Entry} {children : List RunRecord}

theorem has_result_false {effect_id : String} {task : ActivityTask}
    (h : r.task? effect_id = some task) (hd : task.state.is_done = false) :
    r.has_result effect_id = false := by
  unfold RunRecord.has_result
  rw [h]
  exact hd

/-- The earliest of a wakeup and further deadlines. -/
def earliest (wakeup : Option ℤ) (deadlines : List ℤ) : Option ℤ :=
  (wakeup.toList ++ deadlines).min?

theorem earliest_cons (wakeup : Option ℤ) (d : ℤ) (deadlines : List ℤ) :
    earliest wakeup (d :: deadlines) = earliest (some (min_wakeup wakeup d)) deadlines := by
  cases wakeup with
  | none => rfl
  | some w => rfl

/-- A list of sources that has nothing for the run at `now`. -/
structure Quiet (v : String → Option Entry) (now : ℤ) (r : RunRecord)
    (sources : List WaitSource) : Prop where
  later : ∀ d ∈ sources.filterMap WaitSource.deadline, now < d
  offered : ∀ s ∈ sources, s.offered r = false
  children : ∀ child, .Child child ∈ sources → ∀ run,
    latest_view v child.run_id = some run → run.state.ends = false

theorem Quiet.nil (v : String → Option Entry) (now : ℤ) (r : RunRecord) : Quiet v now r [] :=
  ⟨by simp, by simp, by simp⟩

theorem WaitSource.offered_congr (hs : r'.signals = r.signals) (ht : r'.tasks = r.tasks)
    (s : WaitSource) : s.offered r' = s.offered r := by
  cases s with
  | Signal name =>
    unfold WaitSource.offered RunRecord.has_signal
    rw [hs]
  | Activity activity =>
    unfold WaitSource.offered RunRecord.has_result RunRecord.task?
    rw [ht]
  | Timer | Child => rfl

/-- **A select that found nothing** computed its earliest deadline. -/
theorem Selects.waits {now : ℤ} {i : ℕ} {sources : List WaitSource} {value : Option CommandValue}
    (h : Selects v now r i sources value r') (hv : value = none) (hrun : r'.state = .Running) :
    r'.wakeup = earliest r.wakeup (sources.filterMap WaitSource.deadline)
      ∧ Quiet v now r sources ∧ r' = { r with wakeup := r'.wakeup } := by
  induction h with
  | nothing r i =>
    refine ⟨?_, .nil v now r, rfl⟩
    cases hw : r.wakeup <;> simp [earliest]
  | timer_fired | signal_taken | child_completed | activity_done => cases hv
  | child_failed _ _ hs => rcases hs with hs | hs <;> rw [hs] at hrun <;> cases hrun
  | child_cancelled => cases hrun
  | timer_later hlater _ ih =>
    obtain ⟨hw, hq, hr⟩ := ih hv hrun
    refine ⟨?_, ⟨?_, ?_, ?_⟩, by rw [hr]⟩
    · rw [hw]
      exact (earliest_cons _ _ _).symm
    · intro d hd
      rcases List.mem_cons.mp hd with rfl | hd
      · omega
      · exact hq.later d hd
    · refine List.forall_mem_cons.mpr ⟨rfl, fun s hs => ?_⟩
      rw [← hq.offered s hs]
      exact WaitSource.offered_congr rfl rfl s
    · intro child hmem
      rcases List.mem_cons.mp hmem with hc | hc
      · cases hc
      · exact hq.children child hc
  | signal_later hnone _ ih =>
    obtain ⟨hw, hq, hr⟩ := ih hv hrun
    refine ⟨hw, ⟨hq.later, List.forall_mem_cons.mpr ⟨take_signal_none.mp hnone, hq.offered⟩, ?_⟩,
      hr⟩
    intro child hmem
    rcases List.mem_cons.mp hmem with hc | hc
    · cases hc
    · exact hq.children child hc
  | @child_later r r' run i child sources value hlatest _ hends _ ih =>
    obtain ⟨hw, hq, hr⟩ := ih hv hrun
    refine ⟨hw, ⟨hq.later, List.forall_mem_cons.mpr ⟨rfl, hq.offered⟩, ?_⟩, hr⟩
    intro child' hmem run' hrun'
    rcases List.mem_cons.mp hmem with hc | hc
    · cases hc
      rw [hlatest] at hrun'
      cases hrun'
      exact hends
    · exact hq.children child' hc run' hrun'
  | activity_later htask hdone _ ih =>
    obtain ⟨hw, hq, hr⟩ := ih hv hrun
    refine ⟨hw, ⟨hq.later, List.forall_mem_cons.mpr ⟨has_result_false htask hdone, hq.offered⟩, ?_⟩,
      hr⟩
    intro child hmem
    rcases List.mem_cons.mp hmem with hc | hc
    · cases hc
    · exact hq.children child hc

theorem Evaluates.waits {m : Machine} {index : ℕ} {now : ℤ} {c : Command}
    (h : Evaluates m r index now c none r' children) (hrun : r'.state = .Running) :
    r'.wakeup = c.deadlines.min? ∧ (∀ d ∈ c.deadlines, now < d) ∧ c.offered r' index = false
      ∧ ¬ c.ended_child m.runs r' ∧ r'.signals = r.signals ∧ r'.children = r.children
      ∧ children = [] := by
  cases h with
  | @activity_later name version input policy task htask hdone =>
    have hframe : ∀ r : RunRecord,
        (with_task r m.epoch index name version input policy).wakeup = r.wakeup
        ∧ (with_task r m.epoch index name version input policy).signals = r.signals
        ∧ (with_task r m.epoch index name version input policy).children = r.children
        ∧ (with_task r m.epoch index name version input policy).id = r.id := by
      intro r
      unfold with_task
      split <;> exact ⟨rfl, rfl, rfl, rfl⟩
    obtain ⟨hw, hs, hc, hid⟩ := hframe { r with wakeup := none }
    refine ⟨hw, by simp [Command.deadlines], ?_, fun h => h, hs, hc, rfl⟩
    unfold Command.offered
    rw [hid]
    exact has_result_false htask hdone
  | timer_later hlater =>
    refine ⟨rfl, ?_, rfl, fun h => h, rfl, rfl, rfl⟩
    intro d hd
    rw [List.mem_singleton.mp hd]
    omega
  | signal_later hnone =>
    exact ⟨rfl, by simp [Command.deadlines], take_signal_none.mp hnone, fun h => h, rfl, rfl, rfl⟩
  | select _ hsel =>
    obtain ⟨hw, hq, hr⟩ := hsel.waits rfl hrun
    have hsig : r'.signals = r.signals := by rw [hr]
    have htasks : r'.tasks = r.tasks := by rw [hr]
    refine ⟨hw, hq.later, ?_, ?_, hsig, by rw [hr], rfl⟩
    · unfold Command.offered
      rw [List.any_eq_false]
      intro s hs
      rw [WaitSource.offered_congr (r := { r with wakeup := none }) hsig htasks, hq.offered s hs]
      exact Bool.false_ne_true
    · rintro ⟨child, hmem, -, run, hlatest, hends⟩
      rw [hq.children child hmem run hlatest] at hends
      cases hends
  | continue_too_early | continued | continues => cases hrun

/-! ## Turns that wait -/

theorem merge_retry_wakeup_earliest (r : RunRecord) :
    (merge_retry_wakeup r).wakeup = earliest r.wakeup r.retry_times := by
  unfold merge_retry_wakeup retry_wakeup earliest RunRecord.retry_times
  cases hmin : (r.tasks.filterMap ActivityTask.retry_due).min? with
  | none =>
    rw [List.min?_eq_none_iff] at hmin
    rw [hmin]
    cases r.wakeup <;> simp
  | some w =>
    cases r.wakeup with
    | none => exact hmin.symm
    | some d =>
      rw [Option.toList_some, List.singleton_append, List.min?_cons, hmin]
      rfl

theorem earliest_min (l l' : List ℤ) : earliest l.min? l' = (l ++ l').min? := by
  cases l with
  | nil => rfl
  | cons d l =>
    unfold earliest
    rw [List.min?_cons', List.cons_append, List.min?_cons', List.foldl_append]
    rfl

/-- **A turn that waits** found no deadline passed, no signal, no result and no
child that is over, and its wakeup is the earliest pending time. The record may
then get another wakeup or other accounting before it is stored. -/
theorem Turn.waits {m : Machine} {now : ℤ} {b r1 : RunRecord} {pending : Option Command}
    {event : HistoryEvent} (h : Turn m now b pending event none r1 children)
    (hrun : r1.state = .Running) :
    (merge_retry_wakeup r1).wakeup = r1.due ∧ (∀ d ∈ r1.deadlines ++ r1.retry_times, now < d)
      ∧ r1.offered = false ∧ ¬ EndedChild m.runs r1 ∧ children = []
      ∧ r1.signals = b.signals ∧ r1.children = b.children := by
  obtain ⟨hw, hlater, hoff, hend, hsig, hch, hnil⟩ := h.evaluated.waits hrun
  have hhist : r1.history = (opened b pending).history := h.evaluated.frame.2.1
  have hopen : r1.open_event = some event := by
    unfold RunRecord.open_event
    rw [hhist]
    exact h.open_event
  have hdead : r1.deadlines = event.command.deadlines := by
    unfold RunRecord.deadlines
    rw [hopen]
  -- a task that the turn added is ready, so the retry times are those before it
  have hretry : ∀ d ∈ r1.retry_times, now < d := by
    intro d hd
    obtain ⟨task, ht, hdue⟩ := List.mem_filterMap.mp hd
    have hearly : Early now b.tasks := early_iff.mpr h.backing_off
    rcases h.evaluated.tasks with htasks | ⟨_, _, _, _, -, htasks⟩
    · rw [htasks] at ht
      exact hearly task ht d hdue
    · rw [htasks] at ht
      rcases List.mem_append.mp ht with ht | ht
      · exact hearly task ht d hdue
      · rw [List.mem_singleton.mp ht] at hdue
        cases hdue
  refine ⟨?_, ?_, ?_, ?_, hnil, hsig, hch⟩
  · rw [merge_retry_wakeup_earliest, hw, earliest_min]
    unfold RunRecord.due
    rw [hdead]
  · intro d hd
    rcases List.mem_append.mp hd with hd | hd
    · rw [hdead] at hd
      exact hlater d hd
    · exact hretry d hd
  · unfold RunRecord.offered
    rw [hopen, hhist]
    exact hoff
  · rintro ⟨event', hopen', hended⟩
    rw [hopen] at hopen'
    cases hopen'
    exact hend hended

theorem RunRecord.due_congr (hh : r'.history = r.history) (ht : r'.retry_times = r.retry_times) :
    r'.due = r.due := by
  unfold RunRecord.due RunRecord.deadlines RunRecord.open_event
  rw [hh, ht]

theorem EndedChild.congr (hh : r'.history = r.history) (hc : r'.children = r.children)
    (h : EndedChild v r) : EndedChild v r' := by
  obtain ⟨event, hopen, hended⟩ := h
  refine ⟨event, ?_, ?_⟩
  · unfold RunRecord.open_event
    rw [hh]
    exact hopen
  · cases hcmd : event.command with
    | Select sources =>
      rw [hcmd] at hended
      obtain ⟨child, h1, h2, h3⟩ := hended
      exact ⟨child, h1, by rw [hc]; exact h2, h3⟩
    | _ =>
      rw [hcmd] at hended
      exact hended.elim

end Appcall.Durable
