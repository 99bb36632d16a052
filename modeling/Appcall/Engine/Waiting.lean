/-
A run that waits is stored as one that waits.

A host polls for the runs that are due, drives them, and polls again. If a drive
answers `Waiting` and the run is still due, the host turns in circles. After a
drive that saved the run it is not: the record is `Running`, and its column is the
earliest pending time, which has not come. But a drive that computes the wakeup
the record already has saves nothing, and then the column and the state are what
they were: a column that a child's end has set to zero stays zero, and a state
`NeedsInput` that the drive reset in memory is not stored.

`UpToDate` describes the records on which a drive saves nothing, from the record
alone. `waiting_at_rest_iff` says that the defect is exactly there.
-/
import Appcall.Engine.Wakeups

set_option autoImplicit false

namespace Appcall.Durable

open Appcall.Refine

/-! ## The row of a run -/

variable {e : Engine} {r : RunRecord} {now : ℤ} {m : Machine} {b : RunRecord}
  {pending : Option Command} {event : HistoryEvent} {value : Option CommandValue}
  {children : List RunRecord} {t t' : Machine}

theorem stored_iff (hw : WellFormed e.store) {id : String} {c : Option ℤ} :
    e.machine.runs id = some ⟨r, c⟩ ↔
      e.store.load id = .ok r ∧ ∃ row, e.store.engine_runs.lookup id = some row
        ∧ row.wakeup = c := by
  have hview : ∀ row, e.store.engine_runs.lookup id = some row →
      ∃ r', e.machine.runs id = some ⟨r', row.wakeup⟩ := by
    intro row hrow
    show ∃ r', (e.store.engine_runs.lookup id).map _ = _
    rw [hrow]
    exact ⟨_, rfl⟩
  constructor
  · intro h
    refine ⟨(load_iff hw).mpr ⟨c, h⟩, ?_⟩
    cases hrow : e.store.engine_runs.lookup id with
    | none =>
      have hnone : e.store.view id = some ⟨r, c⟩ := h
      unfold SqliteStore.view at hnone
      rw [hrow] at hnone
      cases hnone
    | some row =>
      obtain ⟨r', hr'⟩ := hview row hrow
      rw [h] at hr'
      cases hr'
      exact ⟨row, rfl, rfl⟩
  · rintro ⟨hload, row, hrow, rfl⟩
    obtain ⟨r', hr'⟩ := hview row hrow
    obtain ⟨c', hc'⟩ := (load_iff hw).mp hload
    rw [hr'] at hc'
    cases hc'
    exact hr'

theorem runnable_due {s : SqliteStore} {limit : ℕ} {ids : List String}
    (h : s.runnable now limit = .ok ids) {id : String} (hid : id ∈ ids) :
    ∃ row, s.engine_runs.lookup id = some row ∧ row.due now = true := by
  unfold SqliteStore.runnable at h
  split at h
  · cases h
  · cases h
    obtain ⟨key, hkey, rfl⟩ := List.mem_map.mp hid
    have hmem := (List.perm_insertionSort _ _).mem_iff.mp (List.mem_of_mem_take hkey)
    obtain ⟨entry, hentry, rfl⟩ := List.mem_map.mp hmem
    obtain ⟨hin, hdue⟩ := List.mem_filter.mp hentry
    exact ⟨entry.2, AList.mem_lookup_iff.mpr hin, hdue⟩

/-! ## Records on which a drive saves nothing -/

/-- A command that can be found unresolved in a stored history; an activity has
its task there. -/
def Command.waits (r : RunRecord) (index : ℕ) : Command → Bool
  | .Timer _ | .Signal _ | .Select _ => true
  | .Activity _ _ _ _ false => (r.task? (effect_id_at r.id index)).isSome
  | _ => false

/-- The stored record `r` has nothing to do at `now`, and its wakeup is already
what a drive at `now` computes. -/
structure UpToDate (e : Engine) (now : ℤ) (r : RunRecord) : Prop where
  waits : r.open_event.any (fun event => event.command.waits r (seal_end r.history)) = true
  later : ∀ d ∈ r.deadlines ++ r.retry_times, now < d
  offered : r.offered = false
  children : ¬ EndedChild e.store.view r
  tasks : ∀ task ∈ r.tasks, task.state.is_ready = false
    ∧ task.interrupted e.store.epoch r.retry_exhausted = false
  wakeup : r.wakeup = r.due
  retry : ∀ w, retry_wakeup r = some w → r.wakeup = some w

theorem begun_retry_times (r : RunRecord) : (begun r).retry_times = r.retry_times := by
  show (r.tasks.map normalize_task).filterMap _ = _
  rw [List.filterMap_map]
  rfl

theorem begun_retry_wakeup (r : RunRecord) : retry_wakeup (begun r) = retry_wakeup r :=
  congrArg List.min? (begun_retry_times r)

theorem begun_task (r : RunRecord) (effect_id : String) :
    (begun r).task? effect_id = (r.task? effect_id).map normalize_task := by
  show (r.tasks.map normalize_task).find? _ = _
  rw [List.find?_map]
  rfl

theorem RunRecord.offered_congr {r' : RunRecord} (hid : r'.id = r.id) (hh : r'.history = r.history)
    (hs : r'.signals = r.signals)
    (ht : ∀ effect_id, r'.has_result effect_id = r.has_result effect_id) :
    r'.offered = r.offered := by
  have hsig : ∀ name, r'.has_signal name = r.has_signal name := by
    intro name
    unfold RunRecord.has_signal
    rw [hs]
  have hsource : ∀ s : WaitSource, s.offered r' = s.offered r := by
    intro s
    cases s with
    | Signal name => exact hsig name
    | Activity activity => exact ht activity.effect_id
    | Timer | Child => rfl
  unfold RunRecord.offered RunRecord.open_event
  rw [hh]
  refine congrArg (Option.any · _) (funext fun event => ?_)
  cases event.command with
  | Signal name => exact hsig name
  | Activity name version input policy detached_wait =>
    cases detached_wait with
    | true => rfl
    | false =>
      show r'.has_result _ = r.has_result _
      rw [hid, ht]
  | Select sources =>
    show sources.any _ = sources.any _
    rw [funext hsource]
  | Timer | Child | ContinueAsNew => rfl

theorem Command.begun_waits (r : RunRecord) (index : ℕ) (c : Command) :
    c.waits (begun r) index = c.waits r index := by
  have htask : ((begun r).task? (effect_id_at r.id index)).isSome
      = (r.task? (effect_id_at r.id index)).isSome := by
    rw [begun_task, Option.isSome_map]
  unfold Command.waits
  split <;> first | rfl | exact htask

theorem begun_has_result (r : RunRecord) (effect_id : String) :
    (begun r).has_result effect_id = r.has_result effect_id := by
  unfold RunRecord.has_result
  rw [begun_task]
  cases r.task? effect_id <;> rfl

theorem begun_offered (r : RunRecord) : (begun r).offered = r.offered :=
  RunRecord.offered_congr rfl rfl rfl (begun_has_result r)

theorem Turn.no_new_task {r1 : RunRecord} (h : Turn m now b pending event value r1 children)
    (hready : r1.tasks.any (fun task => task.state.is_ready) = false) : r1.tasks = b.tasks := by
  rcases h.evaluated.tasks with ht | ⟨_, _, _, _, -, ht⟩
  · exact ht
  · rw [ht, List.any_append, Bool.or_eq_false_iff] at hready
    cases hready.2

theorem Idles.due (h : Idles m now r) :
    r.wakeup = r.due ∧ ∀ d ∈ r.deadlines ++ r.retry_times, now < d := by
  obtain ⟨event, r1, hturn, hrun, hready, hwake⟩ := h
  obtain ⟨hdue, hlater, -⟩ := hturn.waits hrun
  have hhist : r1.history = r.history := hturn.frame.2.1
  have htimes : r1.retry_times = r.retry_times := by
    rw [← begun_retry_times r]
    unfold RunRecord.retry_times
    rw [hturn.no_new_task hready]
  refine ⟨?_, ?_⟩
  · rw [← hwake, hdue]
    exact RunRecord.due_congr hhist htimes
  · rw [← htimes]
    unfold RunRecord.deadlines RunRecord.open_event at hlater ⊢
    rw [← hhist]
    exact hlater

theorem Idles.nothing (h : Idles m now r) : r.offered = false ∧ ¬ EndedChild m.runs r := by
  obtain ⟨event, r1, hturn, hrun, hready, -⟩ := h
  obtain ⟨-, -, hoff, hend, -, hsig, hch⟩ := hturn.waits hrun
  have hhist : r1.history = r.history := hturn.frame.2.1
  refine ⟨?_, fun hended => hend (hended.congr hhist hch)⟩
  rw [← hoff]
  refine RunRecord.offered_congr hturn.frame.1.id.symm hhist.symm hsig.symm (fun effect_id => ?_)
  rw [← begun_has_result]
  unfold RunRecord.has_result RunRecord.task?
  rw [hturn.no_new_task hready]

theorem Idle.upToDate (h : Idle e.machine now r) : UpToDate e now r := by
  obtain ⟨hquiet, hretry, hidles⟩ := h
  obtain ⟨hdue, hlater⟩ := hidles.due
  obtain ⟨hoff, hend⟩ := hidles.nothing
  have hnr := hidles.no_ready
  obtain ⟨event, r1, hturn, hrun, hready, hwake⟩ := hidles
  have htasks := hturn.no_new_task hready
  have hopen : r.open_event = some event := hturn.open_event
  refine ⟨?_, hlater, hoff, hend, ?_, hdue, ?_⟩
  · -- the command was evaluated, and left the run waiting
    rw [hopen]
    show event.command.waits r (seal_end r.history) = true
    have heval := hturn.evaluated
    generalize event.command = c at heval
    cases heval with
    | @activity_later name version input policy task htask =>
      have hfound : ((begun r).task? (effect_id_at r.id (seal_end r.history))).isSome = true := by
        by_contra hnone
        -- otherwise the turn would have added the task, ready
        have hadded : with_task { opened (begun r) none with wakeup := none } e.machine.epoch
            (seal_end (opened (begun r) none).history) name version input policy
              = { opened (begun r) none with
                  wakeup := none
                  tasks := (begun r).tasks
                    ++ [new_task { opened (begun r) none with wakeup := none }
                    e.machine.epoch (seal_end (opened (begun r) none).history) name version input
                    policy] } := if_neg hnone
        rw [hadded] at htasks
        simp at htasks
      rw [begun_task, Option.isSome_map] at hfound
      exact hfound
    | timer_later | signal_later | select => rfl
    | continue_too_early | continued => cases hrun
  · intro task ht
    exact ⟨Bool.eq_false_iff.mpr (List.any_eq_false.mp hnr task ht),
      Bool.eq_false_iff.mpr (List.any_eq_false.mp hquiet task ht)⟩
  · intro w hw
    exact hretry w (by rw [begun_retry_wakeup]; exact hw)

theorem Selects.nothing_found {v : String → Option Entry} {r' : RunRecord} {i : ℕ}
    {sources : List WaitSource} (h : Selects v now r i sources value r')
    (hlater : ∀ d ∈ sources.filterMap WaitSource.deadline, now < d)
    (hoff : ∀ s ∈ sources, s.offered r = false)
    (hend : ∀ child, .Child child ∈ sources → child.run_id ∈ r.children → ∀ run,
      latest_view v child.run_id = some run → run.state.ends = false) :
    value = none ∧ r'.state = r.state := by
  induction h with
  | nothing => exact ⟨rfl, rfl⟩
  | timer_fired hd =>
    have := hlater _ (List.mem_filterMap.mpr ⟨_, List.mem_cons_self, rfl⟩)
    omega
  | @signal_taken r i name sources p signals htake =>
    have hnone := take_signal_none.mpr (hoff _ List.mem_cons_self)
    rw [htake] at hnone
    cases hnone
  | child_failed hlatest hmem hs =>
    have := hend _ List.mem_cons_self hmem _ hlatest
    rcases hs with hs | hs <;> rw [hs] at this <;> cases this
  | child_cancelled hlatest hmem hs | child_completed hlatest hmem hs =>
    have := hend _ List.mem_cons_self hmem _ hlatest
    rw [hs] at this
    cases this
  | activity_done htask hdone =>
    have hnone : RunRecord.has_result _ _ = false := hoff _ List.mem_cons_self
    unfold RunRecord.has_result at hnone
    rw [htask, Option.any_some, hdone] at hnone
    cases hnone
  | timer_later _ _ ih =>
    refine ih (fun d hd => hlater d ?_) (fun s hs => ?_) (fun child hc => ?_)
    · exact List.mem_cons_of_mem _ hd
    · rw [← hoff s (List.mem_cons_of_mem _ hs)]
      exact WaitSource.offered_congr rfl rfl s
    · exact hend child (List.mem_cons_of_mem _ hc)
  | signal_later _ _ ih | child_later _ _ _ _ ih | activity_later _ _ _ ih =>
    exact ih hlater (fun s hs => hoff s (List.mem_cons_of_mem _ hs))
      (fun child hc => hend child (List.mem_cons_of_mem _ hc))

theorem Evaluates.nothing_found {r1 : RunRecord} {index : ℕ} {c : Command}
    (h : Evaluates m b index now c value r1 children) (hwaits : c.waits b index = true)
    (hlater : ∀ d ∈ c.deadlines, now < d) (hoff : c.offered b index = false)
    (hend : ¬ c.ended_child m.runs b) :
    value = none ∧ r1.state = b.state ∧ r1.tasks = b.tasks ∧ children = [] := by
  -- an activity that has its task gets no other
  have hkept : ∀ name version input policy, (b.task? (effect_id_at b.id index)).isSome = true →
      with_task { b with wakeup := none } m.epoch index name version input policy
        = { b with wakeup := none } := by
    intro name version input policy hsome
    exact if_pos hsome
  cases h with
  | spawned | child | continue_too_early | continued | continues => cases hwaits
  | activity_done htask hdone =>
    rw [hkept _ _ _ _ hwaits] at htask
    have hnone : b.has_result (effect_id_at b.id index) = false := hoff
    unfold RunRecord.has_result at hnone
    have hfound : b.task? (effect_id_at b.id index) = some _ := htask
    rw [hfound, Option.any_some, hdone] at hnone
    cases hnone
  | activity_later =>
    rw [hkept _ _ _ _ hwaits]
    exact ⟨rfl, rfl, rfl, rfl⟩
  | timer_fired hd =>
    have := hlater _ (List.mem_singleton_self _)
    omega
  | signal_taken htake =>
    have hnone := take_signal_none.mpr hoff
    rw [htake] at hnone
    cases hnone
  | timer_later | signal_later => exact ⟨rfl, rfl, rfl, rfl⟩
  | select _ hsel =>
    have hsources := List.any_eq_false.mp hoff
    obtain ⟨hv, hs⟩ := hsel.nothing_found hlater
      (fun s hs => by
        rw [← Bool.eq_false_iff.mpr (hsources s hs)]
        exact WaitSource.offered_congr rfl rfl s)
      (fun child hc hmem run hlatest => Bool.eq_false_iff.mpr fun hends =>
        hend ⟨child, hc, hmem, run, hlatest, hends⟩)
    exact ⟨hv, hs, hsel.frame.2.2.1, rfl⟩

theorem Blocked.pending_none (h : Blocked m b pending) (hopen : b.open_event = some event) :
    pending = none := by
  obtain ⟨workflow, cursor, -, heval, -⟩ := h
  by_contra hne
  have hres : Resolved b.history := by
    refine @Program.run_pending workflow b ?_
    rw [heval]
    exact Option.isSome_iff_ne_none.mpr hne
  have hlen : b.history.length ≤ seal_end b.history := by
    refine le_seal_end le_rfl ?_
    rw [List.take_length]
    exact hres
  unfold RunRecord.open_event at hopen
  rw [List.getElem?_eq_none hlen] at hopen
  cases hopen

/-- **An up-to-date record is where a drive saves nothing**, if the drive waits at
all. -/
theorem UpToDate.idle {e : Engine} {now : ℤ} {r : RunRecord} (h : UpToDate e now r)
    (hbusy : Busy e.machine now r) : Idle e.machine now r := by
  have hquiet : r.tasks.any (fun task => task.interrupted e.machine.epoch r.retry_exhausted)
      = false := by
    rw [List.any_eq_false]
    exact fun task ht => Bool.eq_false_iff.mp (h.tasks task ht).2
  have hretry : ∀ w, retry_wakeup (begun r) = some w → r.wakeup = some w := by
    intro w hw
    rw [begun_retry_wakeup] at hw
    exact h.retry w hw
  rcases hbusy with hi | hlate | ⟨w, hw, hne⟩ | ⟨pending, event, value, r1, children, hturn⟩
  · rw [hquiet] at hi
    cases hi
  · -- every retry time is still to come
    refine absurd (fun task ht w hw => ?_) hlate
    obtain ⟨task0, ht0, rfl⟩ := List.mem_map.mp ht
    exact h.later w (List.mem_append_right _ (List.mem_filterMap.mpr ⟨task0, ht0, hw⟩))
  · exact absurd (hretry w hw) hne
  · obtain ⟨event0, hopen, hwaits⟩ := Option.any_eq_true _ _ |>.mp h.waits
    have hp : pending = none := hturn.blocked.pending_none (b := begun r) hopen
    subst hp
    have hevent : event = event0 := Option.some.inj (hturn.open_event.symm.trans hopen)
    subst hevent
    have hdead : r.deadlines = event.command.deadlines := by
      unfold RunRecord.deadlines
      rw [hopen]
    have hoff : event.command.offered (begun r) (seal_end r.history) = false := by
      have hoffered := begun_offered r
      rw [h.offered] at hoffered
      unfold RunRecord.offered at hoffered
      rw [show (begun r).open_event = some event from hopen] at hoffered
      exact hoffered
    obtain ⟨rfl, hrun, htasks, rfl⟩ := hturn.evaluated.nothing_found (b := begun r)
      (by rw [Command.begun_waits]; exact hwaits)
      (fun d hd => h.later d (List.mem_append_left _ (by rw [hdead]; exact hd))) hoff
      (fun hended => h.children ⟨event, hopen, hended⟩)
    have hr1 : r1.state = .Running := hrun
    have hready : r1.tasks.any (fun task => task.state.is_ready) = false := by
      rw [htasks, List.any_eq_false]
      intro task ht
      obtain ⟨task0, ht0, rfl⟩ := List.mem_map.mp ht
      exact Bool.eq_false_iff.mp (h.tasks task0 ht0).1
    refine ⟨hquiet, hretry, event, r1, hturn, hr1, hready, ?_⟩
    -- the wakeup of the turn is the earliest pending time, which the record has
    have hdue := (hturn.waits hr1).1
    rw [hdue, h.wakeup]
    refine RunRecord.due_congr hturn.frame.2.1 ?_
    rw [← begun_retry_times r]
    unfold RunRecord.retry_times
    rw [htasks]

/-! ## Runs at rest -/

/-- The run `id` is stored as one that waits: it is `Running`, its column is its
earliest pending time, which has not come at `now`, and no poll at `now` returns
it. -/
def AtRest (e : Engine) (id : String) (now : ℤ) : Prop :=
  ∃ r row, e.store.load id = .ok r ∧ e.store.engine_runs.lookup id = some row
    ∧ r.state = .Running ∧ row.wakeup = r.due ∧ (∀ w, row.wakeup = some w → now < w)
    ∧ ∀ limit ids, e.store.runnable now limit = .ok ids → id ∉ ids

def Rests (m : Machine) (id : String) (now : ℤ) : Prop :=
  ∃ r, m.runs id = some ⟨r, r.due⟩ ∧ r.state = .Running ∧ ∀ w, r.due = some w → now < w

theorem atRest_iff (hw : WellFormed e.store) {id : String} :
    AtRest e id now ↔ Rests e.machine id now := by
  constructor
  · rintro ⟨r, row, hload, hrow, hrun, hdue, hlater, -⟩
    refine ⟨r, (stored_iff hw).mpr ⟨hload, row, hrow, hdue⟩, hrun, ?_⟩
    rw [← hdue]
    exact hlater
  · rintro ⟨r, hr, hrun, hlater⟩
    obtain ⟨hload, row, hrow, hdue⟩ := (stored_iff hw).mp hr
    refine ⟨r, row, hload, hrow, hrun, hdue, by rw [hdue]; exact hlater, ?_⟩
    intro limit ids hpoll hmem
    obtain ⟨row', hrow', hdue'⟩ := runnable_due hpoll hmem
    rw [hrow] at hrow'
    cases hrow'
    unfold Row.due at hdue'
    rw [hdue, Bool.and_eq_true] at hdue'
    cases hd : r.due with
    | none => simp [hd] at hdue'
    | some w =>
      have hle : w ≤ now := by simpa [hd] using hdue'.2
      have hlt := hlater w hd
      omega

theorem due_mem {w : ℤ} (h : r.due = some w) : w ∈ r.deadlines ++ r.retry_times := List.min?_mem h

theorem Trans.rests {l : Label} {id : String} (h : Trans t l t')
    (hl : l = .wait id now ∨ l = .hold id now) : Rests t' id now := by
  have hturn : ∃ r r1 pending event children, r1.id = id
      ∧ t' = t.commit (merge_retry_wakeup r1) children
      ∧ Turn t now (begun r) pending event none r1 children ∧ r1.state = .Running
      ∧ Fresh (Function.update t.runs r1.id (some ⟨(merge_retry_wakeup r1).saved,
          (merge_retry_wakeup r1).saved.wakeup⟩)) children := by
    rcases hl with rfl | rfl
    · cases h with
      | change hs hc hf =>
        rw [← hc.frame.id] at hf
        cases hc with
        | wait hd hturn hrun hready =>
          refine ⟨_, _, _, _, _, hturn.frame.1.id, rfl, hturn, hrun, ?_⟩
          rw [merge_retry_wakeup_id] at hf
          exact hf
    · cases h with
      | change hs hc hf =>
        rw [← hc.frame.id] at hf
        cases hc with
        | hold hd hturn hrun hready hfull hparked =>
          refine ⟨_, _, _, _, _, hturn.frame.1.id, rfl, hturn, hrun, ?_⟩
          rw [merge_retry_wakeup_id] at hf
          exact hf
  obtain ⟨r, r1, pending, event, children, rfl, rfl, hturn, hrun, hf⟩ := hturn
  obtain ⟨hdue, hlater, -⟩ := hturn.waits hrun
  have hsaved : (merge_retry_wakeup r1).saved.due = r1.due := by
    rw [merge_retry_wakeup_frame]
    rfl
  refine ⟨(merge_retry_wakeup r1).saved, ?_, ?_, ?_⟩
  · have hself := @Machine.commit_live t (merge_retry_wakeup r1) children
      (by rw [merge_retry_wakeup_id]; exact hf) (by rw [merge_retry_wakeup_state, hrun]; rfl)
    rw [merge_retry_wakeup_id] at hself
    rw [hself, hsaved, hdue]
  · show (merge_retry_wakeup r1).state = .Running
    rw [merge_retry_wakeup_state]
    exact hrun
  · rw [hsaved]
    intro w hw
    exact hlater w (due_mem hw)

theorem Idles.rests_iff {c : Option ℤ} {id : String} (h : Idles m now r)
    (hr : m.runs id = some ⟨r, c⟩) : Rests m id now ↔ r.state = .Running ∧ c = r.wakeup := by
  obtain ⟨hdue, hlater⟩ := h.due
  constructor
  · rintro ⟨r', hr', hrun, -⟩
    rw [hr] at hr'
    cases hr'
    exact ⟨hrun, hdue.symm⟩
  · rintro ⟨hrun, rfl⟩
    refine ⟨r, ?_, hrun, fun w hw => hlater w (due_mem hw)⟩
    rw [hr, hdue]

theorem Trans.idle_inv {id : String} (h : Trans t (.idle id now) t') :
    t' = t ∧ ∃ r c, t.runs id = some ⟨r, c⟩ ∧ Idles t now r := by
  cases h with
  | change hs hc => cases hc
  | idle hs hd hidle => exact ⟨rfl, _, _, hs, hidle⟩

theorem Trans.retry_wait_inv {id : String} (h : Trans t (.retry_wait id) t') :
    ∃ r, t'.runs id = some ⟨r, r.wakeup⟩ ∧ r.state = .Running := by
  cases h with
  | change hs hc hf =>
    rw [← hc.frame.id] at hf
    cases hc with
    | retry_wait hd hout hw hne =>
      exact ⟨_, Machine.commit_live hf rfl, rfl⟩

theorem Trans.retry_wait_rests {t1 t2 : Machine} {id : String} (h : Trans t (.retry_wait id) t1)
    (h' : Trans t1 (.idle id now) t2) : Rests t2 id now := by
  obtain ⟨rfl, r, c, hr, hidle⟩ := h'.idle_inv
  obtain ⟨r', hr', hrun⟩ := h.retry_wait_inv
  rw [hr] at hr'
  cases hr'
  exact (hidle.rests_iff hr).mpr ⟨hrun, rfl⟩

/-- **When waiting is a stored fixpoint.** After a drive that answers `Waiting` the
run is at rest, unless the drive found the record up to date, so that it saved
nothing, and the state or the column were not those of a run that waits. -/
theorem waiting_at_rest_iff {e : Engine} (he : Reachable e) {step : Step} {id : String} {now : ℤ}
    {resolver : PayloadResolver} (hop : step.op = .drive_with_resolver id now resolver)
    (hret : (step.exec e).1 = .ok (.drive .Waiting)) :
    AtRest (step.exec e).2 id now ↔
      ∀ r row, e.store.load id = .ok r → e.store.engine_runs.lookup id = some row →
        UpToDate e now r → r.state = .Running ∧ row.wakeup = r.wakeup := by
  have hwf := he.wellFormed
  obtain ⟨ls, hp, hwf', hout⟩ := step.path hwf
  have htells := hout.tells
  rw [hop] at htells
  obtain ⟨out, hout', hdrove⟩ := htells
  have hwaiting : out = .ok .Waiting := by
    rw [hret] at hout'
    cases out with
    | error error => cases hout'
    | ok o => cases hout'; rfl
  obtain ⟨r, c, hr, hcases⟩ := hdrove.waiting hwaiting
  obtain ⟨hload, row, hrow, hcol⟩ := (stored_iff hwf).mp hr
  -- the condition is about the one record that is stored
  have hcond : (∀ r row, e.store.load id = .ok r → e.store.engine_runs.lookup id = some row →
      UpToDate e now r → r.state = .Running ∧ row.wakeup = r.wakeup)
      ↔ (UpToDate e now r → r.state = .Running ∧ c = r.wakeup) := by
    constructor
    · intro h hup
      rw [← hcol]
      exact h r row hload hrow hup
    · intro h r' row' hload' hrow' hup
      rw [hload] at hload'
      rw [hrow] at hrow'
      cases hload'
      cases hrow'
      rw [hcol]
      exact h hup
  rw [atRest_iff hwf', hcond]
  generalize (step.exec e).2.machine = m' at hp
  rcases hcases with ⟨rfl, hidle⟩ | ⟨hnot, hbusy, hmoved⟩
  · -- nothing was saved
    cases hp with
    | cons hstep hnil =>
      cases hnil
      obtain ⟨rfl, -⟩ := hstep.idle_inv
      rw [hidle.2.2.rests_iff hr]
      constructor
      · exact fun h _ => h
      · exact fun h => h hidle.upToDate
  · -- the run was saved, and the condition holds because the record was not up to date
    have hup : ¬ UpToDate e now r := fun hup => hnot (hup.idle hbusy)
    refine ⟨fun _ hup' => absurd hup' hup, fun _ => ?_⟩
    rcases hmoved with ⟨rfl, -⟩ | ⟨ls0, l, rfl, hl⟩
    · cases hp with
      | cons h1 hrest =>
        cases hrest with
        | cons h2 hnil =>
          cases hnil
          exact h1.retry_wait_rests h2
    · obtain ⟨t1, -, hlast⟩ := hp.split
      cases hlast with
      | cons hstep hnil =>
        cases hnil
        exact hstep.rests hl

/-- A run that has just been started has no command to wait for, so its first drive
saves it. -/
theorem waiting_at_rest_started :
    AtRest ((Sample.drive "run" 0).exec (Sample.host (Sample.start Sample.siblings))).2
      "run" 0 := by
  refine (@waiting_at_rest_iff _ (Sample.host_reachable _) (Sample.drive "run" 0) _ _
    MissingPayloads rfl (by decide +kernel)).mpr ?_
  intro r row hload _ hup
  have hopen : ((Sample.host (Sample.start Sample.siblings)).store.load "run").map
      (fun r => r.open_event) = .ok none := by
    decide +kernel
  rw [hload] at hopen
  have hnone : r.open_event = none := Except.ok.inj hopen
  have hwaits := hup.waits
  rw [hnone] at hwaits
  cases hwaits

/-- The second of two children ends while its parent joins the first. The parent is
due at once, drives to `Waiting`, and is due again. -/
theorem waiting_run_polled_again :
    ((Sample.drive "run" 0).exec (Sample.host Sample.sibling_ended)).1 = .ok (.drive .Waiting)
      ∧ ((Sample.drive "run" 0).exec (Sample.host Sample.sibling_ended)).2.store.runnable 0 8
          = .ok ["run", derived_id id "run" 'c' 0]
      ∧ ¬ AtRest ((Sample.drive "run" 0).exec (Sample.host Sample.sibling_ended)).2 "run" 0 := by
  have hpolled : ((Sample.drive "run" 0).exec
      (Sample.host Sample.sibling_ended)).2.store.runnable 0 8
        = .ok ["run", derived_id id "run" 'c' 0] := by
    decide +kernel
  refine ⟨by decide +kernel, hpolled, ?_⟩
  rintro ⟨_, _, -, -, -, -, -, hpoll⟩
  exact hpoll 8 _ hpolled List.mem_cons_self

end Appcall.Durable
