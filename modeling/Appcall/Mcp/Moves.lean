/-
What the steps of one call do to it.

A handler, its task and a cancellation meet in the entry. `Moves` lists what a step can
do; everything said about a call in any run is derived from it: where the handler and
the task can be (`Call.Staged`), and what has been seen of the call (`Call.Told`). That
the executor is called only after `begin_dispatch` succeeded, and not once a
cancellation was reported as before the dispatch, is in the second: both start from
`Pending`, and neither is undone.
-/
import Appcall.Mcp.Calls

set_option autoImplicit false

namespace Appcall.Mcp

variable {ν ρ : Type}

/-! ## What a step of a call can do -/

/-- The handler has not tried to dispatch yet. -/
def Handler.early : Handler ν ρ → Bool
  | .selecting | .set_connection _ | .begin_dispatch _ => true
  | _ => false

/-- The handler polls the executor itself. -/
def Handler.direct : Handler ν ρ → Bool
  | .executing _ _ => true
  | _ => false

/-- The handler has returned or was dropped. -/
def Handler.ended : Handler ν ρ → Bool
  | .returned _ | .dropped => true
  | _ => false

/-- The task was spawned and has not ended. -/
def Task.live : Task ν ρ → Bool
  | .spawned _ | .executing _ => true
  | _ => false

/-- The task was spawned and was not polled yet. -/
def Task.unpolled : Task ν ρ → Bool
  | .spawned _ => true
  | _ => false

/-- The handler and the execution have both ended or been dropped. -/
def Call.over (c : Call ν ρ) : Bool := c.handler.ended && !c.task.live

def Call.running (c : Call ν ρ) : Bool := c.handler.direct || c.task.live

/-- The step takes away whoever would tell the entry that the execution has ended: the
task before its first poll, or the caller of a call that executes without a task. -/
def Call.strands (c : Call ν ρ) : Move ρ → Bool
  | .drop_task => c.task.unpolled
  | .drop_handler => c.handler.direct
  | _ => false

/-- The cancellation reaches a call that executes without a task. -/
def Call.cancel_strands (c : Call ν ρ) (requested : Option String) : Bool :=
  !c.context.durable_cancellation && decide (c.entry.lifecycle = .Dispatched)
    && !c.entry.excludes requested

/-- The steps of a call, and whether they strand it. -/
inductive Moves (c : Call ν ρ) : Bool → Turn ν ρ → Prop
  | stay : Moves c false c.stay
  | answer (payload : Payload ρ) (hopen : c.handler.ended = false)
      (hphase : payload = .cancellation_error .BeforeDispatch →
        c.entry.lifecycle = .Cancelled .BeforeDispatch)
      (hdirect : c.handler.direct = true → c.entry.lifecycle ≠ .Dispatched) :
      Moves c false (c.answer payload)
  | select (connection : Connection) (h : c.handler = .selecting) :
      Moves c false (c.goes (.set_connection connection))
  | connect (connection_id : Option String) (request : ExecuteRequest ν)
      (h : c.handler.early = true) (hpending : c.entry.lifecycle = .Pending) :
      Moves c false (Call.goes { c with entry := ⟨.Pending, connection_id⟩ }
        (.begin_dispatch request))
  | spawn (connection_id : Option String) (request : ExecuteRequest ν)
      (h : c.handler.early = true) (hpending : c.entry.lifecycle = .Pending)
      (hdurable : c.context.durable_cancellation = true) :
      Moves c false (Call.goes
        { c with
          entry := ⟨.Dispatched, connection_id⟩
          observed := c.observed ++ [.begun]
          task := .spawned request } .joining)
  | execute (connection_id : Option String) (request : ExecuteRequest ν)
      (h : c.handler.early = true) (hpending : c.entry.lifecycle = .Pending)
      (hdurable : c.context.durable_cancellation = false) :
      Moves c false (Call.goes
        { c with
          entry := ⟨.Dispatched, connection_id⟩
          observed := c.observed ++ [.begun] } (.executing request false))
  | invoke (request : ExecuteRequest ν) (h : c.handler.direct = true) :
      Moves c false (Call.goes { c with observed := c.observed ++ [.invoked request] }
        (.executing request true))
  | complete (result : ρ) (h : c.handler.direct = true)
      (hdispatched : c.entry.lifecycle = .Dispatched) :
      Moves c false ⟨(Call.answer { c with entry := ⟨.Completed, c.entry.connection_id⟩ }
        (.executed result)).call, true⟩
  | poll_task (request : ExecuteRequest ν) (h : c.task = .spawned request) :
      Moves c false ⟨{ c with
        task := .executing request
        observed := c.observed ++ [.invoked request] }, false⟩
  | finish (task : Task ν ρ) (h : c.task.live = true) (hpolled : c.task.unpolled = false)
      (hended : task.live = false) (hunfinished : c.entry.lifecycle.unfinished = true) :
      Moves c false ⟨{ c with entry := ⟨.Completed, c.entry.connection_id⟩, task }, true⟩
  | finish_early (task : Task ν ρ) (removed : Bool) (h : c.task.live = true)
      (hfinished : c.entry.lifecycle.unfinished = false) :
      Moves c false ⟨{ c with task }, removed⟩
  | drop_task (h : c.task.unpolled = true) :
      Moves c true ⟨{ c with task := .dropped }, c.entry.can_cleanup_on_drop⟩
  | drop_handler (aborted : Bool) (hopen : c.handler.ended = false) :
      Moves c c.handler.direct
        ⟨{ c with handler := .dropped, aborted }, c.entry.can_cleanup_on_drop⟩
  | cancel_before (hpending : c.entry.lifecycle = .Pending) :
      Moves c false ⟨{ c with
        entry := ⟨.Cancelled .BeforeDispatch, c.entry.connection_id⟩
        observed := c.observed ++ [.cancelled .BeforeDispatch] }, false⟩
  | cancel_after (hdispatched : c.entry.lifecycle = .Dispatched) :
      Moves c (!c.context.durable_cancellation) ⟨{ c with
        entry := ⟨.Cancelled .AfterDispatch, c.entry.connection_id⟩
        observed := c.observed ++ [.cancelled .AfterDispatch] }, false⟩
  | cancel_again (phase : CancelPhase) (hcancelled : c.entry.lifecycle = .Cancelled phase) :
      Moves c false ⟨{ c with observed := c.observed ++ [.cancelled phase] }, false⟩

theorem cancellation_payload_phase {c : Call ν ρ}
    (h : c.cancellation_payload = .cancellation_error .BeforeDispatch) :
    c.entry.lifecycle = .Cancelled .BeforeDispatch := by
  rw [Call.cancellation_payload, Payload.cancellation_error.injEq,
    InFlightEntry.cancellation_phase] at h
  split at h
  next phase hcancelled => rw [hcancelled, ← h, Option.getD_some]
  next => cases h

theorem is_cancelled_ne {e : InFlightEntry} (h : e.is_cancelled = true) :
    e.lifecycle ≠ .Dispatched := by
  intro hdispatched
  rw [InFlightEntry.is_cancelled, hdispatched] at h
  cases h

theorem Moves.cancelled {c : Call ν ρ} (hopen : c.handler.ended = false)
    (hdirect : c.handler.direct = true → c.entry.lifecycle ≠ .Dispatched) :
    Moves c false (c.answer c.cancellation_payload) :=
  .answer _ hopen cancellation_payload_phase hdirect

variable (c : Call ν ρ)

theorem selected_moves (listed : Option (List Connection)) : Moves c false (c.selected listed) := by
  unfold Call.selected
  split
  next h =>
    exact .answer _ (by rw [h]; rfl) (by simp) (by rw [h]; simp [Handler.direct])
  next connections h =>
    split
    next => exact .answer _ (by rw [h]; rfl) (by simp) (by rw [h]; simp [Handler.direct])
    next connection _ => exact .select connection h
  next => exact .stay

theorem advance_moves : Moves c false c.advance := by
  rw [Call.advance]
  split
  next connection h =>
    rcases c.entry.set_connection_cases connection.id with ⟨hpending, heq⟩ | ⟨-, heq⟩
    · rw [heq]
      exact .connect _ _ (by rw [h]; rfl) hpending
    · rw [heq]
      exact .cancelled (by rw [h]; rfl) (by rw [h]; simp [Handler.direct])
  next request h =>
    rcases c.entry.begin_dispatch_cases with ⟨hpending, heq⟩ | ⟨-, heq⟩
    · rw [heq]
      dsimp only
      split
      next hdurable => exact .spawn _ _ (by rw [h]; rfl) hpending hdurable
      next hdurable =>
        exact .execute _ _ (by rw [h]; rfl) hpending (Bool.eq_false_of_not_eq_true hdurable)
    · rw [heq]
      exact .cancelled (by rw [h]; rfl) (by rw [h]; simp [Handler.direct])
  next => exact .stay

theorem poll_moves : Moves c false c.poll := by
  rw [Call.poll]
  split
  next h =>
    split
    next hcancelled => exact .cancelled (by rw [h]; rfl) (fun _ => is_cancelled_ne hcancelled)
    next => exact .stay
  next h =>
    have hopen : c.handler.ended = false := by rw [h]; rfl
    have hdirect : c.handler.direct = true → c.entry.lifecycle ≠ .Dispatched := by
      rw [h]
      simp [Handler.direct]
    split
    next => exact .cancelled hopen hdirect
    next =>
      split
      next => exact .answer _ hopen (by simp) hdirect
      next => exact .cancelled hopen hdirect
      next => exact .answer _ hopen (by simp) hdirect
      next => exact .stay
  next request h =>
    split
    next hcancelled => exact .cancelled (by rw [h]; rfl) (fun _ => is_cancelled_ne hcancelled)
    next => exact .invoke request (by rw [h]; rfl)
  next h =>
    split
    next hcancelled => exact .cancelled (by rw [h]; rfl) (fun _ => is_cancelled_ne hcancelled)
    next => exact .stay
  next => exact .stay

theorem executed_moves (result : ρ) : Moves c false (c.executed result) := by
  rw [Call.executed]
  split
  next h =>
    rcases c.entry.complete_cases with ⟨hdispatched, heq⟩ | ⟨hne, heq⟩
    · rw [heq]
      exact .complete result (by rw [h]; rfl) hdispatched
    · rw [heq]
      exact .cancelled (by rw [h]; rfl) (fun _ => hne)
  next => exact .stay

theorem poll_task_moves : Moves c false c.poll_task := by
  rw [Call.poll_task]
  split
  next request h =>
    split
    next => exact .stay
    next => exact .poll_task request h
  next => exact .stay

theorem task_executed_moves (result : ρ) : Moves c false (c.task_executed result) := by
  rw [Call.task_executed]
  split
  next h =>
    have hlive : c.task.live = true := by rw [h]; rfl
    rcases c.entry.finish_execution_cases with ⟨hunfinished, accepted, heq⟩ | ⟨hfinished, heq⟩
    · have hpolled : c.task.unpolled = false := by rw [h]; rfl
      rw [heq]
      exact .finish _ hlive hpolled rfl hunfinished
    · rw [heq]
      exact .finish_early _ _ hlive hfinished
  next => exact .stay

theorem drop_task_moves : Moves c c.task.unpolled c.drop_task := by
  rw [Call.drop_task]
  split
  next h =>
    have hunpolled : c.task.unpolled = true := by rw [h]; rfl
    rw [hunpolled]
    exact .drop_task hunpolled
  next h =>
    have hlive : c.task.live = true := by rw [h]; rfl
    have hpolled : c.task.unpolled = false := by rw [h]; rfl
    rw [hpolled]
    rcases c.entry.abort_execution_cases with ⟨hunfinished, heq⟩ | ⟨hfinished, heq⟩
    · rw [heq]
      exact .finish _ hlive hpolled rfl hunfinished
    · rw [heq]
      exact .finish_early _ _ hlive hfinished
  next hspawned _ =>
    have hpolled : c.task.unpolled = false := by
      cases h : c.task with
      | spawned request => exact absurd h (hspawned request)
      | _ => rfl
    rw [hpolled]
    exact .stay

theorem drop_handler_moves : Moves c c.handler.direct c.drop_handler := by
  rw [Call.drop_handler]
  split
  next h => exact .drop_handler c.aborted (by rw [h]; rfl)
  next h => exact .drop_handler c.aborted (by rw [h]; rfl)
  next h => exact .drop_handler true (by rw [h]; rfl)
  next _ hexecuting _ =>
    have hdirect : c.handler.direct = false := by
      cases h : c.handler with
      | executing request invoked => exact absurd h (hexecuting request invoked)
      | _ => rfl
    rw [hdirect]
    exact .stay

theorem turn_moves (m : Move ρ) : Moves c (c.strands m) (c.turn m) := by
  cases m with
  | selected listed => exact selected_moves c listed
  | advance => exact advance_moves c
  | poll => exact poll_moves c
  | executed result => exact executed_moves c result
  | poll_task => exact poll_task_moves c
  | task_executed result => exact task_executed_moves c result
  | drop_task => exact drop_task_moves c
  | drop_handler => exact drop_handler_moves c

theorem cancel_moves (requested : Option String) :
    Moves c (c.cancel_strands requested) (c.cancel requested) := by
  rw [Call.cancel, Call.cancel_strands]
  rcases c.entry.cancel_cases requested with ⟨hpending, hsame, heq⟩ | ⟨hdispatched, hsame, heq⟩
    | ⟨phase, hcancelled, heq⟩ | ⟨hnone, heq⟩
  · rw [heq, hpending, hsame]
    simpa using Moves.cancel_before hpending
  · rw [heq, hdispatched, hsame]
    simpa using Moves.cancel_after hdispatched
  · rw [heq, hcancelled]
    simpa using Moves.cancel_again phase hcancelled
  · rw [heq]
    have hstays : Moves c false ⟨{ c with observed := c.observed ++ [] }, false⟩ := by
      rw [List.append_nil]
      exact .stay
    rcases hnone with hother | hcompleted
    · rw [hother]
      simpa using hstays
    · rw [hcompleted]
      simpa using hstays

/-! ## A call -/

/-- Where the handler and the task are. -/
structure Call.Staged (c : Call ν ρ) : Prop where
  early : c.handler.early = true → c.entry.lifecycle.begun = false
  running : c.running = true → c.entry.lifecycle.unfinished = true
  durable : c.context.durable_cancellation = true → c.handler.direct = false
  direct : c.context.durable_cancellation = false → c.task.live = false

structure Call.Told (c : Call ν ρ) : Prop where
  begun : .begun ∈ c.observed ↔ c.entry.lifecycle.begun = true
  ordered : Machine.Logged
    (fun before e => ∀ request, e = .invoked request → .begun ∈ before) c.observed
  refused : .cancelled .BeforeDispatch ∈ c.observed
      ∨ .answered (.cancellation_error .BeforeDispatch) ∈ c.observed →
    c.entry.lifecycle = .Cancelled .BeforeDispatch

theorem begun_of_unfinished {l : InFlightState} (h : l.unfinished = true) : l.begun = true := by
  cases l with
  | Cancelled phase => cases phase <;> first | rfl | cases h
  | _ => first | rfl | cases h

/-- A move takes a call from stage to stage. -/
theorem Moves.staged {c : Call ν ρ} {b : Bool} {t : Turn ν ρ} (h : Moves c b t)
    (hc : c.Staged) : t.call.Staged := by
  obtain ⟨hearly, hrunning, hdurable, hdirect⟩ := hc
  rw [Call.running, Bool.or_eq_true] at hrunning
  cases h with
  | stay => exact ⟨hearly, by rwa [Call.running, Bool.or_eq_true], hdurable, hdirect⟩
  | answer payload hopen hphase hne =>
    exact ⟨by simp [Call.answer, Handler.early],
      fun h => hrunning (.inr (by simpa [Call.answer, Call.running, Handler.direct] using h)),
      fun _ => rfl, hdirect⟩
  | select connection h =>
    rw [h] at hearly
    exact ⟨fun _ => hearly rfl,
      fun h => hrunning (.inr (by simpa [Call.goes, Call.running, Handler.direct] using h)),
      fun _ => rfl, hdirect⟩
  | connect connection_id request h hpending =>
    have hidle : c.task.live = false := by
      by_contra hlive
      have := hrunning (.inr (Bool.eq_true_of_not_eq_false hlive))
      rw [hpending] at this
      cases this
    refine ⟨fun _ => rfl, ?_, fun _ => rfl, hdirect⟩
    simp [Call.goes, Call.running, Handler.direct, hidle]
  | spawn connection_id request h hpending hd =>
    refine ⟨by simp [Call.goes, Handler.early], fun _ => rfl, fun _ => rfl, ?_⟩
    simp [Call.goes, hd]
  | execute connection_id request h hpending hd =>
    refine ⟨by simp [Call.goes, Handler.early], fun _ => rfl, ?_, hdirect⟩
    simp [Call.goes, hd]
  | invoke request h =>
    refine ⟨by simp [Call.goes, Handler.early], fun _ => hrunning (.inl h), ?_, hdirect⟩
    intro hd
    rw [hdurable hd] at h
    cases h
  | complete result h hdispatched =>
    have hd : c.context.durable_cancellation = false := by
      by_contra hd
      rw [hdurable (Bool.eq_true_of_not_eq_false hd)] at h
      cases h
    refine ⟨by simp [Call.answer, Handler.early], ?_, fun _ => rfl, hdirect⟩
    simp [Call.answer, Call.running, Handler.direct, hdirect hd]
  | poll_task request h =>
    have hlive : c.task.live = true := by rw [h]; rfl
    refine ⟨hearly, fun _ => hrunning (.inr hlive), hdurable, ?_⟩
    intro hd
    rw [hdirect hd] at hlive
    cases hlive
  | finish task h hpolled hended hunfinished =>
    have hd : c.context.durable_cancellation = true := by
      by_contra hd
      rw [hdirect (Bool.eq_false_of_not_eq_true hd)] at h
      cases h
    refine ⟨?_, ?_, hdurable, fun _ => hended⟩
    · intro hh
      rw [begun_of_unfinished hunfinished] at hearly
      cases hearly hh
    · simp [Call.running, hdurable hd, hended]
  | finish_early task removed h hfinished =>
    rw [hrunning (.inr h)] at hfinished
    cases hfinished
  | drop_task h =>
    refine ⟨hearly, ?_, hdurable, fun _ => rfl⟩
    intro hrun
    apply hrunning
    simpa [Call.running, Task.live] using Or.inl hrun
  | drop_handler aborted hopen =>
    refine ⟨by simp [Handler.early], ?_, fun _ => rfl, hdirect⟩
    intro hrun
    exact hrunning (.inr (by simpa [Call.running, Handler.direct] using hrun))
  | cancel_before hpending =>
    refine ⟨fun _ => rfl, ?_, hdurable, hdirect⟩
    intro hrun
    have := hrunning (by simpa [Call.running] using hrun)
    rw [hpending] at this
    cases this
  | cancel_after hdispatched =>
    refine ⟨?_, fun _ => rfl, hdurable, hdirect⟩
    intro hh
    have := hearly hh
    rw [hdispatched] at this
    cases this
  | cancel_again phase hcancelled =>
    exact ⟨hearly, by rwa [Call.running, Bool.or_eq_true], hdurable, hdirect⟩

theorem told_append {c : Call ν ρ} (hc : c.Told) (entry : InFlightEntry)
    (handler : Handler ν ρ) (task : Task ν ρ) (aborted : Bool) {e : Observed ν ρ}
    (hbegun : e ≠ .begun) (hstill : entry.lifecycle.begun = c.entry.lifecycle.begun)
    (hinvoked : ∀ request, e = .invoked request → c.entry.lifecycle.begun = true)
    (hkept : c.entry.lifecycle = .Cancelled .BeforeDispatch →
      entry.lifecycle = .Cancelled .BeforeDispatch)
    (hrefused : e = .cancelled .BeforeDispatch
        ∨ e = .answered (.cancellation_error .BeforeDispatch) →
      entry.lifecycle = .Cancelled .BeforeDispatch) :
    Call.Told { c with entry, handler, task, aborted, observed := c.observed ++ [e] } := by
  refine ⟨?_, ?_, ?_⟩
  · rw [List.mem_append, List.mem_singleton, or_iff_left (fun h => hbegun h.symm), hc.begun,
      hstill]
  · apply Machine.logged_append_singleton hc.ordered
    intro request he
    exact hc.begun.mpr (hinvoked request he)
  · intro h
    rw [List.mem_append, List.mem_append, List.mem_singleton, List.mem_singleton] at h
    rcases h with (h | h) | (h | h)
    · exact hkept (hc.refused (.inl h))
    · exact hrefused (.inl h.symm)
    · exact hkept (hc.refused (.inr h))
    · exact hrefused (.inr h.symm)

theorem told_of_same {c c' : Call ν ρ} (hc : c.Told) (hsame : c'.observed = c.observed)
    (hbegun : c'.entry.lifecycle.begun = c.entry.lifecycle.begun)
    (hkept : c.entry.lifecycle = .Cancelled .BeforeDispatch →
      c'.entry.lifecycle = .Cancelled .BeforeDispatch) : c'.Told := by
  refine ⟨?_, ?_, ?_⟩
  · rw [hsame, hbegun]
    exact hc.begun
  · rw [hsame]
    exact hc.ordered
  · rw [hsame]
    exact fun h => hkept (hc.refused h)

theorem told_begun {c : Call ν ρ} (hc : c.Told) (hpending : c.entry.lifecycle = .Pending)
    (connection_id : Option String) (handler : Handler ν ρ) (task : Task ν ρ) :
    Call.Told
      { c with
        entry := ⟨.Dispatched, connection_id⟩, handler, task
        observed := c.observed ++ [.begun] } := by
  have hnone : ∀ {p : Prop}, c.entry.lifecycle = .Cancelled .BeforeDispatch → p := by
    intro p h
    rw [hpending] at h
    cases h
  refine ⟨?_, ?_, ?_⟩
  · simp [InFlightState.begun]
  · apply Machine.logged_append_singleton hc.ordered
    intro request he
    cases he
  · intro h
    rw [List.mem_append, List.mem_append, List.mem_singleton, List.mem_singleton] at h
    rcases h with (h | h) | (h | h)
    · exact hnone (hc.refused (.inl h))
    · cases h
    · exact hnone (hc.refused (.inr h))
    · cases h

theorem Moves.told {c : Call ν ρ} {b : Bool} {t : Turn ν ρ} (h : Moves c b t)
    (hs : c.Staged) (hc : c.Told) : t.call.Told := by
  have hlive : c.running = true → c.entry.lifecycle.begun = true :=
    fun h => begun_of_unfinished (hs.running h)
  rw [Call.running, Bool.or_eq_true] at hlive
  cases h with
  | stay => exact hc
  | answer payload hopen hphase hne =>
    apply told_append hc _ _ _ _ (by simp) rfl (by simp) id
    rintro (h | h)
    · cases h
    · exact hphase (Observed.answered.inj h)
  | select connection h => exact told_of_same hc rfl rfl id
  | connect connection_id request h hpending =>
    exact told_of_same hc rfl (by rw [hpending]; rfl) (by simp [hpending])
  | spawn connection_id request h hpending hd => exact told_begun hc hpending _ _ _
  | execute connection_id request h hpending hd => exact told_begun hc hpending _ _ _
  | invoke request h =>
    exact told_append hc _ _ _ _ (by simp) rfl (fun _ _ => hlive (.inl h)) id (by simp)
  | complete result h hdispatched =>
    apply told_append hc _ _ _ _ (by simp) _ (by simp) _ (by simp)
    · rw [hdispatched]
      rfl
    · rw [hdispatched]
      exact fun h => by cases h
  | poll_task request h =>
    have hbegun := hlive (.inr (by rw [h]; rfl))
    exact told_append hc _ _ _ _ (by simp) rfl (fun _ _ => hbegun) id (by simp)
  | finish task h hpolled hended hunfinished =>
    refine told_of_same hc rfl ?_ ?_
    · rw [hlive (.inr h)]
      rfl
    · intro hbefore
      rw [hbefore] at hunfinished
      cases hunfinished
  | finish_early task removed h hfinished => exact told_of_same hc rfl rfl id
  | drop_task h => exact told_of_same hc rfl rfl id
  | drop_handler aborted hopen => exact told_of_same hc rfl rfl id
  | cancel_before hpending =>
    apply told_append hc _ _ _ _ (by simp) _ (by simp) (fun _ => rfl) (fun _ => rfl)
    rw [hpending]
    rfl
  | cancel_after hdispatched =>
    apply told_append hc _ _ _ _ (by simp) _ (by simp) _ (by simp)
    · rw [hdispatched]
      rfl
    · rw [hdispatched]
      exact fun h => by cases h
  | cancel_again phase hcancelled =>
    apply told_append hc _ _ _ _ (by simp) rfl (by simp) id
    rintro (h | h)
    · rw [hcancelled, Observed.cancelled.inj h]
    · cases h

end Appcall.Mcp
