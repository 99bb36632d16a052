/-
The history of sync jobs: what one change of a job's state records.

A job is one row and a list of events. `Transition` says how the row may change and which
events that leaves: one, or two for a lease that ran out and for a last page. The events
are numbered from one on. From them alone the attempts of the row can be told: they are the
failures and the leases that ran out since the job was made or its attempts were reset. A
job has failed when they are as many as are allowed or when its last failure was one that
is not tried again.
-/
import Appcall.Sync.Changes

set_option autoImplicit false

namespace Appcall.Sync

open Relation (ReflTransGen)

/-! ## Events -/

/-- The events of a job, the first one first. -/
def history (events : Table JobEvent.key) (job_id : String) : List JobEvent :=
  events.rows.filter (fun e => decide (e.job_id = job_id))

def Numbered (events : List JobEvent) : Prop :=
  events.map JobEvent.seq = List.range' 1 events.length

/-- The errors that are not tried again. -/
def terminal_error (cause : Error) : Bool :=
  decide (cause = .CursorCycle) || decide (cause = .UnsupportedModel)
    || decide (cause = .InvalidInput)

/-- The code of a lease that ran out once too often. -/
def lease_expired_code : String := "LEASE_EXPIRED"

/-- A lease that ran out, or a failure of a worker. -/
def JobEvent.spends (e : JobEvent) : Bool :=
  decide (e.kind = .lease_expired) || decide (e.kind = .retry)
    || (decide (e.kind = .failed) && decide (e.detail.code ≠ some lease_expired_code))

def JobEvent.resets (e : JobEvent) : Bool :=
  decide (e.kind = .scheduled) && decide (e.detail = scheduled_detail "reset_attempts")

/-- A failure with an error that is not tried again. -/
def JobEvent.terminal (e : JobEvent) : Bool :=
  decide (e.kind = .failed)
    && (decide (e.detail.code = some (failure_code (some .CursorCycle)))
      || decide (e.detail.code = some (failure_code (some .UnsupportedModel)))
      || decide (e.detail.code = some (failure_code (some .InvalidInput))))

/-- The failures and the leases that ran out, since the last reset. -/
def spent (events : List JobEvent) : ℕ :=
  ((events.reverse.takeWhile (fun e => !e.resets)).filter JobEvent.spends).length

/-- The last event is a failure that is not tried again. -/
def ended (events : List JobEvent) : Bool := events.getLast?.any JobEvent.terminal

theorem spent_append_singleton (events : List JobEvent) (e : JobEvent) :
    spent (events ++ [e])
      = if e.resets then 0 else spent events + if e.spends then 1 else 0 := by
  rw [spent, List.reverse_append, List.reverse_singleton, List.singleton_append]
  cases hresets : e.resets with
  | true => simp [hresets]
  | false =>
    cases hspends : e.spends with
    | true => simp [hresets, hspends, spent]
    | false => simp [hresets, hspends, spent]

theorem ended_append_singleton (events : List JobEvent) (e : JobEvent) :
    ended (events ++ [e]) = e.terminal := by
  rw [ended, List.getLast?_append, List.getLast?_singleton, Option.some_or, Option.any_some]

theorem Numbered.last (events : List JobEvent) (h : Numbered events) :
    (events.map JobEvent.seq).foldr max 0 = events.length := by
  have hrange : ∀ n, (List.range' 1 n).foldr max 0 = n := by
    intro n
    induction n with
    | zero => rfl
    | succ n ih =>
      have hfold : ∀ (l : List ℕ) (a : ℕ), l.foldr max a = max (l.foldr max 0) a := by
        intro l a
        induction l with
        | nil => simp
        | cons b l ih => rw [List.foldr_cons, List.foldr_cons, ih, max_assoc]
      rw [List.range'_concat, List.foldr_append, hfold, ih]
      simp only [List.foldr_cons, List.foldr_nil]
      omega
  rw [h, hrange]

theorem Numbered.append_singleton {events : List JobEvent} (h : Numbered events) {e : JobEvent}
    (he : e.seq = events.length + 1) : Numbered (events ++ [e]) := by
  rw [Numbered, List.map_append, List.map_singleton, h, he, List.length_append,
    List.length_singleton, List.range'_concat]
  congr 2
  omega

/-! ## What is recorded -/

/-- Events of one job, appended one after the other. -/
inductive Recorded (job_id : String) :
    Table JobEvent.key → List (EventKind × Detail) → Table JobEvent.key → Prop where
  | none {events : Table JobEvent.key} : Recorded job_id events [] events
  | next {events events₁ events₂ : Table JobEvent.key} {clock : ℤ} {kind : EventKind}
      {detail : Detail} {entries : List (EventKind × Detail)}
      (hinsert : events.insert ⟨job_id,
        ((history events job_id).map JobEvent.seq).foldr max 0 + 1, kind, clock, detail⟩
          = some events₁)
      (hrest : Recorded job_id events₁ entries events₂) :
    Recorded job_id events ((kind, detail) :: entries) events₂

variable {kind : EventKind} {detail : Detail} {new : List JobEvent}

theorem append_event_recorded {db db' : Database} {clock : ℤ} {job_id : String}
    {entries : List (EventKind × Detail)} {events : Table JobEvent.key}
    (h : db.append_event clock job_id kind detail = .ok db')
    (hrest : Recorded job_id db'.sync_job_events entries events) :
    Recorded job_id db.sync_job_events ((kind, detail) :: entries) events := by
  obtain ⟨events₁, hinsert, rfl⟩ := append_event_writes h
  exact .next hinsert hrest

section Recorded

variable {job_id : String} {events events' : Table JobEvent.key}
  {entries : List (EventKind × Detail)}

theorem history_insert {e : JobEvent} (h : events.insert e = some events') (other : String) :
    history events' other
      = history events other ++ if e.job_id = other then [e] else [] := by
  rw [history, (Table.insert_eq_some h).2, List.filter_append, ← history]
  by_cases hid : e.job_id = other
  · simp [hid]
  · simp [hid]

theorem Recorded.other (h : Recorded job_id events entries events') {other : String}
    (hne : other ≠ job_id) : history events' other = history events other := by
  induction h with
  | none => rfl
  | next hinsert hrest ih => rw [ih, history_insert hinsert, if_neg (Ne.symm hne), List.append_nil]

theorem Recorded.mem (h : Recorded job_id events entries events') {e : JobEvent}
    (he : e ∈ events'.rows) : e.job_id = job_id ∨ e ∈ events.rows := by
  induction h with
  | none => exact .inr he
  | next hinsert hrest ih =>
    rcases ih he with hid | hmem
    · exact .inl hid
    · rw [(Table.insert_eq_some hinsert).2, List.mem_append, List.mem_singleton] at hmem
      rcases hmem with hmem | rfl
      · exact .inr hmem
      · exact .inl rfl

theorem Recorded.job (h : Recorded job_id events entries events')
    (hnumbered : Numbered (history events job_id)) :
    Numbered (history events' job_id) ∧ ∃ new, history events' job_id = history events job_id ++ new
      ∧ new.map (fun e => (e.kind, e.detail)) = entries := by
  induction h with
  | none => exact ⟨hnumbered, [], (List.append_nil _).symm, rfl⟩
  | @next events events₁ events₂ clock kind detail entries hinsert hrest ih =>
    have hstep := history_insert hinsert job_id
    rw [if_pos rfl] at hstep
    have hnumbered' : Numbered (history events₁ job_id) := by
      rw [hstep]
      refine hnumbered.append_singleton ?_
      rw [hnumbered.last]
    obtain ⟨hlast, new, hnew, hentries⟩ := ih hnumbered'
    refine ⟨hlast, ⟨job_id, ((history events job_id).map JobEvent.seq).foldr max 0 + 1, kind, clock,
      detail⟩ :: new, ?_, ?_⟩
    · rw [hnew, hstep, List.append_assoc, List.singleton_append]
    · rw [List.map_cons, hentries]

end Recorded

/-! ## How a job changes -/

/-- A job's row before and after, and the events of the change. `resets` holds of the jobs
whose attempts an operator resets, `taken` of the rows that a worker takes. -/
inductive Transition (max_attempts : ℕ) (resets : String → Prop) (taken : JobRow → Prop)
    (r r' : JobRow) : List (EventKind × Detail) → Prop where
  | claimed (detail : Detail) (hbefore : r.status = .pending) (hafter : r'.status = .running)
      (hattempts : r'.attempts = r.attempts) (htaken : taken r') :
    Transition max_attempts resets taken r r' [(.claimed, detail)]
  | reclaimed (detail : Detail) (hbefore : r.status = .running) (hafter : r'.status = .running)
      (hattempts : r'.attempts = r.attempts + 1) (hbound : r'.attempts < max_attempts)
      (htaken : taken r') :
    Transition max_attempts resets taken r r' [(.lease_expired, {}), (.claimed, detail)]
  | expired (hbefore : r.status = .running) (hafter : r'.status = .failed)
      (hattempts : r'.attempts = r.attempts + 1) (hbound : r'.attempts = max_attempts) :
    Transition max_attempts resets taken r r'
      [(.lease_expired, {}), (.failed, { code := some lease_expired_code })]
  | page (page : Page) (hbefore : r.status = .running) (hafter : r'.status = .pending)
      (hattempts : r'.attempts = r.attempts) :
    Transition max_attempts resets taken r r' [(.page, page_detail page)]
  | last_page (page : Page) (hbefore : r.status = .running) (hafter : r'.status = .succeeded)
      (hattempts : r'.attempts = r.attempts) :
    Transition max_attempts resets taken r r' [(.page, page_detail page), (.succeeded, {})]
  | retried (millis : ℕ) (cause : Error) (hbefore : r.status = .running)
      (hafter : r'.status = .pending) (hattempts : r'.attempts = r.attempts + 1)
      (hbound : r'.attempts < max_attempts) (hcause : terminal_error cause = false) :
    Transition max_attempts resets taken r r'
      [(.retry, retry_detail millis (failure_code (some cause)))]
  | failed (cause : Error) (hbefore : r.status = .running) (hafter : r'.status = .failed)
      (hattempts : r'.attempts = r.attempts + 1)
      (hbound : r'.attempts = max_attempts ∨ terminal_error cause = true) :
    Transition max_attempts resets taken r r'
      [(.failed, { code := some (failure_code (some cause)) })]
  | cancelled (reason : String) (hbefore : r.status = .pending ∨ r.status = .running)
      (hafter : r'.status = .cancelled) (hattempts : r'.attempts = r.attempts) :
    Transition max_attempts resets taken r r' [(.cancelled, { reason := some reason })]
  | run_now (hbefore : r.status ≠ .failed) (hafter : r'.status = .pending)
      (hattempts : r'.attempts = r.attempts) :
    Transition max_attempts resets taken r r' [(.scheduled, scheduled_detail "run_now")]
  | reset (hreset : resets r.id) (hafter : r'.status = .pending) (hattempts : r'.attempts = 0) :
    Transition max_attempts resets taken r r' [(.scheduled, scheduled_detail "reset_attempts")]

/-- The row of a job agrees with its history. -/
structure Accounted (max_attempts : ℕ) (r : JobRow) (events : List JobEvent) : Prop where
  numbered : Numbered events
  attempts : r.attempts = spent events
  bounded : r.attempts ≤ max_attempts
  failed : r.status = .failed ↔ r.attempts = max_attempts ∨ ended events = true

theorem Accounted.lt {max_attempts : ℕ} {r : JobRow} {events : List JobEvent}
    (h : Accounted max_attempts r events) (hstatus : r.status ≠ .failed) :
    r.attempts < max_attempts := by
  refine lt_of_le_of_ne h.bounded (fun heq => ?_)
  exact hstatus (h.failed.mpr (.inl heq))

/-! ## A change keeps the accounts -/

section Kinds

variable {e : JobEvent}

theorem plain_event (hkind : e.kind = .claimed ∨ e.kind = .page ∨ e.kind = .succeeded
      ∨ e.kind = .cancelled) :
    e.resets = false ∧ e.spends = false ∧ e.terminal = false := by
  rw [JobEvent.resets, JobEvent.spends, JobEvent.terminal]
  rcases hkind with hkind | hkind | hkind | hkind
  · simp [hkind]
  · simp [hkind]
  · simp [hkind]
  · simp [hkind]

theorem spending_event (hkind : e.kind = .lease_expired ∨ e.kind = .retry) :
    e.resets = false ∧ e.spends = true ∧ e.terminal = false := by
  rw [JobEvent.resets, JobEvent.spends, JobEvent.terminal]
  rcases hkind with hkind | hkind
  · simp [hkind]
  · simp [hkind]

theorem failed_event {cause : Error} (hkind : e.kind = .failed)
    (hdetail : e.detail = { code := some (failure_code (some cause)) }) :
    e.resets = false ∧ e.spends = true ∧ e.terminal = terminal_error cause := by
  rw [JobEvent.resets, JobEvent.spends, JobEvent.terminal, hkind, hdetail]
  cases cause with
  | Runner retry_after_seconds =>
    have hcode : failure_code (some (.Runner retry_after_seconds)) = "RUNNER_ERROR" := rfl
    have hterminal : terminal_error (.Runner retry_after_seconds) = false := by
      simp [terminal_error]
    rw [hcode, hterminal]
    decide
  | _ => decide

theorem lease_expired_event (hkind : e.kind = .failed)
    (hdetail : e.detail = { code := some lease_expired_code }) :
    e.resets = false ∧ e.spends = false ∧ e.terminal = false := by
  rw [JobEvent.resets, JobEvent.spends, JobEvent.terminal, hkind, hdetail]
  decide

theorem run_now_event (hkind : e.kind = .scheduled)
    (hdetail : e.detail = scheduled_detail "run_now" ∨ e.detail = scheduled_detail "new_job") :
    e.resets = false ∧ e.spends = false ∧ e.terminal = false := by
  rw [JobEvent.resets, JobEvent.spends, JobEvent.terminal, hkind]
  rcases hdetail with hdetail | hdetail
  · rw [hdetail]
    decide
  · rw [hdetail]
    decide

theorem reset_event (hkind : e.kind = .scheduled)
    (hdetail : e.detail = scheduled_detail "reset_attempts") :
    e.resets = true ∧ e.terminal = false := by
  rw [JobEvent.resets, JobEvent.terminal, hkind, hdetail]
  decide

end Kinds

theorem singleton_of_map (h : new.map (fun e => (e.kind, e.detail)) = [(kind, detail)]) :
    ∃ e, new = [e] ∧ e.kind = kind ∧ e.detail = detail := by
  obtain ⟨e, rfl, he⟩ := List.map_eq_singleton_iff.mp h
  rw [Prod.mk.injEq] at he
  exact ⟨e, rfl, he.1, he.2⟩

theorem pair_of_map {kind' : EventKind} {detail' : Detail}
    (h : new.map (fun e => (e.kind, e.detail)) = [(kind, detail), (kind', detail')]) :
    ∃ e e', new = [e, e'] ∧ (e.kind = kind ∧ e.detail = detail)
      ∧ e'.kind = kind' ∧ e'.detail = detail' := by
  obtain ⟨e, rest, rfl, he, hrest⟩ := List.map_eq_cons_iff.mp h
  obtain ⟨e', rfl, he'⟩ := singleton_of_map hrest
  rw [Prod.mk.injEq] at he
  exact ⟨e, e', rfl, he, he'⟩

section Accounts

variable {max_attempts : ℕ} {r r' : JobRow} {old : List JobEvent} {e e' : JobEvent}

theorem Accounted.plain (h : Accounted max_attempts r old) (hnumbered : Numbered (old ++ [e]))
    (he : e.resets = false ∧ e.spends = false ∧ e.terminal = false)
    (hbefore : r.status ≠ .failed) (hafter : r'.status ≠ .failed)
    (hattempts : r'.attempts = r.attempts) : Accounted max_attempts r' (old ++ [e]) := by
  have hlt := h.lt hbefore
  refine ⟨hnumbered, ?_, by omega, ?_⟩
  · rw [spent_append_singleton, he.1, he.2.1, hattempts, h.attempts]
    rfl
  · rw [ended_append_singleton, he.2.2]
    refine ⟨fun hfailed => absurd hfailed hafter, ?_⟩
    rintro (heq | hend)
    · omega
    · cases hend

theorem Accounted.spend (h : Accounted max_attempts r old) (hnumbered : Numbered (old ++ [e]))
    (he : e.resets = false ∧ e.spends = true) (hattempts : r'.attempts = r.attempts + 1)
    (hbound : r'.attempts ≤ max_attempts)
    (hfailed : r'.status = .failed ↔ r'.attempts = max_attempts ∨ e.terminal = true) :
    Accounted max_attempts r' (old ++ [e]) := by
  refine ⟨hnumbered, ?_, hbound, ?_⟩
  · rw [spent_append_singleton, he.1, he.2, hattempts, h.attempts]
    rfl
  · rw [ended_append_singleton]
    exact hfailed

theorem Accounted.again (h : Accounted max_attempts r old) (hnumbered : Numbered (old ++ [e]))
    (he : e.resets = false ∧ e.spends = false ∧ e.terminal = false)
    (hended : ended old = false) : Accounted max_attempts r (old ++ [e]) := by
  refine ⟨hnumbered, ?_, h.bounded, ?_⟩
  · rw [spent_append_singleton, he.1, he.2.1, h.attempts]
    rfl
  · rw [ended_append_singleton, he.2.2, h.failed, hended]

theorem Numbered.front (h : Numbered (old ++ [e])) : Numbered old := by
  rw [Numbered, List.map_append, List.length_append, List.length_singleton, List.range'_concat] at h
  exact (List.append_inj' h rfl).1

/-- **A change keeps the accounts.** -/
theorem Transition.accounted {resets : String → Prop} {taken : JobRow → Prop}
    {entries : List (EventKind × Detail)} {new : List JobEvent}
    (h : Transition max_attempts resets taken r r' entries) (hpos : 0 < max_attempts)
    (hr : Accounted max_attempts r old) (hnumbered : Numbered (old ++ new))
    (hentries : new.map (fun e => (e.kind, e.detail)) = entries) :
    Accounted max_attempts r' (old ++ new) := by
  cases h with
  | claimed detail hbefore hafter hattempts htaken =>
    obtain ⟨e, rfl, hkind, -⟩ := singleton_of_map hentries
    exact hr.plain hnumbered (plain_event (.inl hkind)) (by simp [hbefore]) (by simp [hafter])
      hattempts
  | reclaimed detail hbefore hafter hattempts hbound htaken =>
    obtain ⟨e, e', rfl, ⟨hkind, -⟩, hkind', -⟩ := pair_of_map hentries
    rw [show old ++ [e, e'] = (old ++ [e]) ++ [e'] by simp] at hnumbered ⊢
    obtain ⟨hresets, hspends, hterminal⟩ := spending_event (.inl hkind)
    have hfirst : Accounted max_attempts r' (old ++ [e]) := by
      refine hr.spend hnumbered.front ⟨hresets, hspends⟩ hattempts hbound.le ?_
      rw [hterminal, hafter]
      simp only [reduceCtorEq, Bool.false_eq_true, or_false, false_iff]
      omega
    exact hfirst.again hnumbered (plain_event (.inl hkind'))
      (by rw [ended_append_singleton, hterminal])
  | expired hbefore hafter hattempts hbound =>
    obtain ⟨e, e', rfl, ⟨hkind, -⟩, hkind', hdetail'⟩ := pair_of_map hentries
    rw [show old ++ [e, e'] = (old ++ [e]) ++ [e'] by simp] at hnumbered ⊢
    obtain ⟨hresets, hspends, hterminal⟩ := spending_event (.inl hkind)
    have hfirst : Accounted max_attempts r' (old ++ [e]) := by
      refine hr.spend hnumbered.front ⟨hresets, hspends⟩ hattempts hbound.le ?_
      simp only [hafter, hbound, true_or]
    exact hfirst.again hnumbered (lease_expired_event hkind' hdetail')
      (by rw [ended_append_singleton, hterminal])
  | page page hbefore hafter hattempts =>
    obtain ⟨e, rfl, hkind, -⟩ := singleton_of_map hentries
    exact hr.plain hnumbered (plain_event (.inr (.inl hkind))) (by simp [hbefore])
      (by simp [hafter]) hattempts
  | last_page page hbefore hafter hattempts =>
    obtain ⟨e, e', rfl, ⟨hkind, -⟩, hkind', -⟩ := pair_of_map hentries
    rw [show old ++ [e, e'] = (old ++ [e]) ++ [e'] by simp] at hnumbered ⊢
    have hplain := plain_event (.inr (.inl hkind))
    have hfirst : Accounted max_attempts r' (old ++ [e]) :=
      hr.plain hnumbered.front hplain (by simp [hbefore]) (by simp [hafter]) hattempts
    exact hfirst.again hnumbered (plain_event (.inr (.inr (.inl hkind'))))
      (by rw [ended_append_singleton, hplain.2.2])
  | retried millis cause hbefore hafter hattempts hbound hcause =>
    obtain ⟨e, rfl, hkind, -⟩ := singleton_of_map hentries
    obtain ⟨hresets, hspends, hterminal⟩ := spending_event (.inr hkind)
    refine hr.spend hnumbered ⟨hresets, hspends⟩ hattempts hbound.le ?_
    rw [hterminal, hafter]
    simp only [reduceCtorEq, Bool.false_eq_true, or_false, false_iff]
    omega
  | failed cause hbefore hafter hattempts hbound =>
    obtain ⟨e, rfl, hkind, hdetail⟩ := singleton_of_map hentries
    obtain ⟨hresets, hspends, hterminal⟩ := failed_event hkind hdetail
    have hlt := hr.lt (by simp [hbefore])
    refine hr.spend hnumbered ⟨hresets, hspends⟩ hattempts (by omega) ?_
    rw [hterminal]
    simp only [hafter, hbound]
  | cancelled reason hbefore hafter hattempts =>
    obtain ⟨e, rfl, hkind, -⟩ := singleton_of_map hentries
    refine hr.plain hnumbered (plain_event (.inr (.inr (.inr hkind)))) ?_ (by simp [hafter])
      hattempts
    rcases hbefore with hbefore | hbefore
    · simp [hbefore]
    · simp [hbefore]
  | run_now hbefore hafter hattempts =>
    obtain ⟨e, rfl, hkind, hdetail⟩ := singleton_of_map hentries
    exact hr.plain hnumbered (run_now_event hkind (.inl hdetail)) hbefore (by simp [hafter])
      hattempts
  | reset hreset hafter hattempts =>
    obtain ⟨e, rfl, hkind, hdetail⟩ := singleton_of_map hentries
    obtain ⟨hresets, hterminal⟩ := reset_event hkind hdetail
    refine ⟨hnumbered, ?_, by omega, ?_⟩
    · rw [spent_append_singleton, hresets, hattempts]
      rfl
    · rw [ended_append_singleton, hterminal, hafter]
      simp only [reduceCtorEq, Bool.false_eq_true, or_false, false_iff]
      omega

end Accounts

end Appcall.Sync
