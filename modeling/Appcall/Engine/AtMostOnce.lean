/-
An effect that is not safe to repeat is handed out once, unless someone says so.

Between two dispatches of one effect with the policy `Reconcile` or `Unknown`
stands an explicit decision: the first attempt was refused before it started, or
an operator reconciled the effect as not having happened. The argument is over
the life of the task (`Tasks.lean`): once an attempt is out, the task stays with
that attempt, in flight, uncertain or done, and a dispatch needs it ready.
-/
import Appcall.Engine.Tasks

set_option autoImplicit false

namespace Appcall.Durable

open Appcall.Refine

/-! ## Explicit decisions -/

/-- The step refuses the attempt `a` while it is in flight: a `reject_dispatch`,
or a `prepare_registered_at` that finds no payload (and answers `None`, unless
the release of its dispatch failed). The task is in flight before the step and
ready after it. -/
def Rejects (e : Engine) (step : Step) (a : ActivityAttempt) : Prop :=
  ((∃ reason, step.op = .reject_dispatch a reason)
    ∨ ∃ resolver started_at_ms, step.op = .prepare_registered_at a resolver started_at_ms
        ∧ resolver a.input = .ok none
        ∧ ((step.exec e).1 = .ok (.prepared none) ∨ ∃ error, (step.exec e).1 = .error error))
  ∧ (∃ r task, e.store.load a.run_id = .ok r ∧ task ∈ r.tasks ∧ task.attempt = a
      ∧ task.state = .InFlight)
  ∧ ∃ r task, (step.exec e).2.store.load a.run_id = .ok r ∧ task ∈ r.tasks ∧ task.attempt = a
      ∧ task.state = .Ready

/-- The step is a successful reconciliation of the effect as not observed, while
the effect is uncertain (as `recover` leaves it at the start of the call). -/
def ReconcilesAway (e : Engine) (step : Step) (effect_id : String) : Prop :=
  ∃ run_id, ((∃ recorded_at_ms, step.op = .reconcile run_id effect_id none recorded_at_ms)
      ∨ ∃ attempt epoch evidence_ref recorded_at_ms, step.op
          = .reconcile_fenced run_id effect_id attempt epoch evidence_ref none recorded_at_ms)
    ∧ (∃ audit, (step.exec e).1 = .ok (.audit audit))
    ∧ ∃ r task, e.store.load run_id = .ok r ∧ r.state = .OutcomeUnknown
        ∧ task ∈ (recovered e.store.epoch r).tasks ∧ task.attempt.effect_id = effect_id
        ∧ task.state = .Uncertain

/-! ## One task with an executor, or past one -/

/-- The task stands at the attempt `a`, and is not waiting to be dispatched. -/
def Stuck (a : ActivityAttempt) (t : ActivityTask) : Prop :=
  t.attempt = a ∧ (t.state.held = true ∨ t.state = .Uncertain ∨ t.state.is_done = true)

/-- The labels of an explicit decision on the attempt `a`. -/
def Label.decides (a : ActivityAttempt) : Label → Prop
  | .reject_dispatch a' _ | .missing_payload a' => a' = a
  | .reconcile _ effect_id none => effect_id = a.effect_id
  | _ => False

variable {m : Machine} {l : Label} {a : ActivityAttempt} {m' : Machine} {ls : List Label}
  {e : Engine} {step : Step}

theorem TaskMove.stuck {id : String} {t t' : ActivityTask} (h : TaskMove m id l t t')
    (hs : Stuck a t) (hu : a.policy.safe = false) : Stuck a t' ∨ l.decides a := by
  obtain ⟨rfl, hst⟩ := hs
  cases h with
  | kept h1 h2 =>
    refine .inl ⟨h1, ?_⟩
    rw [h2]
    exact hst
  | rejected | missing => exact .inr rfl
  | invoked _ h2 h3 => exact .inl ⟨h2, .inl (by rw [h3]; rfl)⟩
  | completed _ _ h3 h4 => exact .inl ⟨h3, .inr (.inr (by rw [h4]; rfl))⟩
  | failed _ _ h3 h4 =>
    refine .inl ⟨h3, .inr (.inl ?_)⟩
    rcases h4 with ⟨hsafe, -⟩ | h4
    · rw [hu] at hsafe
      cases hsafe
    · exact h4
  | interrupted _ h2 h3 =>
    rw [hu] at h3
    exact .inl ⟨h2, .inr (.inl h3)⟩
  | @resolved _ _ observed _ h2 h3 =>
    cases observed with
    | none => exact .inr rfl
    | some p => exact .inl ⟨h2, .inr (.inr (by rw [h3]; rfl))⟩
  | retried _ h1 | dispatched h1 =>
    rw [h1] at hst
    rcases hst with hst | hst | hst <;> cases hst

theorem Path.stuck (hp : Path Trans m ls m') {id : String} {i : ℕ} (hu : a.policy.safe = false)
    (h : ∃ t, Spot m id i t ∧ Stuck a t) (hno : ∀ l ∈ ls, ¬ l.decides a) :
    ∃ t, Spot m' id i t ∧ Stuck a t := by
  refine Path.spot hp (fun m l t t' hl hmove hstuck => ?_) h
  rcases hmove.stuck hstuck hu with h' | h'
  · exact h'
  · exact absurd h' (hno l hl)

/-! ## Decisions are steps of the host -/

theorem Path.refused {m m' : Machine} {ls : List Label} (hp : Path Trans m ls m')
    {a : ActivityAttempt} (hl : ∀ l ∈ ls, l.releases a) {id : String} {i : ℕ}
    (h : ∃ t, Spot m id i t ∧ t.attempt = a ∧ t.state = .Ready) :
    ∃ t, Spot m' id i t ∧ t.attempt = a ∧ t.state = .Ready := by
  refine Path.spot hp (fun m l t t' hmem hmove ht => ?_) h
  obtain ⟨hatt, hready⟩ := ht
  have hrel := hl l hmem
  cases hmove with
  | kept h1 h2 => exact ⟨h1.trans hatt, h2.trans hready⟩
  | retried hlabel => rcases hlabel with rfl | rfl <;> exact hrel.elim
  | rejected | missing | invoked | completed | failed | interrupted | resolved | dispatched =>
    exact hrel.elim

theorem Spot.load (hw : WellFormed e.store) {id : String} {i : ℕ} {t : ActivityTask}
    (h : Spot e.machine id i t) : ∃ r, e.store.load id = .ok r ∧ t ∈ r.tasks := by
  obtain ⟨r, c, hr, hi⟩ := h
  exact ⟨r, (load_iff hw).mpr ⟨c, hr⟩, List.mem_of_getElem? hi⟩

theorem Trans.rejection (h : Trans m l m')
    (hl : (∃ reason, l = .reject_dispatch a reason) ∨ l = .missing_payload a) :
    ∃ id i t t', Spot m id i t ∧ t.attempt = a ∧ t.state = .InFlight
      ∧ Spot m' id i t' ∧ t'.attempt = a ∧ t'.state = .Ready := by
  cases h with
  | @change _ r run c children hs hc hf =>
    rw [← hc.frame.id] at hf
    have hself := Machine.commit_self hf
    rw [hc.frame.id] at hself
    cases hc with
    | @reject_dispatch _ _ _ i task _ hown hin =>
      obtain ⟨hget, hatt, -, -⟩ := owned_task_ok hown
      have heq : task.attempt = a := by
        rcases hl with ⟨reason, hl⟩ | hl
        · cases hl
          exact hatt
        · cases hl
      exact ⟨r.id, i, task, _, ⟨r, c, hs, hget⟩, heq, hin, ⟨_, _, hself,
        List.getElem?_set_self (List.getElem?_eq_some_iff.mp hget).1⟩, heq, rfl⟩
    | @missing_payload _ _ i task hown hin =>
      obtain ⟨hget, hatt, -, -, -⟩ := owned_attempt_ok hown
      have heq : task.attempt = a := by
        rcases hl with ⟨reason, hl⟩ | hl
        · cases hl
        · cases hl
          exact hatt
      exact ⟨r.id, i, task, _, ⟨r, c, hs, hget⟩, heq, hin, ⟨_, _, hself,
        List.getElem?_set_self (List.getElem?_eq_some_iff.mp hget).1⟩, heq, rfl⟩
    | _ => rcases hl with ⟨reason, hl⟩ | hl <;> cases hl
  | _ => rcases hl with ⟨reason, hl⟩ | hl <;> cases hl

theorem Path.rejects (ht : Tasked m) (hp : Path Trans m (l :: ls) m')
    (hl : (∃ reason, l = .reject_dispatch a reason) ∨ l = .missing_payload a)
    (hrel : ∀ l ∈ ls, l.releases a) :
    ∃ i t t', Spot m a.run_id i t ∧ t.attempt = a ∧ t.state = .InFlight
      ∧ Spot m' a.run_id i t' ∧ t'.attempt = a ∧ t'.state = .Ready := by
  cases hp with
  | cons htrans hrest =>
    obtain ⟨id, i, t, t', hspot, hatt, hin, hspot', hatt', hready⟩ := htrans.rejection hl
    obtain ⟨t'', hspot'', hatt'', hready'⟩ := Path.refused hrest hrel ⟨t', hspot', hatt', hready⟩
    have hid : a.run_id = id := by
      obtain ⟨r, c, hr, hi⟩ := hspot
      obtain ⟨hid, hok⟩ := ht id _ hr
      rw [← hatt, (hok.owner t (List.mem_of_getElem? hi)).1]
      exact hid
    subst hid
    exact ⟨i, t, t'', hspot, hatt, hin, hspot'', hatt'', hready'⟩

theorem Outcome.reconciled (hw : WellFormed e.store) {id effect_id : String}
    (h : Outcome e.machine step.op (step.exec e).1 ls) (hl : .reconcile id effect_id none ∈ ls) :
    ReconcilesAway e step effect_id := by
  have hemit := h.emits _ hl
  have htells := h.tells
  -- what the answer of a reconciliation says, for both forms of the call
  have huncertain : (∃ out : Except Error ReconciliationAudit,
        (step.exec e).1 = out.map .audit ∧ Reconciled e.machine id effect_id none out ls) →
      (∃ audit, (step.exec e).1 = .ok (.audit audit))
        ∧ ∃ r task, e.store.load id = .ok r ∧ r.state = .OutcomeUnknown
          ∧ task ∈ (recovered e.store.epoch r).tasks ∧ task.attempt.effect_id = effect_id
          ∧ task.state = .Uncertain := by
    rintro ⟨out, hout, hrec⟩
    obtain ⟨⟨audit, rfl⟩, r, c, hr, hstate, task, hmem, heff, hunc⟩ := hrec.uncertain hl
    exact ⟨⟨audit, hout⟩, r, task, (load_iff hw).mpr ⟨c, hr⟩, hstate, hmem, heff, hunc⟩
  cases hop : step.op with
  | reconcile id' effect_id' observed recorded_at_ms =>
    rw [hop] at hemit htells
    rcases hemit with hemit | hemit <;> cases hemit
    exact ⟨id, .inl ⟨recorded_at_ms, hop⟩, huncertain htells⟩
  | reconcile_fenced id' effect_id' attempt epoch evidence_ref observed recorded_at_ms =>
    rw [hop] at hemit htells
    rcases hemit with hemit | hemit <;> cases hemit
    exact ⟨id, .inr ⟨attempt, epoch, evidence_ref, recorded_at_ms, hop⟩, huncertain htells⟩
  | _ => simp [hop, Operation.emits, Label.releases, Label.drives, Label.cancels] at hemit

theorem Outcome.rejects (he : Reachable e) (hp : Path Trans e.machine ls (step.exec e).2.machine)
    (hw' : WellFormed (step.exec e).2.store) (hout : Outcome e.machine step.op (step.exec e).1 ls)
    (hmem : l ∈ ls) (hl : (∃ reason, l = .reject_dispatch a reason) ∨ l = .missing_payload a) :
    Rejects e step a ∧ ∃ ls', ls = l :: ls' ∧ ∀ l' ∈ ls', l'.releases a := by
  -- the task in the store, before and after a path that starts with a refusal
  have hstore : ∀ ls', ls = l :: ls' → (∀ l' ∈ ls', l'.releases a) →
      (∃ r task, e.store.load a.run_id = .ok r ∧ task ∈ r.tasks ∧ task.attempt = a
          ∧ task.state = .InFlight)
        ∧ ∃ r task, (step.exec e).2.store.load a.run_id = .ok r ∧ task ∈ r.tasks
          ∧ task.attempt = a ∧ task.state = .Ready := by
    intro ls' hls hrel
    rw [hls] at hp
    obtain ⟨j, t, t', hspot, hatt, hin, hspot', hatt', hready⟩ :=
      Path.rejects he.tasked hp hl hrel
    obtain ⟨r, hr, hmem⟩ := hspot.load he.wellFormed
    obtain ⟨r', hr', hmem'⟩ := hspot'.load hw'
    exact ⟨⟨r, t, hr, hmem, hatt, hin⟩, r', t', hr', hmem', hatt', hready⟩
  rcases hl with ⟨reason, rfl⟩ | rfl
  · obtain ⟨hop, ls', hls, hrel⟩ := hout.refused hmem
    exact ⟨⟨.inl ⟨reason, hop⟩, hstore ls' hls hrel⟩, ls', hls, hrel⟩
  · obtain ⟨⟨resolver, started_at_ms, hop, hnone, -, hres⟩, ls', hls, hrel⟩ := hout.missing hmem
    exact ⟨⟨.inr ⟨resolver, started_at_ms, hop, hnone, hres⟩, hstore ls' hls hrel⟩, ls', hls, hrel⟩

/-- **One step** leaves an unsafe task stuck, or is an explicit decision on it. -/
theorem Step.stuck (he : Reachable e) (step : Step) {id : String} {i : ℕ}
    (hu : a.policy.safe = false) (h : ∃ t, Spot e.machine id i t ∧ Stuck a t) :
    (∃ t, Spot (step.exec e).2.machine id i t ∧ Stuck a t)
      ∨ Rejects e step a ∨ ReconcilesAway e step a.effect_id := by
  obtain ⟨ls, hp, hw', hout⟩ := step.path he.wellFormed
  by_cases hdec : ∃ l ∈ ls, l.decides a
  · obtain ⟨l, hmem, hl⟩ := hdec
    cases l with
    | reject_dispatch a' reason =>
      cases hl
      exact .inr (.inl (hout.rejects he hp hw' hmem (.inl ⟨reason, rfl⟩)).1)
    | missing_payload a' =>
      cases hl
      exact .inr (.inl (hout.rejects he hp hw' hmem (.inr rfl)).1)
    | reconcile run_id effect_id observed =>
      cases observed with
      | some p => exact hl.elim
      | none =>
        cases hl
        exact .inr (.inr (hout.reconciled he.wellFormed hmem))
    | _ => exact hl.elim
  · refine .inl (Path.stuck hp hu h (fun l hl hd => hdec ⟨l, hl, hd⟩))

/-! ## Dispatches -/

theorem exec_map {α β : Type} (p : EngineM α) (f : α → β) (e : Engine) :
    ((p >>= fun a => pure (f a)) e).1 = (p e).1.map f := by
  have h := exec_bind p (fun a => (pure (f a) : EngineM β)) e
  unfold exec at h
  rw [h]
  rcases p e with ⟨res, e'⟩
  cases res <;> rfl

theorem perform_drive {op : Operation} {o : DriveOutcome} (h : (perform op e).1 = .ok (.drive o)) :
    ∃ id now resolver, op = .drive_with_resolver id now resolver := by
  cases op with
  | drive_with_resolver id now resolver => exact ⟨id, now, resolver, rfl⟩
  | _ =>
    unfold perform at h
    rw [exec_map] at h
    generalize Prod.fst _ = res at h
    cases res <;> cases h

theorem Step.dispatched (he : Reachable e) (h : (step.exec e).1 = .ok (.drive (.Activity a))) :
    ∃ id now m ls, Path Trans e.machine ls m ∧ (∀ l ∈ ls, l.drives id now)
      ∧ (∃ i t, Spot (step.exec e).2.machine id i t ∧ t.attempt = a ∧ t.state = .InFlight
        ∧ a.owner_epoch = (step.exec e).2.machine.epoch)
      ∧ ∀ id i t, Spot m id i t → t.attempt.effect_id = a.effect_id →
          t.state = .Ready ∧ a.attempt = t.attempt.attempt + 1 := by
  obtain ⟨ls, hp, hw', hout⟩ := step.path he.wellFormed
  obtain ⟨id, now, resolver, hop⟩ := perform_drive h
  have htells := hout.tells
  rw [hop, h] at htells
  obtain ⟨out, heq, hdrove⟩ := htells
  have hres : out = .ok (.Activity a) := by
    cases out with
    | error error => cases heq
    | ok o =>
      cases heq
      rfl
  obtain ⟨ls0, rfl⟩ := hdrove.activity a hres
  obtain ⟨m, hp0, hp1⟩ := Path.split hp
  generalize (step.exec e).2.machine = m3 at hp1
  cases hp1 with
  | @cons _ m2 _ _ _ hdispatch hp2 =>
    cases hp2 with
    | cons hhand hp3 =>
      cases hp3
      obtain ⟨i, t', hspot, hatt, hin, hepoch, hready⟩ := hdispatch.dispatch_spot
      have hspot' : Spot m3 id i t' ∧ a.owner_epoch = m3.epoch := by
        cases hhand with
        | change _ hc _ => cases hc
        | hand_out => exact ⟨hspot, hepoch⟩
      refine ⟨id, now, m, ls0, hp0, fun l hl => hdrove.drives l (List.mem_append_left _ hl),
        ⟨i, t', hspot'.1, hatt, hin, hspot'.2⟩, fun id1 i1 t1 hspot1 heff => ?_⟩
      obtain ⟨t2, hspot2, hmove⟩ := hdispatch.spot hspot1
      have htasked : Tasked m2 := hdispatch.tasked
        (Path.keeps (I := Tasked) hp0 (fun _ _ _ _ ht hI => ht.tasked hI) he.tasked)
      obtain ⟨rfl, rfl, -⟩ := htasked.unique hspot2 hspot
        (by rw [hmove.effect.effect_id, heff, hatt])
      exact hready t1 hspot1

theorem Step.dispatched_free (he : Reachable e) {b : ActivityAttempt}
    (h : (step.exec e).1 = .ok (.drive (.Activity b))) {id : String} {i : ℕ}
    (hu : a.policy.safe = false) (heff : a.effect_id = b.effect_id) :
    ¬ ∃ t, Spot e.machine id i t ∧ Stuck a t := by
  intro hstuck
  obtain ⟨id', now, m, ls, hp, hls, -, hready⟩ := Step.dispatched he h
  have hno : ∀ l ∈ ls, ¬ l.decides a := by
    intro l hl hd
    have hdr := hls l hl
    cases l <;> first | exact hd | exact hdr
  obtain ⟨t, hspot, hatt, hst⟩ := Path.stuck hp hu hstuck hno
  obtain ⟨hrdy, -⟩ := hready id i t hspot (by rw [hatt, heff])
  rw [hrdy] at hst
  rcases hst with hst | hst | hst <;> cases hst

/-- **At most once.** Between two dispatches of one effect that is not safe to
repeat, the first attempt was refused while it was in flight, or the effect was
reconciled as not having happened while it was uncertain. -/
theorem unsafe_effect_at_most_once (codec : Codec) (sha256_hex : String → String)
    (steps : List Step) (i j : ℕ) (a b : ActivityAttempt) (hij : i < j)
    (ha : reply_at (Engine.init codec sha256_hex) steps i = some (.ok (.drive (.Activity a))))
    (hb : reply_at (Engine.init codec sha256_hex) steps j = some (.ok (.drive (.Activity b))))
    (heff : a.effect_id = b.effect_id)
    (hpolicy : a.policy = .Reconcile ∨ a.policy = .Unknown) :
    ∃ k step, i < k ∧ k < j ∧ steps[k]? = some step
      ∧ (Rejects (after (Engine.init codec sha256_hex) (steps.take k)) step a
        ∨ ReconcilesAway (after (Engine.init codec sha256_hex) (steps.take k)) step
            a.effect_id) := by
  have hu : a.policy.safe = false := by rcases hpolicy with h | h <;> rw [h] <;> rfl
  have hreach : ∀ n, Reachable (after (Engine.init codec sha256_hex) (steps.take n)) :=
    fun n => ⟨codec, sha256_hex, steps.take n, rfl⟩
  obtain ⟨stepi, hi, hresi⟩ := Option.map_eq_some_iff.mp ha
  obtain ⟨stepj, hj, hresj⟩ := Option.map_eq_some_iff.mp hb
  obtain ⟨id, -, -, -, -, -, ⟨p, t0, hspot0, hatt0, hin0, -⟩, -⟩ :=
    Step.dispatched (hreach i) hresi
  by_contra hnone
  push Not at hnone
  -- with no decision in between, the task is still with the first attempt
  have hstuck : ∀ n, i < n → n ≤ j →
      ∃ t, Spot (after (Engine.init codec sha256_hex) (steps.take n)).machine id p t
        ∧ Stuck a t := by
    intro n hn
    induction n, hn using Nat.le_induction with
    | base =>
      intro _
      rw [after_take_succ _ steps hi]
      exact ⟨t0, hspot0, hatt0, .inl (by rw [hin0]; rfl)⟩
    | succ n hn ih =>
      intro hle
      have hlt : n < steps.length := by
        have := (List.getElem?_eq_some_iff.mp hj).1
        omega
      have hstep : steps[n]? = some steps[n] := List.getElem?_eq_getElem hlt
      rw [after_take_succ _ steps hstep]
      rcases Step.stuck (hreach n) steps[n] hu (ih (by omega)) with h | h | h
      · exact h
      · exact absurd h (hnone n steps[n] (by omega) (by omega) hstep).1
      · exact absurd h (hnone n steps[n] (by omega) (by omega) hstep).2
  exact Step.dispatched_free (hreach j) hresj hu heff (hstuck j (by omega) le_rfl)

/-- The run that the next theorem is about: the first attempt of an activity is
refused for a missing payload, and the resumed run hands out the second. -/
def Sample.refused_once : List Step :=
  Sample.start (Sample.pair .Unknown .Unknown) ++ [Sample.drive "run" 0,
    Sample.call (.reject_dispatch (Sample.attempt 0 1 1 .Unknown) .PayloadUnavailable),
    Sample.call (.resume "run"), Sample.drive "run" 0]

/-- Between the two attempts the host has refused the first. -/
theorem unsafe_effect_refused_once :
    reply_at (Engine.init Sample.codec id) Sample.refused_once 3
        = some (.ok (.drive (.Activity (Sample.attempt 0 1 1 .Unknown))))
      ∧ reply_at (Engine.init Sample.codec id) Sample.refused_once 6
        = some (.ok (.drive (.Activity (Sample.attempt 0 2 1 .Unknown))))
      ∧ ∃ k step, 3 < k ∧ k < 6 ∧ Sample.refused_once[k]? = some step
        ∧ (Rejects (after (Engine.init Sample.codec id) (Sample.refused_once.take k)) step
            (Sample.attempt 0 1 1 .Unknown)
          ∨ ReconcilesAway (after (Engine.init Sample.codec id) (Sample.refused_once.take k)) step
            (effect_id_at "run" 0)) := by
  have hfirst : reply_at (Engine.init Sample.codec id) Sample.refused_once 3
      = some (.ok (.drive (.Activity (Sample.attempt 0 1 1 .Unknown)))) := by decide +kernel
  have hsecond : reply_at (Engine.init Sample.codec id) Sample.refused_once 6
      = some (.ok (.drive (.Activity (Sample.attempt 0 2 1 .Unknown)))) := by decide +kernel
  exact ⟨hfirst, hsecond, unsafe_effect_at_most_once Sample.codec id Sample.refused_once 3 6
    (Sample.attempt 0 1 1 .Unknown) (Sample.attempt 0 2 1 .Unknown) (by decide) hfirst hsecond
    rfl (.inr rfl)⟩

end Appcall.Durable
