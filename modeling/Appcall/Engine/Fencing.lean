/-
Results are fenced by the attempt they belong to.

An executor may answer late: after a restart gave the task to someone else,
after the attempt was refused and handed out again, after an operator settled
the effect. The engine tells the answers apart by the attempt, which carries its
number and the epoch of its owner. Here: the numbers of the dispatches of one
effect increase; an answer is taken only from the attempt a task is out with;
and what has a result keeps it.

A refused answer still gives back its slot, and that may make the run of the
attempt due again if it is parked. So the record may get a new wakeup and a new
revision from an answer that is refused, and nothing else.
-/
import Appcall.Engine.AtMostOnce

set_option autoImplicit false

namespace Appcall.Durable

open Appcall.Refine

/-! ## Numbers -/

variable {ls : List Label} {effect_id : String} {a : ActivityAttempt} {e : Engine} {p : PayloadRef}

theorem Path.attempt_le {m m' : Machine} (hp : Path Trans m ls m') {id : String} {i : ℕ} {n : ℕ}
    (h : ∃ t, Spot m id i t ∧ t.attempt.effect_id = effect_id ∧ n ≤ t.attempt.attempt) :
    ∃ t, Spot m' id i t ∧ t.attempt.effect_id = effect_id ∧ n ≤ t.attempt.attempt := by
  refine Path.spot hp (fun m l t t' _ hmove ht => ?_) h
  exact ⟨hmove.effect.effect_id.trans ht.1, ht.2.trans hmove.effect.attempt⟩

theorem dispatch_lt (codec : Codec) (sha256_hex : String → String) (steps : List Step) {i j : ℕ}
    {b : ActivityAttempt} (hij : i < j)
    (ha : reply_at (Engine.init codec sha256_hex) steps i = some (.ok (.drive (.Activity a))))
    (hb : reply_at (Engine.init codec sha256_hex) steps j = some (.ok (.drive (.Activity b))))
    (heff : a.effect_id = b.effect_id) : a.attempt < b.attempt := by
  have hreach : ∀ n, Reachable (after (Engine.init codec sha256_hex) (steps.take n)) :=
    fun n => ⟨codec, sha256_hex, steps.take n, rfl⟩
  obtain ⟨stepi, hi, hresi⟩ := Option.map_eq_some_iff.mp ha
  obtain ⟨stepj, hj, hresj⟩ := Option.map_eq_some_iff.mp hb
  obtain ⟨id, -, -, -, -, -, ⟨p, t0, hspot0, hatt0, -⟩, -⟩ := Step.dispatched (hreach i) hresi
  rw [← after_take_succ _ steps hi] at hspot0
  obtain ⟨ls, hp⟩ := after_path (hreach (i + 1)).wellFormed ((steps.take j).drop (i + 1))
  rw [← after_take_le _ steps (by omega)] at hp
  obtain ⟨id', now, m, ls', hp', -, -, hready⟩ := Step.dispatched (hreach j) hresj
  obtain ⟨t, hspot, hteff, hle⟩ := Path.attempt_le (hp.append hp')
    ⟨t0, hspot0, (by rw [hatt0]), (by rw [hatt0])⟩
  obtain ⟨-, hnum⟩ := hready id p t hspot (by rw [hteff, heff])
  omega

/-! ## Answers -/

/-- The attempt is out: a task of its run is with it, under the current epoch, and
the run takes results. -/
def Held (e : Engine) (a : ActivityAttempt) : Prop :=
  ∃ r task, e.store.load a.run_id = .ok r ∧ task ∈ r.tasks ∧ task.attempt = a
    ∧ (task.state = .InFlight ∨ task.state = .Invoking) ∧ a.owner_epoch = e.store.epoch
    ∧ (r.state.terminal = true → r.state = .Failed ∧ r.failure_reason = some .RetryExhausted)

/-- The record after a refused answer: as it was, or made due by the slot that
the answer gave back. -/
def Untouched (e : Engine) (r r' : RunRecord) : Prop :=
  r' = r ∨ (r.state = .Running ∧ r.id ∈ e.parked
    ∧ r' = { r with wakeup := some 0, revision := r'.revision })

theorem TaskState.held_iff {s : TaskState} : s.held = true ↔ s = .InFlight ∨ s = .Invoking := by
  cases s <;> simp [TaskState.held]

theorem RunRecord.retry_exhausted_iff {r : RunRecord} :
    r.retry_exhausted = true ↔ r.state = .Failed ∧ r.failure_reason = some .RetryExhausted := by
  simp [RunRecord.retry_exhausted]

theorem Path.releases_untouched {m' : Machine} (hp : Path Trans e.machine ls m')
    (hl : ∀ l ∈ ls, l.releases a) {id : String} {r : RunRecord} {c : Option ℤ}
    (hr : e.machine.runs id = some ⟨r, c⟩) (hid : r.id = id) :
    ∃ r' c', m'.runs id = some ⟨r', c'⟩ ∧ Untouched e r r' := by
  have hkeep : (∀ x ∈ m'.parked, x ∈ e.parked)
      ∧ ∃ r' c', m'.runs id = some ⟨r', c'⟩ ∧ Untouched e r r' := by
    refine Path.keeps (I := fun m => (∀ x ∈ m.parked, x ∈ e.parked)
      ∧ ∃ r' c', m.runs id = some ⟨r', c'⟩ ∧ Untouched e r r') hp
      (fun l hmem m1 m2 htrans hI => ?_) ⟨fun x hx => hx, r, c, hr, .inl rfl⟩
    obtain ⟨hparked, r1, c1, hr1, hun⟩ := hI
    have hrel := hl l hmem
    refine ⟨?_, ?_⟩
    · cases htrans with
      | change => exact hparked
      | unpark =>
        intro x hx
        exact hparked x (List.mem_of_mem_erase hx)
      | release => exact hparked
      | _ => exact hrel.elim
    · rcases htrans.forward hr1 with ⟨c2, hr2⟩ | ⟨run, children, hid1, hc, -, -, c2, hr2⟩
      · exact ⟨r1, c2, hr2, hun⟩
      · refine ⟨run.saved, c2, hr2, .inr ?_⟩
        cases hc with
        | wake hrun hpark =>
          have hpark' := hparked _ hpark
          rcases hun with rfl | ⟨h1, h2, h3⟩
          · exact ⟨hrun, hpark', rfl⟩
          · refine ⟨h1, h2, ?_⟩
            rw [h3]
            rfl
        | _ => exact hrel.elim
  exact hkeep.2

/-- **An answer is taken from the attempt that is out, or changes nothing.** -/
theorem Settles.held (he : Reachable e) {step : Step} {l : Label}
    (hp : Path Trans e.machine ls (step.exec e).2.machine) (hw' : WellFormed (step.exec e).2.store)
    (hl : (∃ output, l = .complete a output) ∨ ∃ failure at_ms, l = .fail a failure at_ms)
    (hs : Settles l a (step.exec e).1 ls) : Held e a ∨ ((∃ error, (step.exec e).1 = .error error)
      ∧ ∀ r, e.store.load a.run_id = .ok r →
        ∃ r', (step.exec e).2.store.load a.run_id = .ok r' ∧ Untouched e r r') := by
  generalize hres : (step.exec e).1 = res at hs
  cases hs with
  | @done _ ls hrel =>
    -- the first move is the commit of the answer, on the state before the call
    left
    generalize (step.exec e).2.machine = m' at hp
    cases hp with
    | cons htrans hrest =>
      cases htrans with
      | @change _ r run c children hstored hc _ =>
        have hown : ∃ i task, owned_attempt r a e.machine.epoch = .ok (i, task) := by
          cases hc with
          | complete hown _ =>
            rcases hl with ⟨output, hl⟩ | ⟨failure, at_ms, hl⟩ <;> cases hl
            exact ⟨_, _, hown⟩
          | fail hown _ _ =>
            rcases hl with ⟨output, hl⟩ | ⟨failure, at_ms, hl⟩ <;> cases hl
            exact ⟨_, _, hown⟩
          | _ => rcases hl with ⟨output, hl⟩ | ⟨failure, at_ms, hl⟩ <;> cases hl
        obtain ⟨i, task, hown⟩ := hown
        obtain ⟨hget, hatt, hepoch, hheld, hterm⟩ := owned_attempt_ok hown
        have hrun : a.run_id = r.id := by
          rw [← hatt]
          exact ((he.tasked r.id _ hstored).2.owner task (List.mem_of_getElem? hget)).1
        refine ⟨r, task, ?_, List.mem_of_getElem? hget, hatt, TaskState.held_iff.mp hheld, hepoch,
          fun ht => RunRecord.retry_exhausted_iff.mp (hterm ht)⟩
        rw [hrun]
        exact (load_iff he.wellFormed).mpr ⟨c, hstored⟩
      | _ => rcases hl with ⟨output, hl⟩ | ⟨failure, at_ms, hl⟩ <;> cases hl
  | @refused error _ hrel =>
    right
    refine ⟨⟨error, rfl⟩, fun r hr => ?_⟩
    obtain ⟨c, hstored⟩ := (load_iff he.wellFormed).mp hr
    obtain ⟨r', c', hr', hun⟩ := Path.releases_untouched hp hrel hstored
      (he.tasked _ _ hstored).1
    exact ⟨r', (load_iff hw').mpr ⟨c', hr'⟩, hun⟩

theorem Step.answered (he : Reachable e) {step : Step}
    (hop : (∃ output, step.op = .complete a output)
      ∨ ∃ failure failed_at_ms, step.op = .fail_at a failure failed_at_ms) :
    Held e a ∨ ((∃ error, (step.exec e).1 = .error error)
      ∧ ∀ r, e.store.load a.run_id = .ok r →
        ∃ r', (step.exec e).2.store.load a.run_id = .ok r' ∧ Untouched e r r') := by
  obtain ⟨ls, hp, hw', hout⟩ := step.path he.wellFormed
  have htells := hout.tells
  rcases hop with ⟨output, hop⟩ | ⟨failure, failed_at_ms, hop⟩
  · rw [hop] at htells
    exact Settles.held he hp hw' (.inl ⟨output, rfl⟩) htells
  · rw [hop] at htells
    exact Settles.held he hp hw' (.inr ⟨_, _, rfl⟩) htells

/-! ## Results -/

/-- The effect has the result `p`. -/
def Settled (e : Engine) (effect_id : String) (p : PayloadRef) : Prop :=
  ∃ id r task, e.store.load id = .ok r ∧ task ∈ r.tasks ∧ task.attempt.effect_id = effect_id
    ∧ task.state = .Done p

theorem settled_iff (hw : WellFormed e.store) :
    Settled e effect_id p ↔ ∃ id i t, Spot e.machine id i t ∧ t.attempt.effect_id = effect_id
      ∧ t.state = .Done p := by
  constructor
  · rintro ⟨id, r, task, hr, hmem, heff, hdone⟩
    obtain ⟨c, hc⟩ := (load_iff hw).mp hr
    obtain ⟨i, hi⟩ := List.getElem?_of_mem hmem
    exact ⟨id, i, task, ⟨r, c, hc, hi⟩, heff, hdone⟩
  · rintro ⟨id, i, t, hspot, heff, hdone⟩
    obtain ⟨r, hr, hmem⟩ := hspot.load hw
    exact ⟨id, r, t, hr, hmem, heff, hdone⟩

theorem Settled.unique (he : Reachable e) {q : PayloadRef} (h : Settled e effect_id p)
    (h' : Settled e effect_id q) : q = p := by
  obtain ⟨id, i, t, hspot, heff, hdone⟩ := (settled_iff he.wellFormed).mp h
  obtain ⟨id', i', t', hspot', heff', hdone'⟩ := (settled_iff he.wellFormed).mp h'
  obtain ⟨-, -, rfl⟩ := he.tasked.unique hspot hspot' (heff.trans heff'.symm)
  rw [hdone] at hdone'
  exact (TaskState.Done.inj hdone').symm

theorem Settled.kept (he : Reachable e) (steps : List Step) (h : Settled e effect_id p) :
    Settled (after e steps) effect_id p := by
  obtain ⟨id, i, t, hspot, heff, hdone⟩ := (settled_iff he.wellFormed).mp h
  obtain ⟨ls, hp⟩ := after_path he.wellFormed steps
  obtain ⟨t', hspot', heff', hdone'⟩ := Path.spot
    (P := fun t => t.attempt.effect_id = effect_id ∧ t.state = .Done p) hp
    (fun m l t t' _ hmove ht => ⟨hmove.effect.effect_id.trans ht.1, hmove.done ht.2⟩)
    ⟨t, hspot, heff, hdone⟩
  exact (settled_iff (after_wellFormed he.wellFormed steps)).mpr
    ⟨id, i, t', hspot', heff', hdone'⟩

/-- The step gives the effect its result. -/
def Resolves (e : Engine) (step : Step) (effect_id : String) : Prop :=
  (∀ p, ¬ Settled e effect_id p) ∧ ∃ p, Settled (step.exec e).2 effect_id p

/-- **Attempt fencing.** Over every run of the engine from an empty database:
dispatches of one effect have increasing numbers; `complete` and `fail_at` are
taken only from the attempt that is out, and otherwise fail and touch nothing of
the stored run but, if it is parked, when it is due; a result is never changed,
and so at most one step gives an effect its result. -/
theorem attempt_fencing (codec : Codec) (sha256_hex : String → String) (steps : List Step) :
    (∀ i j a b, i < j →
      reply_at (Engine.init codec sha256_hex) steps i = some (.ok (.drive (.Activity a))) →
      reply_at (Engine.init codec sha256_hex) steps j = some (.ok (.drive (.Activity b))) →
      a.effect_id = b.effect_id → a.attempt < b.attempt)
    ∧ (∀ n step a, steps[n]? = some step →
      (∃ output, step.op = .complete a output)
        ∨ (∃ failure failed_at_ms, step.op = .fail_at a failure failed_at_ms) →
      Held (after (Engine.init codec sha256_hex) (steps.take n)) a
      ∨ ((∃ error, reply_at (Engine.init codec sha256_hex) steps n = some (.error error))
        ∧ ∀ r, (after (Engine.init codec sha256_hex) (steps.take n)).store.load a.run_id = .ok r →
          ∃ r', (after (Engine.init codec sha256_hex) (steps.take (n + 1))).store.load a.run_id
              = .ok r'
            ∧ Untouched (after (Engine.init codec sha256_hex) (steps.take n)) r r'))
    ∧ (∀ i n effect_id p, i ≤ n →
      Settled (after (Engine.init codec sha256_hex) (steps.take i)) effect_id p →
      Settled (after (Engine.init codec sha256_hex) (steps.take n)) effect_id p
        ∧ ∀ q, Settled (after (Engine.init codec sha256_hex) (steps.take n)) effect_id q → q = p)
    ∧ (∀ i j stepi stepj effect_id, i < j → steps[i]? = some stepi → steps[j]? = some stepj →
      Resolves (after (Engine.init codec sha256_hex) (steps.take i)) stepi effect_id →
      ¬ Resolves (after (Engine.init codec sha256_hex) (steps.take j)) stepj effect_id) := by
  have hreach : ∀ n, Reachable (after (Engine.init codec sha256_hex) (steps.take n)) :=
    fun n => ⟨codec, sha256_hex, steps.take n, rfl⟩
  have hkept : ∀ i n effect_id p, i ≤ n →
      Settled (after (Engine.init codec sha256_hex) (steps.take i)) effect_id p →
      Settled (after (Engine.init codec sha256_hex) (steps.take n)) effect_id p := by
    intro i n effect_id p hle h
    rw [after_take_le _ steps hle]
    exact h.kept (hreach i) _
  refine ⟨?_, ?_, ?_, ?_⟩
  · intro i j a b hij ha hb heff
    exact dispatch_lt codec sha256_hex steps hij ha hb heff
  · intro n step a hn hop
    rw [after_take_succ _ steps hn]
    rcases Step.answered (hreach n) hop with h | ⟨⟨error, herr⟩, h⟩
    · exact .inl h
    · refine .inr ⟨⟨error, ?_⟩, h⟩
      unfold reply_at
      rw [hn, Option.map_some, herr]
  · intro i n effect_id p hle h
    exact ⟨hkept i n effect_id p hle h,
      fun q hq => (hkept i n effect_id p hle h).unique (hreach n) hq⟩
  · intro i j stepi stepj effect_id hij hi hj hresi hresj
    obtain ⟨p, hp⟩ := hresi.2
    rw [← after_take_succ _ steps hi] at hp
    exact hresj.1 p (hkept (i + 1) j effect_id p hij hp)

/-- A run whose first activity was taken back as uncertain while its attempt was
still out, and that is parked for a slot for its second activity. -/
def Sample.parked : List Step :=
  Sample.start (Sample.pair .Unknown .Idempotent) ++ [Sample.drive "run" 0, Sample.drive "run" 0,
    Sample.call (.reject_run "run" .RetryExhausted), Sample.drive "run" 0,
    Sample.call (.reject_dispatch (Sample.attempt 1 1 1 .Idempotent) .PayloadUnavailable),
    Sample.call (.resume "run"), Sample.call (.set_dispatch_limit 1), Sample.drive "run" 0]

/-- The late result of the first activity is refused, and the stored record is
not what it was: giving back the slot made the run due. -/
theorem stale_result_wakes_run :
    ¬ Held (Sample.host Sample.parked) (Sample.attempt 0 1 1 .Unknown)
      ∧ ((Sample.call (.complete (Sample.attempt 0 1 1 .Unknown) Sample.payload)).exec
          (Sample.host Sample.parked)).1 = .error .Conflict
      ∧ ((Sample.host Sample.parked).store.load "run").map (·.wakeup) = .ok none
      ∧ (((Sample.call (.complete (Sample.attempt 0 1 1 .Unknown) Sample.payload)).exec
          (Sample.host Sample.parked)).2.store.load "run").map (·.wakeup) = .ok (some 0) := by
  refine ⟨?_, by decide +kernel, by decide +kernel, by decide +kernel⟩
  rintro ⟨r, task, hr, hmem, hatt, hstate, -⟩
  have hnone : ((Sample.host Sample.parked).store.load "run").map (fun r => r.tasks.any
      (fun t => decide (t.attempt = Sample.attempt 0 1 1 .Unknown) && t.state.held))
      = .ok false := by decide +kernel
  have hload : (Sample.host Sample.parked).store.load "run" = .ok r := hr
  rw [hload] at hnone
  have hfalse := List.any_eq_false.mp (Except.ok.inj hnone) task hmem
  rw [TaskState.held_iff.mpr hstate] at hfalse
  simp [hatt] at hfalse

end Appcall.Durable
