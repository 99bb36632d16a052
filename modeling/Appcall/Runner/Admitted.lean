/-
What the runner keeps to: the bounds, the order of the queue, and the end of every request.

The ways of a request are few, so what is said of one is read off its `Path`. That no permit
is lost shows in the other direction too: from every state there is a way on, without new
requests, that ends with every request answered and all permits back.
-/
import Appcall.Runner.Arrivals
import Mathlib.Algebra.BigOperators.Group.List.Basic

set_option autoImplicit false

namespace Appcall.Serve

variable {l : Limits} {s : State}

/-! ## What is promised -/

/-- The promises of the admission, in a state and about everything up to it. -/
structure Admission (l : Limits) (s : State) : Prop where
  bounded : s.active ≤ l.maxConcurrent ∧ s.queue.length ≤ l.maxQueued
  active : s.active = s.requests.countP (fun r => r.stage.holds)
  full : s.queue ≠ [] → s.active = l.maxConcurrent
  waiting : ∀ n, n ∈ s.queue ↔ ∃ r, s.requests[n]? = some r ∧ r.stage = .waiting
  in_order : Machine.Logged Fifo s.log
  settled : ∀ (n : ℕ) (r : Request), s.requests[n]? = some r → .queued ∈ kinds s.log n →
    (kinds s.log n).count .permitted + (kinds s.log n).count .refused
      = if r.stage = .waiting then 0 else 1
  answered : ∀ (n : ℕ) (r : Request), s.requests[n]? = some r →
    (kinds s.log n).count .answered = if r.stage = .finished then 1 else 0
  holds : ∀ (n : ℕ) (r : Request), s.requests[n]? = some r →
    (r.stage.holds = true ↔ .permitted ∈ kinds s.log n ∧ .completed ∉ kinds s.log n)
  refused : ∀ n, .refused ∈ kinds s.log n →
    .permitted ∉ kinds s.log n ∧ .completed ∉ kinds s.log n ∧ .invoked ∉ kinds s.log n
  admitted : ∀ n, .completed ∈ kinds s.log n ∨ .invoked ∈ kinds s.log n →
    .permitted ∈ kinds s.log n
  counted : s.completed = s.log.countP Event.is_completed
  draining : ∀ n, Late s.log n → .permitted ∉ kinds s.log n
  recycled : s.log.count .recycled ≤ 1 ∧ (.recycled ∈ s.log → s.active = 0 ∧ s.queue = [])

/-! ## The ways of a request -/

def Told (stage : Stage) (ks : List Kind) : Prop :=
  (.queued ∈ ks → ks.count .permitted + ks.count .refused = if stage = .waiting then 0 else 1)
    ∧ (ks.count .answered = if stage = .finished then 1 else 0)
    ∧ (stage.holds = true ↔ .permitted ∈ ks ∧ .completed ∉ ks)
    ∧ (.refused ∈ ks → .permitted ∉ ks ∧ .completed ∉ ks ∧ .invoked ∉ ks)
    ∧ (.completed ∈ ks ∨ .invoked ∈ ks → .permitted ∈ ks)

instance (stage : Stage) (ks : List Kind) : Decidable (Told stage ks) :=
  inferInstanceAs (Decidable (_ ∧ _))

variable {ks : List Kind} {n : ℕ} {r : Request}

theorem reading_true (h : Path (.reading true) ks) :
    ks = [.arrived, .permitted] ∨ ks = [.arrived, .queued, .permitted] := by
  cases h with
  | reads => exact .inl rfl
  | reads_admitted => exact .inr rfl

theorem executing_true (h : Path (.executing true) ks) :
    ks = [.arrived, .permitted, .invoked] ∨ ks = [.arrived, .queued, .permitted, .invoked] := by
  cases h with
  | executes h =>
    rcases reading_true h with rfl | rfl
    · exact .inl rfl
    · exact .inr rfl

theorem reading_false (h : Path (.reading false) ks) :
    ks = [.arrived] ∨ ks = [.arrived, .queued, .refused] := by
  cases h with
  | reads_aborted => exact .inl rfl
  | reads_refused => exact .inr rfl

theorem Path.told {stage : Stage} (h : Path stage ks) : Told stage ks := by
  cases h with
  | waits => decide
  | admitted => decide
  | refused => decide
  | reads => decide
  | reads_admitted => decide
  | reads_aborted => decide
  | reads_refused => decide
  | executes h =>
    rcases reading_true h with rfl | rfl
    · decide
    · decide
  | ends h hstage =>
    rcases hstage with rfl | rfl
    · rcases reading_true h with rfl | rfl
      · decide
      · decide
    · rcases executing_true h with rfl | rfl
      · decide
      · decide
  | ends_without h =>
    rcases reading_false h with rfl | rfl
    · decide
    · decide

theorem Sound.told (h : Sound l 0 s) {kind : Kind} (hkind : kind ∈ kinds s.log n) :
    ∃ r, s.requests[n]? = some r ∧ Told r.stage (kinds s.log n) := by
  cases hr : s.requests[n]? with
  | none =>
    rw [h.fresh n (List.getElem?_eq_none_iff.mp hr)] at hkind
    exact absurd hkind List.not_mem_nil
  | some r => exact ⟨r, rfl, (h.paths n r hr).told⟩

theorem Sound.admission (h : Sound l 0 s) : Admission l s where
  bounded := ⟨h.bound, h.queue_bound⟩
  active := h.active
  full := h.full
  waiting := h.waiting
  in_order := h.book.fifo
  settled := fun n r hr => (h.paths n r hr).told.1
  answered := fun n r hr => (h.paths n r hr).told.2.1
  holds := fun n r hr => (h.paths n r hr).told.2.2.1
  refused := fun n hrefused => by
    obtain ⟨r, -, htold⟩ := h.told hrefused
    exact htold.2.2.2.1 hrefused
  admitted := fun n hkind => by
    have hsome : ∃ kind, kind ∈ kinds s.log n := hkind.elim (⟨_, ·⟩) (⟨_, ·⟩)
    obtain ⟨kind, hmem⟩ := hsome
    obtain ⟨r, -, htold⟩ := h.told hmem
    exact htold.2.2.2.2 hkind
  counted := h.counted
  draining := fun n hlate => (h.book.late n hlate).2
  recycled := by
    refine ⟨h.book.once, fun hmem => ?_⟩
    obtain ⟨-, hactive⟩ := h.recycled hmem
    refine ⟨hactive, ?_⟩
    by_contra hqueue
    have hfull := h.full hqueue
    have hpositive := l.positive
    omega

/-! ## Every request comes to its end -/

def Stage.rank : Stage → ℕ
  | .waiting => 4
  | .settled _ => 3
  | .reading _ => 2
  | .executing _ => 1
  | .finished => 0

def State.rank (s : State) : ℕ := (s.requests.map (fun r => r.stage.rank)).sum

def State.due (s : State) : Prop :=
  ∀ r ∈ s.requests, r.stage = .waiting → r.admittedAt + maxOperationTimeoutMs ≤ s.now

theorem sum_set {α : Type} {l : List α} {a b : α} (h : l[n]? = some a) (f : α → ℕ) :
    ((l.set n b).map f).sum + f a = (l.map f).sum + f b := by
  induction l generalizing n with
  | nil => cases h
  | cons x l ih =>
    cases n with
    | zero =>
      cases h
      simp only [List.set_cons_zero, List.map_cons, List.sum_cons]
      omega
    | succ n =>
      have hrest := ih (n := n) h
      simp only [List.set_cons_succ, List.map_cons, List.sum_cons]
      omega

theorem rank_set (s' : State) {r' : Request} (hr : s.requests[n]? = some r)
    (hset : s'.requests = s.requests.set n r') :
    s'.rank + r.stage.rank = s.rank + r'.stage.rank := by
  rw [State.rank, hset]
  exact sum_set hr (fun r => r.stage.rank)

theorem due_set {s' : State} (h : s.due) {r' : Request} (hset : s'.requests = s.requests.set n r')
    (hnow : s'.now = s.now) (hstage : r'.stage ≠ .waiting) : s'.due := by
  intro r hr hwaits
  rw [hset] at hr
  rw [hnow]
  rcases List.mem_or_eq_of_mem_set hr with hold | rfl
  · exact h r hold hwaits
  · exact absurd hwaits hstage

theorem pass_less (h : s.due) (hwaiting : ∀ n ∈ s.queue, ∀ r, s.requests[n]? = some r →
    r.stage = .waiting) : s.pass.rank ≤ s.rank ∧ s.pass.due := by
  rw [State.pass]
  split
  next => exact ⟨Nat.le_refl _, h⟩
  next next rest hqueue =>
    split
    next r hr =>
      have hstage := hwaiting next (by rw [hqueue]; exact List.mem_cons_self) r hr
      have hrank := rank_set (s.settleQueued next r true) hr rfl
      rw [hstage] at hrank
      have hsettled : (Stage.settled true).rank = 3 := rfl
      have hwaits : Stage.waiting.rank = 4 := rfl
      dsimp only at hrank
      exact ⟨by omega, due_set h rfl rfl (fun h => by cases h)⟩
    next => exact ⟨Nat.le_refl _, h⟩

theorem recycle_same (s : State) : s.recycle.rank = s.rank ∧ (s.due → s.recycle.due) := by
  rw [State.recycle]
  split
  next => exact ⟨rfl, id⟩
  next => exact ⟨rfl, id⟩

theorem leave_less (h : Sound l 0 s) (hdue : s.due) {permit : Bool} (hr : s.requests[n]? = some r)
    (hstage : r.stage = .reading permit ∨ r.stage = .executing permit) :
    (s.leave l n r permit).rank < s.rank ∧ (s.leave l n r permit).due := by
  have hpos : 0 < r.stage.rank := by
    rcases hstage with hstage | hstage
    · rw [hstage]
      exact Nat.succ_pos _
    · rw [hstage]
      exact Nat.succ_pos _
  have hfinished : Stage.finished.rank = 0 := rfl
  rw [State.leave]
  split
  next hpermit =>
    subst hpermit
    have hrank := rank_set (s.complete l n r) hr rfl
    have hcomplete : (s.complete l n r).due := due_set hdue rfl rfl (fun h => by cases h)
    have hwaiting : ∀ m ∈ (s.complete l n r).queue, ∀ x,
        (s.complete l n r).requests[m]? = some x → x.stage = .waiting := by
      intro m hm x hx
      obtain ⟨y, hy, hwaits⟩ := ((h.complete hr hstage).waiting m).mp hm
      rw [hx] at hy
      cases hy
      exact hwaits
    obtain ⟨hless, hpassed⟩ := pass_less hcomplete hwaiting
    obtain ⟨hsame, hkept⟩ := recycle_same (s.complete l n r).pass
    dsimp only at hrank
    exact ⟨by omega, hkept hpassed⟩
  next =>
    have hrank := rank_set ((s.put n r .finished).note [.request n .answered]) hr rfl
    dsimp only at hrank
    exact ⟨by omega, due_set hdue rfl rfl (fun h => by cases h)⟩

theorem exists_step_less (h : Sound l 0 s) (hdue : s.due) (hmem : r ∈ s.requests)
    (hopen : r.stage ≠ .finished) : ∃ op, (∀ aborted, op ≠ .arrive aborted)
      ∧ (s.step l op).rank < s.rank ∧ (s.step l op).due := by
  obtain ⟨n, hr⟩ := List.mem_iff_getElem?.mp hmem
  cases hstage : r.stage with
  | waiting =>
    refine ⟨.expire n, (fun _ h => by cases h), ?_⟩
    rw [State.step, hr]
    dsimp only
    rw [if_pos ⟨hstage, hdue r hmem hstage⟩]
    have hrank := rank_set (s.settleQueued n r false) hr rfl
    rw [hstage] at hrank
    have hsettled : (Stage.settled false).rank = 3 := rfl
    have hwaits : Stage.waiting.rank = 4 := rfl
    dsimp only at hrank
    exact ⟨by omega, due_set hdue rfl rfl (fun h => by cases h)⟩
  | settled admitted =>
    refine ⟨.resume n, (fun _ h => by cases h), ?_⟩
    rw [State.step, hr]
    dsimp only
    rw [hstage]
    dsimp only
    have hrank := rank_set (s.put n r (.reading admitted)) hr rfl
    rw [hstage] at hrank
    have hreading : (Stage.reading admitted).rank = 2 := rfl
    have hsettled : (Stage.settled admitted).rank = 3 := rfl
    dsimp only at hrank
    exact ⟨by omega, due_set hdue rfl rfl (fun h => by cases h)⟩
  | reading permit =>
    refine ⟨.body n .unusable, (fun _ h => by cases h), ?_⟩
    rw [State.step, hr]
    dsimp only
    rw [hstage]
    exact leave_less h hdue hr (.inl hstage)
  | executing permit =>
    refine ⟨.finish n, (fun _ h => by cases h), ?_⟩
    rw [State.step, hr]
    dsimp only
    rw [hstage]
    exact leave_less h hdue hr (.inr hstage)
  | finished => exact absurd hstage hopen

theorem length_leave (s : State) (n : ℕ) (r : Request) (permit : Bool) :
    (s.leave l n r permit).requests.length = s.requests.length := by
  have hrecycle : ∀ s : State, s.recycle.requests = s.requests := by
    intro s
    rw [State.recycle]
    split
    next => rfl
    next => rfl
  have hpass : ∀ s : State, s.pass.requests.length = s.requests.length := by
    intro s
    rw [State.pass]
    split
    next => rfl
    next =>
      split
      next => exact List.length_set
      next => rfl
  rw [State.leave]
  split
  next =>
    rw [hrecycle, hpass]
    exact List.length_set
  next => exact List.length_set

theorem length_step {op : Op} (hop : ∀ aborted, op ≠ .arrive aborted) :
    (s.step l op).requests.length = s.requests.length := by
  cases op with
  | tick => rfl
  | arrive aborted => exact absurd rfl (hop aborted)
  | abort n =>
    rw [State.step]
    split
    next => rfl
    next =>
      split
      next => exact List.length_set
      next => exact List.length_set
  | expire n =>
    rw [State.step]
    split
    next => rfl
    next =>
      split
      next => exact List.length_set
      next => rfl
  | resume n =>
    rw [State.step]
    split
    next => rfl
    next =>
      split
      next => exact List.length_set
      next => rfl
  | body n b =>
    rw [State.step]
    split
    next => rfl
    next r _ =>
      split
      next permit _ =>
        cases b with
        | unusable => exact length_leave s n r permit
        | envelope deadlineUnixMs =>
          rw [State.body]
          split
          next => exact length_leave s n r permit
          next => exact List.length_set
      next => rfl
  | finish n =>
    rw [State.step]
    split
    next => rfl
    next r _ =>
      split
      next permit _ => exact length_leave s n r permit
      next => rfl

def Op.arrives : Op → Bool
  | .arrive _ => true
  | _ => false

theorem length_arrive (aborted : Bool) :
    (s.step l (.arrive aborted)).requests.length = s.requests.length + 1 := by
  rw [State.step, State.arrive]
  split
  · split
    · exact List.length_append
    · exact List.length_append
  · split
    · exact List.length_append
    · exact List.length_append

/-- Every arrival makes a request, and nothing else does. -/
theorem length_run (ops : List Op) : (Machine.run (State.step l) s ops).requests.length
    = s.requests.length + ops.countP Op.arrives := by
  induction ops generalizing s with
  | nil => rfl
  | cons op ops ih =>
    rw [Machine.run_cons, ih]
    cases op with
    | arrive aborted =>
      rw [length_arrive, List.countP_cons_of_pos rfl]
      omega
    | tick | abort | expire | resume | body | finish =>
      rw [length_step (by simp), List.countP_cons_of_neg (by simp [Op.arrives])]

theorem exists_end (h : Sound l 0 s) (hdue : s.due) : ∃ more,
    (∀ op ∈ more, ∀ aborted, op ≠ .arrive aborted)
      ∧ ∀ r ∈ (Machine.run (State.step l) s more).requests, r.stage = .finished := by
  induction hrank : s.rank using Nat.strongRecOn generalizing s with
  | ind rank ih =>
    by_cases hall : ∀ r ∈ s.requests, r.stage = .finished
    · exact ⟨[], fun op hop => absurd hop List.not_mem_nil, hall⟩
    · simp only [not_forall] at hall
      obtain ⟨r, hmem, hopen⟩ := hall
      obtain ⟨op, hop, hless, hdue'⟩ := exists_step_less h hdue hmem hopen
      obtain ⟨more, hmore, hend⟩ := ih _ (by omega) (h.step op) hdue' rfl
      refine ⟨op :: more, fun op' hop' => ?_, hend⟩
      rcases List.mem_cons.mp hop' with rfl | hop'
      · exact hop
      · exact hmore op' hop'

theorem le_sum {α : Type} {l : List α} {a : α} (h : a ∈ l) (f : α → Nat) :
    f a ≤ (l.map f).sum := by
  induction l with
  | nil => exact absurd h List.not_mem_nil
  | cons b l ih =>
    rw [List.map_cons, List.sum_cons]
    rcases List.mem_cons.mp h with rfl | h
    · omega
    · have := ih h
      omega

/-- **The admission keeps its promises in every run**: there are as many requests as arrived,
and every run can be ended with each of them answered and all permits back. -/
theorem run_admission (l : Limits) (ops : List Op) :
    Admission l (Machine.run (State.step l) .new ops)
      ∧ (Machine.run (State.step l) .new ops).requests.length = ops.countP Op.arrives
      ∧ ∃ more,
      (∀ op ∈ more, ∀ aborted, op ≠ .arrive aborted)
        ∧ Admission l (Machine.run (State.step l) .new (ops ++ more))
        ∧ (Machine.run (State.step l) .new (ops ++ more)).requests.length
          = (Machine.run (State.step l) .new ops).requests.length
        ∧ (∀ r ∈ (Machine.run (State.step l) .new (ops ++ more)).requests, r.stage = .finished)
        ∧ (Machine.run (State.step l) .new (ops ++ more)).active = 0 := by
  have hs := run_sound l ops
  have harrived : ∀ ops, (Machine.run (State.step l) .new ops).requests.length
      = ops.countP Op.arrives := fun ops => (length_run ops).trans (Nat.zero_add _)
  refine ⟨hs.admission, harrived ops, ?_⟩
  rw [harrived]
  generalize hrun : Machine.run (State.step l) .new ops = s at hs
  -- the time that passes is longer than any wait
  have hdue : (s.step l (.tick ((s.requests.map (fun r =>
      r.admittedAt + maxOperationTimeoutMs)).sum))).due := by
    intro r hr _
    have hle := le_sum (l := s.requests) hr (fun r => r.admittedAt + maxOperationTimeoutMs)
    exact Nat.le_trans hle (Nat.le_add_left _ _)
  obtain ⟨more, hmore, hend⟩ := exists_end (hs.step _) hdue
  generalize (s.requests.map (fun r => r.admittedAt + maxOperationTimeoutMs)).sum = elapsed
    at hend
  have hquiet : ∀ op ∈ Op.tick elapsed :: more, ∀ aborted, op ≠ .arrive aborted := by
    intro op hop
    rcases List.mem_cons.mp hop with rfl | hop
    · exact fun _ h => by cases h
    · exact hmore op hop
  have hnone : (Op.tick elapsed :: more).countP Op.arrives = 0 := by
    refine List.countP_eq_zero.mpr fun op hop harrives => ?_
    cases op with
    | arrive aborted => exact hquiet _ hop aborted rfl
    | _ => cases harrives
  refine ⟨.tick elapsed :: more, hquiet, (run_sound l _).admission, ?_, ?_, ?_⟩
  · rw [harrived, List.countP_append, hnone, Nat.add_zero]
  · rw [Machine.run_append, hrun, Machine.run_cons]
    exact hend
  · rw [(run_sound l _).active, Machine.run_append, hrun, Machine.run_cons, Nat.add_zero,
      List.countP_eq_zero]
    intro r hr hholds
    rw [hend r hr] at hholds
    cases hholds

/-- The second of two requests waits, and takes the permit of the first. -/
example : (Machine.run (State.step ⟨1, 1, none, by decide, by decide⟩) .new
      [.arrive false, .arrive false, .body 0 .unusable, .resume 1, .body 1 .unusable]).log
    = [.request 0 .arrived, .request 0 .permitted, .request 1 .arrived, .request 1 .queued,
      .request 0 .completed, .request 0 .answered, .request 1 .permitted, .request 1 .completed,
      .request 1 .answered] := by
  decide

end Appcall.Serve
