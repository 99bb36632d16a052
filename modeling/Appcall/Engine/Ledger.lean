/-
The budget of a native effect: what a dispatch costs.

An effect has `max_attempts` executions. The engine counts executions, not
dispatches: one that the host refused before anything ran is free, and
`ExecutionAccounting` holds the four values this takes (executions so far, the
dispatch charged last, the flag of a refusal, the start of the window). `Ledger`
states the invariant between these values and what really happened to the
effect, with the dispatches, invocations and refusals counted beside it
(`Counts`), and `Trans.budgeted` keeps it over every move.

The counter `lost` is the one the engine does not have. A dispatch whose owner
died before it was started is charged when the effect is handed out again
(`infer_prior_execution`), but only if nothing was charged or refused before:
the second such dispatch is never charged. `Ledger.balance` says by how much the
books are off.
-/
import Appcall.Engine.Tasks

set_option autoImplicit false

namespace Appcall.Durable

open Appcall.Refine

/-! ## Counting -/

/-- What happened to one effect so far. -/
structure Counts where
  dispatched : ℕ
  invoked : ℕ
  refused : ℕ
  lost : ℕ

def Counts.zero : Counts := ⟨0, 0, 0, 0⟩

/-- One more task with an executor that has not started. -/
def ActivityTask.in_flight (t : ActivityTask) : ℕ := if t.state = .InFlight then 1 else 0

/-- The last dispatch is not charged yet, and still can be: it is the first of
the effect, or its owner is alive. -/
def ActivityTask.chargeable (epoch : ℕ) (t : ActivityTask) : ℕ :=
  if (t.attempt.attempt = 1 ∧ t.execution.execution_attempts = 0
        ∧ t.execution.known_unexecuted = false)
      ∨ (t.attempt.attempt ≠ 1 ∧ t.state = .InFlight ∧ t.attempt.owner_epoch = epoch) then 1
  else 0

/-- **The books of one task**, against what happened to its effect. -/
structure Ledger (epoch : ℕ) (c : Counts) (t : ActivityTask) : Prop where
  number : t.attempt.attempt = c.dispatched
  cap : t.attempt.attempt ≤ U64_MAX
  owned : t.attempt.owner_epoch ≤ epoch
  started : t.state ≠ .Ready → t.attempt.attempt ≠ 0
  charged : t.execution.execution_dispatch_attempt ≤ t.attempt.attempt
  marked : t.execution.execution_dispatch_attempt ≠ 0 → t.execution.execution_attempts ≠ 0
  flight : t.state = .InFlight → t.execution.execution_dispatch_attempt < t.attempt.attempt
  invoking : t.state = .Invoking → t.execution.execution_dispatch_attempt = t.attempt.attempt
  room : t.execution.execution_attempts + c.refused + t.in_flight ≤ t.attempt.attempt
  first : t.execution.execution_attempts = 0 → t.execution.known_unexecuted = false →
    t.attempt.attempt ≤ 1 ∧ c.refused = 0
  flag : t.execution.known_unexecuted = true → c.refused ≠ 0
  invoked : c.invoked ≤ t.execution.execution_attempts
  budget : t.attempt.attempt ≠ 0 → ∃ policy, t.attempt.retry_policy = some policy
    ∧ t.execution.execution_attempts + t.in_flight ≤ policy.max_attempts ∧ 0 < policy.max_attempts
  retrying : ∀ retry, t.state = .Retrying retry → t.attempt.retry_policy = some retry.policy
  balance : t.attempt.policy.safe = true → t.attempt.attempt
    = t.execution.execution_attempts + c.refused + c.lost + t.chargeable epoch

section Books

variable {epoch : ℕ} {c : Counts} {t : ActivityTask}

theorem Ledger.normal_execution (h : Ledger epoch c t) :
    normalize_legacy_attempt t.attempt t.execution = t.execution
      ∨ (t.execution.execution_attempts = t.attempt.attempt ∧ t.state ≠ .InFlight
        ∧ normalize_legacy_attempt t.attempt t.execution = { t.execution with
            execution_dispatch_attempt := t.attempt.attempt
            execution_started_at_ms := t.attempt.retry_started_at_ms }) := by
  unfold normalize_legacy_attempt
  by_cases hea : t.execution.execution_attempts = U64_MAX
  · have hroom := h.room
    have hcap := h.cap
    have heq : t.execution.execution_attempts = t.attempt.attempt := by omega
    refine .inr ⟨heq, fun hin => ?_, ?_⟩
    · unfold ActivityTask.in_flight at hroom
      rw [if_pos hin] at hroom
      omega
    · rw [if_neg (not_not.mpr hea), ← heq]
  · exact .inl (if_pos hea)

theorem Ledger.normal (h : Ledger epoch c t) : Ledger epoch c (normalize_task t) := by
  rcases h.normal_execution with heq | ⟨hea, hin, heq⟩
  · have hsame : normalize_task t = t := by
      unfold normalize_task
      rw [heq]
    rw [hsame]
    exact h
  · have hsame : normalize_task t = { t with execution := { t.execution with
        execution_dispatch_attempt := t.attempt.attempt
        execution_started_at_ms := t.attempt.retry_started_at_ms } } := by
      unfold normalize_task
      rw [heq]
    rw [hsame]
    exact { h with
      charged := le_rfl
      marked := fun hne => by rw [hea]; exact hne
      flight := fun hst => absurd hst hin
      invoking := fun _ => rfl }

theorem Ledger.held (h : Ledger epoch c t) (hheld : t.state.held = true) :
    t.attempt.attempt ≠ 0 := by
  refine h.started (fun hready => ?_)
  rw [hready] at hheld
  cases hheld

theorem Ledger.in_flight (h : Ledger epoch c t) (hin : t.state = .InFlight) :
    t.in_flight = 1 ∧ t.attempt.attempt ≠ 0
      ∧ t.execution.execution_attempts + c.refused < t.attempt.attempt := by
  have hone : t.in_flight = 1 := if_pos hin
  have hroom := h.room
  have hheld : t.state.held = true := by rw [hin]; rfl
  exact ⟨hone, h.held hheld, by omega⟩

theorem Ledger.chargeable_of_flight (h : Ledger epoch c t) (hin : t.state = .InFlight)
    (hepoch : t.attempt.owner_epoch = epoch) : t.chargeable epoch = 1 := by
  obtain ⟨-, hne, hlt⟩ := h.in_flight hin
  unfold ActivityTask.chargeable
  rw [if_pos]
  by_cases hone : t.attempt.attempt = 1
  · have hea : t.execution.execution_attempts = 0 := by omega
    refine .inl ⟨hone, hea, Bool.eq_false_iff.mpr (fun hku => ?_)⟩
    have hflag := h.flag hku
    omega
  · exact .inr ⟨hone, hin, hepoch⟩

theorem chargeable_of_settled (hin : t.state ≠ .InFlight)
    (h : t.execution.execution_attempts ≠ 0 ∨ t.execution.known_unexecuted = true) :
    t.chargeable epoch = 0 := by
  unfold ActivityTask.chargeable
  rw [if_neg]
  rintro (⟨-, hea, hku⟩ | ⟨-, hst, -⟩)
  · rcases h with h | h
    · exact h hea
    · rw [hku] at h
      cases h
  · exact hin hst

/-- **A refusal** is free: the dispatch leaves the books with the flag set. -/
theorem Ledger.refuse (h : Ledger epoch c t) (hin : t.state = .InFlight)
    (hepoch : t.attempt.owner_epoch = epoch) :
    Ledger epoch { c with refused := c.refused + 1 } { t with
      state := .Ready, execution := { t.execution with known_unexecuted := true } } := by
  obtain ⟨hone, hne, hlt⟩ := h.in_flight hin
  have hcharge := h.chargeable_of_flight hin hepoch
  refine { h with
    started := fun hst => absurd rfl hst
    flight := fun hst => ?_
    invoking := fun hst => ?_
    room := ?_
    first := fun _ hku => ?_
    flag := fun _ => Nat.succ_ne_zero _
    budget := fun _ => ?_
    retrying := fun _ hst => ?_
    balance := fun hsafe => ?_ }
  · cases hst
  · cases hst
  · show t.execution.execution_attempts + (c.refused + 1) + 0 ≤ t.attempt.attempt
    omega
  · cases hku
  · obtain ⟨policy, hpolicy, hle, hpos⟩ := h.budget hne
    exact ⟨policy, hpolicy, le_trans (Nat.add_le_add_left (Nat.zero_le _) _) hle, hpos⟩
  · cases hst
  · rw [chargeable_of_settled (by simp) (.inr rfl)]
    have hbal := h.balance hsafe
    rw [hcharge] at hbal
    show t.attempt.attempt = t.execution.execution_attempts + (c.refused + 1) + c.lost + 0
    omega

/-- The accounting of the dispatch that is out, once it is charged. -/
structure Spent (t : ActivityTask) (execution : ExecutionAccounting) : Prop where
  attempts : execution.execution_attempts = t.execution.execution_attempts + t.in_flight
  dispatch : execution.execution_dispatch_attempt = t.attempt.attempt
  known : execution.known_unexecuted = false

variable {execution : ExecutionAccounting} {started_at_ms : ℤ} {policy : RetryPolicy}

theorem charge_execution_ok {attempt : ActivityAttempt} {execution' : ExecutionAccounting}
    (h : charge_execution attempt execution started_at_ms = .ok execution') :
    execution'.execution_dispatch_attempt = attempt.attempt
      ∧ execution'.known_unexecuted = false
      ∧ (execution.execution_dispatch_attempt = attempt.attempt →
          execution'.execution_attempts = execution.execution_attempts)
      ∧ (execution.execution_dispatch_attempt ≠ attempt.attempt →
          execution'.execution_attempts = execution.execution_attempts + 1) := by
  unfold charge_execution at h
  by_cases hd : execution.execution_dispatch_attempt = attempt.attempt
  · rw [if_pos hd] at h
    cases h
    exact ⟨hd, rfl, fun _ => rfl, fun hne => absurd hd hne⟩
  · rw [if_neg hd] at h
    simp only [bind, Except.bind, pure, Except.pure] at h
    cases hs : checked_succ execution.execution_attempts with
    | error e => rw [hs] at h; cases h
    | ok attempts =>
      rw [hs] at h
      cases h
      exact ⟨rfl, rfl, fun hd' => absurd hd' hd, fun _ => checked_succ_ok hs⟩

theorem Ledger.start_execution (h : Ledger epoch c t) (hin : t.state = .InFlight)
    (hs : start_execution t.attempt t.execution started_at_ms = .ok execution) :
    Spent t execution := by
  unfold Appcall.Durable.start_execution at hs
  have hnormal : normalize_legacy_attempt t.attempt t.execution = t.execution := by
    rcases h.normal_execution with heq | ⟨-, hst, -⟩
    · exact heq
    · exact absurd hin hst
  rw [hnormal] at hs
  obtain ⟨hd, hku, -, hea⟩ := charge_execution_ok hs
  have hflight := h.flight hin
  exact ⟨by rw [hea (by omega), (h.in_flight hin).1], hd, hku⟩

/-- What `infer_prior_execution` does to the books: it charges a first dispatch
that is not charged and was not refused. -/
theorem Ledger.infer (h : Ledger epoch c t) :
    infer_prior_execution t.attempt t.execution
        = normalize_legacy_attempt t.attempt t.execution
          ∧ (t.execution.execution_attempts ≠ 0 ∨ t.execution.known_unexecuted = true
            ∨ t.attempt.attempt = 0)
      ∨ (t.execution.execution_attempts = 0 ∧ t.execution.known_unexecuted = false
        ∧ t.attempt.attempt = 1
        ∧ infer_prior_execution t.attempt t.execution = { t.execution with
            execution_attempts := 1
            execution_dispatch_attempt := 1
            execution_started_at_ms := t.attempt.retry_started_at_ms }) := by
  by_cases hfree : t.execution.execution_attempts ≠ 0 ∨ t.execution.known_unexecuted = true
      ∨ t.attempt.attempt = 0
  · refine .inl ⟨?_, hfree⟩
    unfold infer_prior_execution
    rcases h.normal_execution with heq | ⟨hea, -, heq⟩
    · rw [heq]
      refine if_pos ?_
      rcases hfree with hne | hku | hz
      · simp [hne]
      · simp [hku]
      · simp [hz]
    · rw [heq]
      refine if_pos ?_
      rcases hfree with hne | hku | hz
      · simp [hne]
      · simp [hku]
      · simp [hz]
  · push Not at hfree
    obtain ⟨hea, hku, hne⟩ := hfree
    have hku' : t.execution.known_unexecuted = false := Bool.eq_false_iff.mpr hku
    have hone : t.attempt.attempt = 1 := by
      have := (h.first hea hku').1
      omega
    refine .inr ⟨hea, hku', hone, ?_⟩
    have hnormal : normalize_legacy_attempt t.attempt t.execution = t.execution := by
      unfold normalize_legacy_attempt
      rw [if_pos]
      rw [hea]
      decide
    unfold infer_prior_execution
    rw [hnormal, hone]
    refine if_neg ?_
    simp [hea, hku']

theorem Ledger.mark_execution (h : Ledger epoch c t) (hheld : t.state.held = true)
    (hm : mark_execution t.attempt t.execution started_at_ms = .ok execution) :
    Spent t execution := by
  have hne := h.held hheld
  unfold Appcall.Durable.mark_execution at hm
  obtain ⟨hd, hku, hsame, hmore⟩ := charge_execution_ok hm
  refine ⟨?_, hd, hku⟩
  have hstate : t.state = .InFlight ∨ t.state = .Invoking := by
    cases hst : t.state <;> rw [hst] at hheld <;>
      first | exact .inl rfl | exact .inr rfl | cases hheld
  have hroom := h.room
  have hcap := h.cap
  have hfl : ¬ t.state = .InFlight → t.in_flight = 0 := fun hnot => if_neg hnot
  by_cases hflag : t.execution.known_unexecuted = true
  · -- refused before: the dispatch that is out is a later one
    have href := h.flag hflag
    simp only [hflag, Bool.not_true, Bool.false_eq_true, if_false] at hsame hmore
    have hmax : ¬ t.execution.execution_attempts = U64_MAX := by omega
    rw [if_neg hmax] at hsame hmore
    rcases hstate with hst | hst
    · have hflight := h.flight hst
      rw [hmore (by omega), (h.in_flight hst).1]
    · rw [hsame (h.invoking hst), hfl (by rw [hst]; simp), Nat.add_zero]
  · simp only [hflag, Bool.not_false, if_true] at hsame hmore
    rcases h.infer with ⟨heq, hfree⟩ | ⟨hea, -, hone, heq⟩
    · rw [heq] at hsame hmore
      rcases h.normal_execution with hn | ⟨hea, hst, hn⟩
      · rw [hn] at hsame hmore
        rcases hstate with hst | hst
        · have hflight := h.flight hst
          rw [hmore (by omega), (h.in_flight hst).1]
        · rw [hsame (h.invoking hst), hfl (by rw [hst]; simp), Nat.add_zero]
      · rw [hn] at hsame
        rw [hsame rfl, hfl hst, Nat.add_zero]
    · rw [heq] at hsame
      rw [hsame hone.symm, hea]
      rcases hstate with hst | hst
      · rw [(h.in_flight hst).1]
      · have hinv := h.invoking hst
        have hmarked := h.marked (by omega)
        exact absurd hea hmarked

theorem Ledger.chargeable_of_held (h : Ledger epoch c t) (hheld : t.state.held = true)
    (hepoch : t.attempt.owner_epoch = epoch) : t.chargeable epoch = t.in_flight := by
  by_cases hin : t.state = .InFlight
  · rw [h.chargeable_of_flight hin hepoch, (h.in_flight hin).1]
  · have hinv : t.state = .Invoking := by
      cases hst : t.state <;> rw [hst] at hheld hin <;>
        first | rfl | exact absurd rfl hin | cases hheld
    have hne := h.held hheld
    have hea := h.marked (by rw [h.invoking hinv]; exact hne)
    rw [chargeable_of_settled hin (.inl hea)]
    exact (if_neg hin).symm

/-- **A charge**: the dispatch that is out is started, or over. -/
theorem Ledger.spend (h : Ledger epoch c t) (hheld : t.state.held = true)
    (hepoch : t.attempt.owner_epoch = epoch) (hs : Spent t execution) {state : TaskState}
    (hstate : state ≠ .InFlight)
    (hretry : ∀ retry, state = .Retrying retry → t.attempt.retry_policy = some retry.policy) {k : ℕ}
    (hk : k ≤ t.in_flight) :
    Ledger epoch { c with invoked := c.invoked + k } { t with execution, state } := by
  have hne := h.held hheld
  have hzero : ({ t with execution, state } : ActivityTask).in_flight = 0 := if_neg hstate
  have hcharged : execution.execution_attempts ≠ 0 := by
    rw [hs.attempts]
    by_cases hin : t.state = .InFlight
    · rw [(h.in_flight hin).1]
      exact Nat.succ_ne_zero _
    · have hinv : t.state = .Invoking := by
        cases hst : t.state <;> rw [hst] at hheld hin
          <;> first | rfl | exact absurd rfl hin | cases hheld
      have hea := h.marked (by rw [h.invoking hinv]; exact hne)
      omega
  refine { h with
    started := fun _ => hne
    charged := le_of_eq hs.dispatch
    marked := fun _ => hcharged
    flight := fun hst => absurd hst hstate
    invoking := fun _ => hs.dispatch
    room := ?_
    first := fun hea => absurd hea hcharged
    flag := fun hku => ?_
    invoked := ?_
    budget := fun _ => ?_
    retrying := hretry
    balance := fun hsafe => ?_ }
  · have hroom := h.room
    rw [hzero, hs.attempts]
    show t.execution.execution_attempts + t.in_flight + c.refused + 0 ≤ t.attempt.attempt
    omega
  · rw [hs.known] at hku
    cases hku
  · have hinv := h.invoked
    show c.invoked + k ≤ execution.execution_attempts
    rw [hs.attempts]
    omega
  · obtain ⟨policy, hpolicy, hle, hpos⟩ := h.budget hne
    refine ⟨policy, hpolicy, ?_, hpos⟩
    rw [hzero, hs.attempts]
    exact hle
  · have hbal := h.balance hsafe
    rw [h.chargeable_of_held hheld hepoch] at hbal
    rw [chargeable_of_settled hstate (.inl hcharged), hs.attempts]
    show t.attempt.attempt = _ + c.refused + c.lost + 0
    omega

theorem Ledger.move (h : Ledger epoch c t) (hstarted : t.state ≠ .Ready) {state : TaskState}
    (hheld : state.held = false)
    (hretry : ∀ retry, state ≠ .Retrying retry)
    (hdead : t.attempt.policy.safe = true → t.state = .InFlight → t.attempt.owner_epoch ≠ epoch) :
    Ledger epoch c { t with state } := by
  have hin : state ≠ .InFlight := by
    rintro rfl
    cases hheld
  have hzero : ({ t with state } : ActivityTask).in_flight = 0 := if_neg hin
  refine { h with
    started := fun _ => h.started hstarted
    flight := fun hst => absurd hst hin
    invoking := fun hst => ?_
    room := ?_
    budget := fun hne => ?_
    retrying := fun retry hst => absurd hst (hretry retry)
    balance := fun hsafe => ?_ }
  · rw [show state = .Invoking from hst] at hheld
    cases hheld
  · have hroom := h.room
    rw [hzero]
    exact le_trans (Nat.add_le_add_left (Nat.zero_le _) _) hroom
  · obtain ⟨policy, hpolicy, hle, hpos⟩ := h.budget hne
    refine ⟨policy, hpolicy, ?_, hpos⟩
    rw [hzero]
    exact le_trans (Nat.add_le_add_left (Nat.zero_le _) _) hle
  · have hsame : ({ t with state } : ActivityTask).chargeable epoch = t.chargeable epoch := by
      unfold ActivityTask.chargeable
      have hnot : ¬ (t.attempt.attempt ≠ 1 ∧ t.state = .InFlight
          ∧ t.attempt.owner_epoch = epoch) := fun hx => hdead hsafe hx.2.1 hx.2.2
      have hnot' : ¬ (t.attempt.attempt ≠ 1 ∧ state = .InFlight
          ∧ t.attempt.owner_epoch = epoch) := fun hx => hin hx.2.1
      simp only [hnot, hnot', or_false]
    rw [hsame]
    exact h.balance hsafe

/-- **An inference** charges what can still be charged of a ready task. -/
theorem Ledger.inferred (h : Ledger epoch c t) (hready : t.state = .Ready) :
    Ledger epoch c { t with execution := infer_prior_execution t.attempt t.execution }
      ∧ ((infer_prior_execution t.attempt t.execution).execution_attempts ≠ 0
        ∨ (infer_prior_execution t.attempt t.execution).known_unexecuted = true
        ∨ t.attempt.attempt = 0) := by
  rcases h.infer with ⟨heq, hfree⟩ | ⟨hea, hku, hone, heq⟩
  · rw [heq]
    refine ⟨h.normal, ?_⟩
    rcases h.normal_execution with hn | ⟨-, -, hn⟩ <;> rw [hn] <;> exact hfree
  · rw [heq]
    have hnot : t.state ≠ .InFlight := by rw [hready]; simp
    have hzero : t.in_flight = 0 := if_neg hnot
    refine ⟨?_, .inl (by simp)⟩
    refine { h with
      charged := le_of_eq hone.symm
      marked := fun _ => one_ne_zero
      flight := fun hst => absurd hst hnot
      invoking := fun _ => hone.symm
      room := ?_
      first := fun hz => absurd hz one_ne_zero
      invoked := ?_
      budget := fun hne => ?_
      balance := fun hsafe => ?_ }
    · have hfirst := (h.first hea hku).2
      show 1 + c.refused + t.in_flight ≤ t.attempt.attempt
      omega
    · have hinv := h.invoked
      show c.invoked ≤ 1
      omega
    · obtain ⟨policy, hpolicy, -, hpos⟩ := h.budget hne
      refine ⟨policy, hpolicy, ?_, hpos⟩
      show 1 + t.in_flight ≤ policy.max_attempts
      omega
    · have hbal := h.balance hsafe
      have hfirst : t.chargeable epoch = 1 := if_pos (.inl ⟨hone, hea, hku⟩)
      rw [hea, hfirst] at hbal
      have hleft : ∀ execution : ExecutionAccounting, execution.execution_attempts = 1 →
          ({ t with execution } : ActivityTask).chargeable epoch = 0 := fun execution hx =>
        chargeable_of_settled hnot (.inl (ne_of_eq_of_ne hx one_ne_zero))
      rw [hleft _ rfl]
      show t.attempt.attempt = 1 + c.refused + c.lost + 0
      omega

theorem next_dispatch_execution {task task' : ActivityTask} {epoch : ℕ} {now : ℤ}
    (h : next_dispatch task execution epoch now policy = .ok task') : task.attempt.attempt < U64_MAX
      ∧ task'.attempt.retry_policy = some (task.attempt.retry_policy.getD policy)
      ∧ task'.execution.execution_attempts = execution.execution_attempts
      ∧ task'.execution.execution_dispatch_attempt = execution.execution_dispatch_attempt
      ∧ task'.execution.known_unexecuted = execution.known_unexecuted := by
  unfold next_dispatch at h
  simp only [bind, Except.bind, pure, Except.pure] at h
  cases hn : checked_succ task.attempt.attempt with
  | error e => rw [hn] at h; cases h
  | ok number =>
    rw [hn] at h
    have hlt : task.attempt.attempt < U64_MAX := by
      unfold checked_succ at hn
      by_contra hnot
      rw [if_neg hnot] at hn
      cases hn
    refine ⟨hlt, ?_⟩
    simp only at h
    cases hp : task.attempt.retry_policy with
    | none =>
      rw [hp] at h
      cases h
      exact ⟨rfl, rfl, rfl, rfl⟩
    | some p =>
      rw [hp] at h
      cases h
      exact ⟨rfl, rfl, rfl, rfl⟩

/-- **A dispatch** of a ready task with nothing left to charge. -/
theorem Ledger.dispatch (h : Ledger epoch c t) (hready : t.state = .Ready)
    (hsettled : t.execution.execution_attempts ≠ 0 ∨ t.execution.known_unexecuted = true
      ∨ t.attempt.attempt = 0) {now : ℤ} {t' : ActivityTask}
    (hbudget : out_of_retries t t.execution (t.attempt.retry_policy.getD policy) now = false)
    (hnext : next_dispatch t t.execution epoch now policy = .ok t') :
    Ledger epoch { c with dispatched := c.dispatched + 1 } t' := by
  obtain ⟨hst', started, policy', hatt⟩ := next_dispatch_ok hnext
  obtain ⟨hlt, hpolicy, hea, hda, hku⟩ := next_dispatch_execution hnext
  have hnumber : t'.attempt.attempt = t.attempt.attempt + 1 := by rw [hatt]
  have hepoch : t'.attempt.owner_epoch = epoch := by rw [hatt]
  have hsafe' : t'.attempt.policy = t.attempt.policy := by rw [hatt]
  have hnot : t.state ≠ .InFlight := by rw [hready]; simp
  have hzero : t.in_flight = 0 := if_neg hnot
  have hone : t'.in_flight = 1 := if_pos hst'
  have hroom := h.room
  -- a task that was never dispatched has empty books
  have hfresh : t.attempt.attempt = 0 → t.execution.execution_attempts = 0
      ∧ t.execution.known_unexecuted = false := by
    intro hz
    refine ⟨by omega, Bool.eq_false_iff.mpr (fun hk => ?_)⟩
    have hflag := h.flag hk
    omega
  refine ⟨by rw [hnumber, h.number], by omega, le_of_eq hepoch, fun _ => by omega, ?_, ?_,
    fun _ => ?_, fun hst => ?_, ?_, fun hz hk => ?_, fun hk => ?_, ?_, fun _ => ?_,
    fun retry hst => ?_, fun hsafe => ?_⟩
  · have hcharged := h.charged
    omega
  · rw [hda, hea]
    exact h.marked
  · have hcharged := h.charged
    omega
  · rw [hst'] at hst
    cases hst
  · rw [hea, hone]
    show _ + c.refused + 1 ≤ _
    omega
  · rw [hea] at hz
    rw [hku] at hk
    have hnew : t.attempt.attempt = 0 := by
      rcases hsettled with hs | hs | hs
      · exact absurd hz hs
      · rw [hk] at hs
        cases hs
      · exact hs
    refine ⟨by omega, ?_⟩
    show c.refused = 0
    omega
  · rw [hku] at hk
    exact h.flag hk
  · rw [hea]
    exact h.invoked
  · refine ⟨_, hpolicy, ?_, ?_⟩
    · unfold out_of_retries at hbudget
      simp only [Bool.or_eq_false_iff, decide_eq_false_iff_not] at hbudget
      rw [hea, hone]
      omega
    · unfold out_of_retries at hbudget
      simp only [Bool.or_eq_false_iff, decide_eq_false_iff_not] at hbudget
      omega
  · rw [hst'] at hst
    cases hst
  · rw [hsafe'] at hsafe
    have hbal := h.balance hsafe
    have hleft : t.chargeable epoch = 0 := by
      rcases hsettled with hs | hs | hs
      · exact chargeable_of_settled hnot (.inl hs)
      · exact chargeable_of_settled hnot (.inr hs)
      · refine if_neg ?_
        rintro (⟨h1, -⟩ | ⟨-, h2, -⟩)
        · omega
        · exact hnot h2
    have hcharge : t'.chargeable epoch = 1 := by
      refine if_pos ?_
      by_cases hfirst : t'.attempt.attempt = 1
      · obtain ⟨h1, h2⟩ := hfresh (by omega)
        exact .inl ⟨hfirst, by rw [hea, h1], by rw [hku, h2]⟩
      · exact .inr ⟨hfirst, hst', hepoch⟩
    rw [hcharge, hea]
    show _ = _ + c.refused + c.lost + 1
    omega

end Books

/-! ## One move -/

def Label.bump (c : Counts) : Label → Counts
  | .dispatch _ _ => { c with dispatched := c.dispatched + 1 }
  | .invoke _ => { c with invoked := c.invoked + 1 }
  | .reject_dispatch _ _ | .missing_payload _ => { c with refused := c.refused + 1 }
  | _ => c

/-- The counters of all effects after a move. -/
def Label.post (l : Label) (c : String → Counts) : String → Counts := fun effect_id =>
  if l.charges = some effect_id then l.bump (c effect_id) else c effect_id

variable {m : Machine} {id : String} {l : Label} {t' : ActivityTask} {m' : Machine}
  {t : ActivityTask}

theorem Charged.charges (h : Charged m id l t t') : l.charges = some t.attempt.effect_id := by
  have heffect := h.move.effect.effect_id
  cases h with
  | refused hl _ _ => rcases hl with ⟨reason, rfl⟩ | rfl <;> rfl
  | invoked _ _ _ => rfl
  | dispatched _ _ _ _ => exact congrArg some heffect

theorem Charged.ledger {c : Counts} (h : Charged m id l t t') (hb : Ledger m.epoch c t) :
    Ledger m.epoch (l.bump c) t' := by
  cases h with
  | refused hl hin hepoch =>
    rcases hl with ⟨reason, rfl⟩ | rfl
    · exact hb.refuse hin hepoch
    · exact hb.refuse hin hepoch
  | invoked hin hepoch hstart =>
    have hheld : t.state.held = true := by rw [hin]; rfl
    exact hb.spend hheld hepoch (hb.start_execution hin hstart) (by simp) (by simp)
      (le_of_eq (hb.in_flight hin).1.symm)
  | dispatched hready hinfer hbudget hnext =>
    subst hinfer
    have hready' : (normalize_task t).state = .Ready := hready
    obtain ⟨hledger, hsettled⟩ := hb.normal.inferred hready'
    exact hledger.dispatch hready' hsettled hbudget hnext

theorem failed_task_state {task task' : ActivityTask} {execution : ExecutionAccounting}
    {failure : ActivityFailure} {failed_at_ms : ℤ} {policy : RetryPolicy}
    (h : failed_task task execution failure failed_at_ms policy = .ok task') :
    ∃ state : TaskState, task' = { task with execution, state } ∧ state ≠ .InFlight
      ∧ ∀ retry, state = .Retrying retry →
        retry.policy = task.attempt.retry_policy.getD policy := by
  unfold failed_task at h
  split at h
  · simp only [bind, Except.bind, pure, Except.pure] at h
    split at h
    · cases h
    split at h
    · cases h
      exact ⟨.Ready, rfl, by simp, by simp⟩
    · cases h
      refine ⟨_, rfl, by simp, fun retry hretry => ?_⟩
      cases hretry
      rfl
  · cases h
    exact ⟨.Uncertain, rfl, by simp, by simp⟩

/-- Either the task is charged, or its ledger stays. -/
theorem Charge.ledger {c : Counts} (h : Charge m id l t t') (hb : Ledger m.epoch c t) :
    Charged m id l t t' ∨ Ledger m.epoch c t' := by
  cases h with
  | kept => exact .inr hb
  | normal => exact .inr hb.normal
  | charged hc => exact .inl hc
  | completed hheld hepoch hmark =>
    exact .inr (hb.spend hheld hepoch (hb.mark_execution hheld hmark) (by simp) (by simp)
      (Nat.zero_le _))
  | failed hheld hepoch hmark hfail =>
    refine .inr ?_
    obtain ⟨state, rfl, hstate, hretry⟩ := failed_task_state hfail
    refine hb.spend hheld hepoch (hb.mark_execution hheld hmark) hstate (fun retry hr => ?_)
      (Nat.zero_le _)
    obtain ⟨policy, hpolicy, -⟩ := hb.budget (hb.held hheld)
    rw [hretry retry hr, hpolicy]
    rfl
  | @interrupted _ retry_exhausted hi =>
    refine .inr ?_
    have hrecover : recover_task m.epoch retry_exhausted t = { normalize_task t with
        state := if t.attempt.policy.safe then .Ready else .Uncertain } := by
      unfold recover_task
      rw [if_pos hi]
      rfl
    rw [hrecover]
    refine hb.normal.move (fun hready => ?_) ?_ (fun retry => ?_) (fun hsafe _ => ?_)
    · have hready' : t.state = .Ready := hready
      unfold ActivityTask.interrupted at hi
      rw [hready'] at hi
      cases hi
    · split <;> rfl
    · split <;> simp
    · -- a safe task is only taken back from another epoch
      have hsafe' : t.attempt.policy.safe = true := hsafe
      unfold ActivityTask.interrupted at hi
      rw [hsafe'] at hi
      simp only [Bool.not_true, Bool.and_false, Bool.or_false, Bool.and_eq_true,
        decide_eq_true_eq] at hi
      exact hi.2
  | @resolved _ observed hunc =>
    refine .inr (hb.normal.move (fun hready => ?_) ?_ (fun retry => ?_) (fun _ hin => ?_))
    · rw [show (normalize_task t).state = t.state from rfl, hunc] at hready
      cases hready
    · cases observed <;> rfl
    · cases observed <;> simp [resolved_state]
    · rw [show (normalize_task t).state = t.state from rfl, hunc] at hin
      cases hin
  | overdue _ hst =>
    refine .inr (hb.normal.move (fun hready => ?_) rfl (by simp) (fun _ hin => ?_))
    · rw [show (normalize_task t).state = t.state from rfl, hst] at hready
      cases hready
    · rw [show (normalize_task t).state = t.state from rfl, hst] at hin
      cases hin
  | @retried _ _ retry _ hst =>
    refine .inr ?_
    have hpolicy := hb.retrying retry hst
    have hsame : ({ normalize_task t with
        attempt := { t.attempt with retry_policy := some retry.policy }
        state := .Ready } : ActivityTask) = { normalize_task t with state := .Ready } := by
      rw [← hpolicy]
      rfl
    rw [hsame]
    refine hb.normal.move (fun hready => ?_) rfl (by simp) (fun _ hin => ?_)
    · rw [show (normalize_task t).state = t.state from rfl, hst] at hready
      cases hready
    · rw [show (normalize_task t).state = t.state from rfl, hst] at hin
      cases hin
  | inferred hready =>
    have hready' : (normalize_task t).state = .Ready := hready
    exact .inr (hb.normal.inferred hready').1

theorem Charge.policy {c : Counts} (h : Charge m id l t t') (hb : Ledger m.epoch c t)
    (hne : t.attempt.attempt ≠ 0) : t'.attempt.retry_policy = t.attempt.retry_policy := by
  obtain ⟨policy, hpolicy, -⟩ := hb.budget hne
  cases h with
  | kept | normal | completed | interrupted | resolved | overdue | inferred => rfl
  | charged hc =>
    cases hc with
    | refused | invoked => rfl
    | dispatched _ _ _ hnext =>
      rw [(next_dispatch_execution hnext).2.1]
      show some (t.attempt.retry_policy.getD m.retry_policy) = _
      rw [hpolicy]
      rfl
  | failed _ _ _ hfail => rw [(failed_task_ok hfail).1]
  | @retried _ _ retry _ hst => exact (hb.retrying retry hst).symm

/-! ## The machine -/

def Tracked (m : Machine) (effect_id : String) : Prop :=
  ∃ id i t, Spot m id i t ∧ t.attempt.effect_id = effect_id

/-- **The books of all effects.** -/
structure Budgeted (c : String → Counts) (m : Machine) : Prop where
  tasked : Tasked m
  ledger : ∀ id i t, Spot m id i t → Ledger m.epoch (c t.attempt.effect_id) t
  untracked : ∀ effect_id, ¬ Tracked m effect_id → c effect_id = Counts.zero

theorem new_task_ledger (r : RunRecord) (epoch index : ℕ) (name version : String)
    (input : PayloadRef) (policy : EffectPolicy) :
    Ledger epoch Counts.zero (new_task r epoch index name version input policy) := by
  constructor
  case owned => exact le_rfl
  case cap => exact Nat.zero_le _
  all_goals
    simp [new_task, Counts.zero, ActivityTask.in_flight, ActivityTask.chargeable]

theorem Trans.epoch_eq (h : Trans m l m') (hl : l ≠ .restart) : m'.epoch = m.epoch := by
  cases h with
  | restart => exact absurd rfl hl
  | _ => rfl

/-- A task on its way into a commit: it is stored, or it is the new task of an
effect that has none. -/
def Entering (m : Machine) (id : String) (i : ℕ) (t : ActivityTask) : Prop :=
  Spot m id i t ∨ (¬ Tracked m t.attempt.effect_id ∧ ∃ r index name version input policy,
    t = new_task r m.epoch index name version input policy)

theorem Grown.entering (hm : Tasked m) {r : RunRecord} {c : Option ℤ}
    (hs : m.runs r.id = some ⟨r, c⟩) {base : List ActivityTask} (h : Grown m r base) {i : ℕ}
    (hi : base[i]? = some t) : Entering m r.id i t := by
  rcases h with rfl | ⟨index, name, version, input, policy, hnone, rfl⟩
  · exact .inl ⟨r, c, hs, hi⟩
  · by_cases hlt : i < r.tasks.length
    · rw [List.getElem?_append_left hlt] at hi
      exact .inl ⟨r, c, hs, hi⟩
    · rw [List.getElem?_append_right (by omega)] at hi
      have ht := List.mem_singleton.mp (List.mem_of_getElem? hi)
      refine .inr ⟨?_, r, index, name, version, input, policy, ht⟩
      -- another task of the effect would be in the same run, which has none
      rintro ⟨id', j, u, ⟨r', c', hr', hj⟩, heff⟩
      have hmem := List.mem_of_getElem? hj
      obtain ⟨hid', hok'⟩ := hm id' _ hr'
      obtain ⟨-, k, hk⟩ := hok'.owner u hmem
      have heff' : u.attempt.effect_id = effect_id_at r.id index := by
        rw [heff, ht]
        rfl
      have hruns : id' = r.id := by
        rw [← hid']
        exact effect_id_at_run (hk.symm.trans heff')
      subst hruns
      rw [hs] at hr'
      cases hr'
      unfold RunRecord.task? at hnone
      rw [List.find?_eq_none] at hnone
      exact hnone u hmem (by simpa using heff')

theorem Trans.restart_spot (h : Trans m .restart m') {i : ℕ} (hs : Spot m' id i t) :
    Spot m id i t := by
  obtain ⟨r', c', hr', hi'⟩ := hs
  rcases h.backward hr' with ⟨c, hr⟩ | ⟨r, c, run, children, -, -, hc, -⟩ | ⟨-, hn, -⟩
  · exact ⟨r', c, hr, hi'⟩
  · cases hc
  · rw [hn.tasks] at hi'
    cases hi'

/-- **A task after a move**, and what the move did to it. The charge is counted if
and only if the label names the effect. -/
theorem Trans.charged (h : Trans m l m') (hm : Tasked m) {i : ℕ} (hs : Spot m' id i t') :
    ∃ t, Entering m id i t ∧ t'.attempt.effect_id = t.attempt.effect_id
      ∧ (Charged m id l t t' ∨ (l.charges ≠ some t.attempt.effect_id ∧ Charge m id l t t')) := by
  obtain ⟨r', c', hr', hi'⟩ := hs
  -- a task that no commit wrote
  have hkept : Spot m id i t' → l.charges ≠ some t'.attempt.effect_id → ∃ t, Entering m id i t
      ∧ t'.attempt.effect_id = t.attempt.effect_id
      ∧ (Charged m id l t t' ∨ (l.charges ≠ some t.attempt.effect_id ∧ Charge m id l t t')) :=
    fun hspot hnone => ⟨t', .inl hspot, rfl, .inr ⟨hnone, .kept⟩⟩
  cases h with
  | @change _ r run c children hs hc hf =>
    obtain ⟨base, hgrown, hcharge, hcharges⟩ := hc.charges
    have hok := hgrown.ok (hm r.id _ hs).2
    rcases Machine.commit_inv hr' with ⟨hid, he⟩ | ⟨x, hx, hid, he⟩ | ⟨hne, c0, hr0, -⟩
    · cases he
      rw [hc.frame.id] at hid
      subst hid
      obtain ⟨t, hi, hct⟩ := (forall₂_getElem? hcharge).2 t' hi'
      refine ⟨t, hgrown.entering hm hs hi, hct.move.effect.effect_id, ?_⟩
      by_cases hl : l.charges = some t.attempt.effect_id
      · obtain ⟨j, u, u', hj, hj', heff, hcharged⟩ := hcharges _ hl
        have hlt := (List.getElem?_eq_some_iff.mp hj).1
        have hidx : j = i := by
          refine (List.getElem?_inj (by simpa using hlt) hok.distinct).mp ?_
          show (base.map _)[j]? = (base.map _)[i]?
          rw [List.getElem?_map, List.getElem?_map, hi, hj, Option.map_some, Option.map_some, heff]
        subst hidx
        rw [hi] at hj
        have hi'' : run.tasks[j]? = some t' := hi'
        rw [hi''] at hj'
        cases hj
        cases hj'
        exact .inl hcharged
      · exact .inr ⟨hl, hct⟩
    · cases he
      rw [(hc.new_children _ hx).tasks] at hi'
      cases hi'
    · have hspot : Spot m id i t' := ⟨r', c0, hr0, hi'⟩
      refine hkept hspot (fun hl => ?_)
      -- the effect would belong to the run of the commit
      obtain ⟨j, u, u', hj, -, heff, -⟩ := hcharges _ hl
      obtain ⟨-, k, hk⟩ := hok.owner u (List.mem_of_getElem? hj)
      obtain ⟨hid0, hok0⟩ := hm id _ hr0
      obtain ⟨-, k', hk'⟩ := hok0.owner t' (List.mem_of_getElem? hi')
      apply hne
      rw [hc.frame.id, ← hid0]
      exact effect_id_at_run (hk'.symm.trans (heff.symm.trans hk))
  | @start id0 _ _ _ run hnew hnone =>
    refine hkept ?_ (by simp [Label.charges])
    rcases update_some hr' with ⟨rfl, he⟩ | ⟨-, hother⟩
    · cases he
      rw [(new_run_ok hnew).1.tasks] at hi'
      cases hi'
    · exact ⟨r', c', hother, hi'⟩
  | restart failed =>
    exact hkept ((Trans.restart failed).restart_spot ⟨r', c', hr', hi'⟩) (by simp [Label.charges])
  | idle | park | unpark | hand_out | release | register_workflow | configure =>
    exact hkept ⟨r', c', hr', hi'⟩ (by simp [Label.charges])

theorem Trans.tracked (h : Trans m l m') {effect_id : String} :
    (Tracked m effect_id → Tracked m' effect_id)
      ∧ (l.charges = some effect_id → Tracked m' effect_id) := by
  refine ⟨?_, fun hl => ?_⟩
  · rintro ⟨id, i, t, hspot, heff⟩
    obtain ⟨t', hspot', hmove⟩ := h.spot hspot
    exact ⟨id, i, t', hspot', hmove.effect.effect_id.trans heff⟩
  · cases h with
    | @change _ r run c children hs hc hf =>
      obtain ⟨base, -, -, hcharges⟩ := hc.charges
      obtain ⟨i, t, t', -, hi', heff, hcharged⟩ := hcharges _ hl
      rw [← hc.frame.id] at hf
      exact ⟨run.id, i, t', ⟨_, _, Machine.commit_self hf, hi'⟩,
        hcharged.move.effect.effect_id.trans heff⟩
    | _ => cases hl

/-- **A move of the engine keeps the books.** -/
theorem Trans.budgeted {c : String → Counts} (h : Trans m l m') (hl : l ≠ .restart)
    (hb : Budgeted c m) : Budgeted (l.post c) m' := by
  refine ⟨h.tasked hb.tasked, fun id i t' hspot => ?_, fun effect_id hnot => ?_⟩
  · obtain ⟨t, hentering, heff, hcharge⟩ := h.charged hb.tasked hspot
    have hledger : Ledger m.epoch (c t.attempt.effect_id) t := by
      rcases hentering with hold | ⟨huntracked, r, index, name, version, input, policy, rfl⟩
      · exact hb.ledger id i t hold
      · rw [hb.untracked _ huntracked]
        exact new_task_ledger r m.epoch index name version input policy
    rw [h.epoch_eq hl, heff]
    unfold Label.post
    rcases hcharge with hcharged | ⟨hfree, hcharge⟩
    · rw [if_pos hcharged.charges]
      exact hcharged.ledger hledger
    · rw [if_neg hfree]
      rcases hcharge.ledger hledger with hcharged | hsame
      · exact absurd hcharged.charges hfree
      · exact hsame
  · unfold Label.post
    rw [if_neg (fun hcharges => hnot (h.tracked.2 hcharges))]
    exact hb.untracked effect_id (fun htracked => hnot (h.tracked.1 htracked))

/-! ## Restarts -/

/-- The owner of a later dispatch of the effect dies before it was started. -/
def Orphaned (m : Machine) (effect_id : String) : Prop :=
  ∃ id i t, Spot m id i t ∧ t.attempt.effect_id = effect_id ∧ t.state = .InFlight
    ∧ t.attempt.owner_epoch = m.epoch ∧ t.attempt.attempt ≠ 1

open Classical in
noncomputable def after_restart (m : Machine) (c : String → Counts) : String → Counts :=
  fun effect_id =>
    { c effect_id with lost := (c effect_id).lost + if Orphaned m effect_id then 1 else 0 }

theorem Ledger.restart {epoch epoch' : ℕ} {c : Counts} (h : Ledger epoch c t) (hlt : epoch < epoch')
    {k : ℕ}
    (hk : (t.state = .InFlight ∧ t.attempt.owner_epoch = epoch ∧ t.attempt.attempt ≠ 1) ∧ k = 1
      ∨ ¬ (t.state = .InFlight ∧ t.attempt.owner_epoch = epoch ∧ t.attempt.attempt ≠ 1) ∧ k = 0) :
    Ledger epoch' { c with lost := c.lost + k } t := by
  refine { h with
    owned := le_trans h.owned (le_of_lt hlt)
    balance := fun hsafe => ?_ }
  have hbal := h.balance hsafe
  have howned := h.owned
  have hepoch : t.attempt.owner_epoch ≠ epoch' := by omega
  show t.attempt.attempt = _ + c.refused + (c.lost + k) + t.chargeable epoch'
  rcases hk with ⟨⟨hin, hown, hne⟩, rfl⟩ | ⟨hnot, rfl⟩
  · -- the dispatch was chargeable, and is lost
    have hbefore : t.chargeable epoch = 1 := if_pos (.inr ⟨hne, hin, hown⟩)
    have hafter : t.chargeable epoch' = 0 := by
      refine if_neg ?_
      rintro (⟨hone, -⟩ | ⟨-, -, hown'⟩)
      · exact hne hone
      · exact hepoch hown'
    rw [hbefore] at hbal
    rw [hafter]
    omega
  · have hsame : t.chargeable epoch' = t.chargeable epoch := by
      unfold ActivityTask.chargeable
      have h1 : ¬ (t.attempt.attempt ≠ 1 ∧ t.state = .InFlight
          ∧ t.attempt.owner_epoch = epoch') := fun hx => hepoch hx.2.2
      have h2 : ¬ (t.attempt.attempt ≠ 1 ∧ t.state = .InFlight
          ∧ t.attempt.owner_epoch = epoch) := fun hx => hnot ⟨hx.2.1, hx.2.2, hx.1⟩
      simp only [h1, h2, or_false]
    rw [hsame]
    omega

/-- **A restart keeps the books**, with the lost dispatches written beside them. -/
theorem Trans.restart_budgeted {c : String → Counts} (h : Trans m .restart m') (hb : Budgeted c m) :
    Budgeted (after_restart m c) m' := by
  have hlt : m.epoch < m'.epoch := by
    cases h with
    | restart failed =>
      show m.epoch < m.epoch + failed + 1
      omega
    | change _ hc _ => cases hc
  refine ⟨h.tasked hb.tasked, fun id i t hs => ?_, fun effect_id hnot => ?_⟩
  · have hold := h.restart_spot hs
    refine (hb.ledger id i t hold).restart hlt ?_
    by_cases ho : Orphaned m t.attempt.effect_id
    · rw [if_pos ho]
      obtain ⟨id', i', t', hs', heff, hin, hown, hne⟩ := ho
      obtain ⟨-, -, rfl⟩ := hb.tasked.unique hs' hold heff
      exact .inl ⟨⟨hin, hown, hne⟩, rfl⟩
    · rw [if_neg ho]
      exact .inr ⟨fun hx => ho ⟨id, i, t, hold, rfl, hx.1, hx.2.1, hx.2.2⟩, rfl⟩
  · have huntracked : ¬ Tracked m effect_id := fun htracked => hnot (h.tracked.1 htracked)
    have hno : ¬ Orphaned m effect_id := by
      rintro ⟨id, i, t, hs, heff, -⟩
      exact huntracked ⟨id, i, t, hs, heff⟩
    unfold after_restart
    rw [if_neg hno, hb.untracked effect_id huntracked]
    rfl

end Appcall.Durable
