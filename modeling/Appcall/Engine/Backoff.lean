/-
The delay before a retry.

`backoff_ms` doubles the base delay with every attempt, in 64-bit arithmetic: the shift stops
at 62, where the multiplier is the largest power of two of an `i64`, and the product saturates.
No policy allows a delay that comes near either limit, so the delay is that of unbounded
integers.
-/
import Appcall.Engine.Drive
import Appcall.Lib.Query
import Mathlib.Algebra.Order.Ring.Int

set_option autoImplicit false

namespace Appcall.Durable

/-! ## Powers of two -/

/-- How often the base delay is doubled. -/
def doublings (attempt : ℕ) : ℕ := max attempt 1 - 1

def exact_backoff (policy : RetryPolicy) (attempt : ℕ) : ℤ :=
  min policy.max_delay_ms (policy.base_delay_ms * 2 ^ doublings attempt)

theorem shift_toInt {shift : ℕ} (h : shift ≤ 62) :
    ((1 : BitVec 64) <<< shift).toInt = 2 ^ shift := by
  have hall : ∀ k : Fin 63, ((1 : BitVec 64) <<< k.val).toInt = 2 ^ k.val := by decide
  exact hall ⟨shift, by omega⟩

theorem pow_le_pow_two {a b : ℕ} (h : a ≤ b) : (2 : ℤ) ^ a ≤ 2 ^ b :=
  pow_le_pow_right₀ (by decide) h

/-! ## A valid policy -/

variable {policy : RetryPolicy}

theorem RetryPolicy.delays (h : policy.validate = .ok ()) :
    0 < policy.base_delay_ms ∧ policy.base_delay_ms ≤ policy.max_delay_ms
      ∧ policy.max_delay_ms ≤ 86400000 := by
  rw [validate] at h
  split at h
  · cases h
  next hvalid =>
    simp only [not_or] at hvalid
    omega

/-- **The delay is exact**: neither the limit of the shift nor the saturation shows. -/
theorem backoff_ms_eq (h : policy.validate = .ok ()) (attempt : ℕ) :
    backoff_ms policy attempt = exact_backoff policy attempt := by
  obtain ⟨hpos, hle, hmax⟩ := RetryPolicy.delays h
  have hdoublings : doublings attempt = attempt - 1 := by
    rw [doublings]
    omega
  rw [backoff_ms, exact_backoff, hdoublings]
  rw [if_pos (by omega), saturating_mul]
  have hI64_MIN : I64_MIN = -9223372036854775808 := rfl
  have hI64_MAX : I64_MAX = 9223372036854775807 := rfl
  by_cases hsmall : attempt - 1 ≤ 62
  · rw [Nat.min_eq_left hsmall]
    -- a product that saturates is above the largest delay anyway
    have hpow : (1 : ℤ) ≤ 2 ^ (attempt - 1) := one_le_pow₀ (by decide)
    have hproduct : 0 < policy.base_delay_ms * 2 ^ (attempt - 1) :=
      Int.mul_pos hpos (by omega)
    omega
  · rw [Nat.min_eq_right (by omega)]
    -- both products are above the largest delay
    have hlow : (86400000 : ℤ) ≤ policy.base_delay_ms * 2 ^ 62 := by
      rw [show (2 : ℤ) ^ 62 = 4611686018427387904 from rfl]
      omega
    have hhigh : policy.base_delay_ms * 2 ^ 62 ≤ policy.base_delay_ms * 2 ^ (attempt - 1) :=
      Int.mul_le_mul_of_nonneg_left (pow_le_pow_two (by omega)) (by omega)
    omega

/-! ## The exact delay -/

theorem exact_backoff_bounds (h : policy.validate = .ok ()) (attempt : ℕ) :
    policy.base_delay_ms ≤ exact_backoff policy attempt
      ∧ exact_backoff policy attempt ≤ policy.max_delay_ms := by
  obtain ⟨hpos, hle, -⟩ := RetryPolicy.delays h
  have hpow : (1 : ℤ) ≤ 2 ^ doublings attempt := one_le_pow₀ (by decide)
  have hbase : policy.base_delay_ms ≤ policy.base_delay_ms * 2 ^ doublings attempt :=
    le_mul_of_one_le_right (by omega) hpow
  rw [exact_backoff]
  omega

theorem exact_backoff_mono (h : policy.validate = .ok ()) {attempt attempt' : ℕ}
    (hle : attempt ≤ attempt') : exact_backoff policy attempt ≤ exact_backoff policy attempt' := by
  obtain ⟨hpos, -, -⟩ := RetryPolicy.delays h
  have hdoublings : doublings attempt ≤ doublings attempt' := by
    rw [doublings, doublings]
    omega
  have hproduct : policy.base_delay_ms * 2 ^ doublings attempt
      ≤ policy.base_delay_ms * 2 ^ doublings attempt' :=
    Int.mul_le_mul_of_nonneg_left (pow_le_pow_two hdoublings) (by omega)
  rw [exact_backoff, exact_backoff]
  omega

theorem failed_task_due {task t : ActivityTask} {execution : ExecutionAccounting}
    {failure : ActivityFailure} {failed_at_ms : ℤ} (hclock : failed_at_ms ≤ I64_MAX)
    {default_policy : RetryPolicy}
    (h : failed_task task execution failure failed_at_ms default_policy = .ok t)
    {retry : RetryState} (hretry : t.state = .Retrying retry) :
    failed_at_ms ≤ retry.next_attempt_at_ms := by
  rw [failed_task] at h
  split at h
  · obtain ⟨⟨⟩, hvalid, h⟩ := bind_eq_ok h
    split at h
    · cases h
      cases hretry
    · cases h
      cases hretry
      have hdelays := RetryPolicy.delays hvalid
      have hbounds := exact_backoff_bounds hvalid execution.execution_attempts
      dsimp only
      rw [saturating_add, backoff_ms_eq hvalid]
      omega
  · cases h
    cases hretry

/-- **Backoff is that of unbounded integers**, within its bounds and monotone, and the next
attempt is never before the failure. -/
theorem backoff_exact (policy : RetryPolicy) (h : policy.validate = .ok ()) (attempt : ℕ) :
    backoff_ms policy attempt
        = min policy.max_delay_ms (policy.base_delay_ms * 2 ^ (max attempt 1 - 1))
      ∧ policy.base_delay_ms ≤ backoff_ms policy attempt
      ∧ backoff_ms policy attempt ≤ policy.max_delay_ms
      ∧ (∀ attempt', attempt ≤ attempt' → backoff_ms policy attempt ≤ backoff_ms policy attempt')
      ∧ ((1 : BitVec 64) <<< min (attempt - 1) 62).toInt = 2 ^ min (attempt - 1) 62
      ∧ ∀ (task t : ActivityTask) (execution : ExecutionAccounting) (failure : ActivityFailure)
        (failed_at_ms : ℤ) (default_policy : RetryPolicy) (retry : RetryState),
        failed_at_ms ≤ I64_MAX →
        failed_task task execution failure failed_at_ms default_policy = .ok t →
        t.state = .Retrying retry → failed_at_ms ≤ retry.next_attempt_at_ms := by
  have hbounds := exact_backoff_bounds h attempt
  rw [backoff_ms_eq h]
  refine ⟨rfl, hbounds.1, hbounds.2, ?_, shift_toInt (by omega), ?_⟩
  · intro attempt' hle
    rw [backoff_ms_eq h]
    exact exact_backoff_mono h hle
  · intro task t execution failure failed_at_ms default_policy retry hclock htask hretry
    exact failed_task_due hclock htask hretry

/-- The default policy reaches its cap. -/
theorem Sample.default_backoff : backoff_ms RetryPolicy.default 100 = 30000 := by
  have h := (backoff_exact RetryPolicy.default RetryPolicy.default_validate 100).1
  rw [h]
  decide

end Appcall.Durable
