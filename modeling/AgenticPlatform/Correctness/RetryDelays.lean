import AgenticPlatform.Correctness.Leases
import Mathlib.Algebra.Order.Ring.Pow
import Mathlib.Data.Int.ConditionallyCompleteOrder
import Mathlib.Order.Interval.Set.Defs

/-!
# One back-off, computed twice

A worker that reports a failure computes the delay in Python, the reaper computes it in SQL
for a worker that has died. The first caps the exponential before the jitter and again after
it, the second caps once. Up to the cap they compute the same, and above it both are the cap.
Neither needs more of a configuration than that its base does not exceed its cap.
-/
namespace AgenticPlatform.Correctness
open AgenticPlatform.Foundation AgenticPlatform.Identity AgenticPlatform.Db

/-- A configuration of the back-off, within wider bounds than the settings accept. -/
structure BackOff where
  base : ℚ
  cap : ℚ
  jitter : ℚ
  base_nonneg : 0 ≤ base
  coherent : base ≤ cap
  jitter_bounds : 0 ≤ jitter ∧ jitter ≤ 1

namespace BackOff
variable (b : BackOff) (attempt : Int) (u : Draw)

/-- `base * 2 ** max(0, attempt - 1)`. -/
def exponential : ℚ := b.base * 2 ^ (max 0 (attempt - 1)).toNat

/-- `retry_delay`. -/
def retryDelay (retryAfter : Option Time) : Time :=
  let exponential := min b.cap (b.exponential attempt)
  let floor := retryAfter.getD 0
  let base := max exponential floor
  let jitter := base * b.jitter * u.val
  min b.cap (base + jitter)

/-- The expression in the UPDATE of `reap_expired`. -/
def reapDelay : Time := min b.cap (b.exponential attempt * (1 + b.jitter * u.val))

/-! ## The exponential -/

theorem cap_nonneg : 0 ≤ b.cap := b.base_nonneg.trans b.coherent

theorem spread_nonneg : 0 ≤ b.jitter * u.val := mul_nonneg b.jitter_bounds.1 u.property.1

theorem one_le_power : (1 : ℚ) ≤ 2 ^ (max 0 (attempt - 1)).toNat := one_le_pow₀ one_le_two

theorem base_le_exponential : b.base ≤ b.exponential attempt :=
  le_mul_of_one_le_right b.base_nonneg (one_le_power attempt)

theorem exponential_nonneg : 0 ≤ b.exponential attempt :=
  b.base_nonneg.trans (b.base_le_exponential attempt)

theorem exponential_mono : Monotone b.exponential := by
  intro first later h
  have hsteps : (max 0 (first - 1)).toNat ≤ (max 0 (later - 1)).toNat := by omega
  exact mul_le_mul_of_nonneg_left (pow_le_pow_right₀ one_le_two hsteps) b.base_nonneg

/-! ## Both delays -/

/-- Without guidance the floor is below the exponential. -/
theorem retryDelay_none : b.retryDelay attempt u none =
    min b.cap (min b.cap (b.exponential attempt) * (1 + b.jitter * u.val)) := by
  have hfloor : 0 ≤ min b.cap (b.exponential attempt) :=
    le_min b.cap_nonneg (b.exponential_nonneg attempt)
  simp only [retryDelay, Option.getD_none, max_eq_left hfloor]
  rw [mul_assoc, mul_add, mul_one]

/-- Capping before the jitter makes no difference to what is capped after it. -/
theorem reapDelay_eq_retryDelay : b.reapDelay attempt u = b.retryDelay attempt u none := by
  have hspread := b.spread_nonneg u
  rw [retryDelay_none, reapDelay]
  rcases le_total (b.exponential attempt) b.cap with hle | hcap
  · rw [min_eq_right hle]
  · -- Above the cap both products are.
    rw [min_eq_left hcap,
      min_eq_left (le_mul_of_one_le_right b.cap_nonneg (le_add_of_nonneg_right hspread))]
    refine min_eq_left (hcap.trans ?_)
    exact le_mul_of_one_le_right (b.exponential_nonneg attempt) (le_add_of_nonneg_right hspread)

theorem reapDelay_mem_Icc : b.reapDelay attempt u ∈ Set.Icc (min b.cap b.base) b.cap := by
  refine ⟨min_le_min_left _ ((b.base_le_exponential attempt).trans ?_), min_le_left _ _⟩
  exact le_mul_of_one_le_right (b.exponential_nonneg attempt)
    (le_add_of_nonneg_right (b.spread_nonneg u))

theorem reapDelay_mono : Monotone (fun attempt => b.reapDelay attempt u) := by
  intro first later h
  have hfactor : 0 ≤ 1 + b.jitter * u.val := add_nonneg zero_le_one (b.spread_nonneg u)
  exact min_le_min_left _ (mul_le_mul_of_nonneg_right (b.exponential_mono h) hfactor)

end BackOff

/-- The delays agree at every attempt, lie between the base and the cap, and do not decrease
from one attempt to the next. -/
theorem back_offs_agree (b : BackOff) (u : Draw) :
    (∀ attempt, b.reapDelay attempt u = b.retryDelay attempt u none) ∧
      (∀ attempt, b.reapDelay attempt u ∈ Set.Icc (min b.cap b.base) b.cap ∧
        b.retryDelay attempt u none ∈ Set.Icc (min b.cap b.base) b.cap) ∧
      Monotone (fun attempt => b.reapDelay attempt u) ∧
      Monotone (fun attempt => b.retryDelay attempt u none) := by
  have hagree : (fun attempt => b.retryDelay attempt u none) = fun attempt =>
      b.reapDelay attempt u :=
    funext (fun attempt => (b.reapDelay_eq_retryDelay attempt u).symm)
  refine ⟨fun attempt => b.reapDelay_eq_retryDelay attempt u, ?_, b.reapDelay_mono u,
    hagree ▸ b.reapDelay_mono u⟩
  intro attempt
  have hbounds := b.reapDelay_mem_Icc attempt u
  exact ⟨hbounds, b.reapDelay_eq_retryDelay attempt u ▸ hbounds⟩

/-! ## The settings -/

/-- What the settings make of it. -/
def backOffOf (c : RetrySettings) : BackOff where
  base := c.runRetryBaseSeconds
  cap := c.runRetryMaxSeconds
  jitter := c.runRetryJitterRatio
  base_nonneg := c.base_pos.le
  coherent := c.coherent
  jitter_bounds := c.jitter_bounds

section
variable (c : RetrySettings) (attempt : Nat) (u : Draw)

theorem retryDelay_eq_backOff (retryAfter : Option Time) :
    retryDelay c attempt retryAfter u = (backOffOf c).retryDelay attempt u retryAfter := by
  have hsteps : (max 0 ((attempt : Int) - 1)).toNat = attempt - 1 := by omega
  simp only [retryDelay, BackOff.retryDelay, BackOff.exponential, backOffOf, hsteps]

theorem reapDelay_eq_backOff : reapDelay c attempt u = (backOffOf c).reapDelay attempt u := by
  have hsteps : (max 0 ((attempt : Int) - 1)).toNat = attempt - 1 := by omega
  simp only [reapDelay, BackOff.reapDelay, BackOff.exponential, backOffOf, hsteps]

theorem reapDelay_eq_retryDelay : reapDelay c attempt u = retryDelay c attempt none u := by
  rw [reapDelay_eq_backOff, retryDelay_eq_backOff, BackOff.reapDelay_eq_retryDelay]

end

/-- A run with attempts left is available again at the same time, whether its worker reports
the failure or the reaper finds the lease expired. -/
theorem reapRow_availableAt (c : RetrySettings) (now : Time) (draw : Uuid → Draw) (l : LeasedRun)
    (error : String) {r : RunRow} (hattempt : l.attempt = r.attempt)
    (hmax : l.maxAttempts = r.maxAttempts) (hcancel : r.cancelRequestedAt = none)
    (hleft : r.attempt < r.maxAttempts) :
    (reapRow c now draw r).availableAt =
      (failRow now error (failTerminal l true) (failDelay c l true none (draw r.id))
        r).availableAt := by
  have hterminal : failTerminal l true = false := by simp [failTerminal, hattempt, hmax, hleft]
  have hnot : ¬ (r.cancelRequestedAt ≠ none ∨ r.maxAttempts ≤ r.attempt) := by simp [hcancel, hleft]
  have hfail : ¬ (False ∨ r.cancelRequestedAt ≠ none) := by simp [hcancel]
  simp only [reapRow, failRow, failDelay, hterminal, if_neg hnot, if_false, Bool.false_eq_true,
    if_neg hfail, hattempt]
  rw [reapDelay_eq_retryDelay]

end AgenticPlatform.Correctness
