import Mathlib.Data.Rat.Defs
import Mathlib.Tactic.Linarith
import Mathlib.Tactic.NormNum

/-!
# Settings

The tunables the modelled operations read, each with the bound its field
declaration enforces, so a configuration outside the bounds cannot be built.
Seconds are exact rationals.
-/
namespace AgenticPlatform

/-- A point in time, or a duration, in seconds. -/
abbrev Time := ℚ

/-- One draw of `random()`: a number in [0, 1). -/
abbrev Draw := { u : ℚ // 0 ≤ u ∧ u < 1 }

theorem zero_isDraw : 0 ≤ (0 : ℚ) ∧ (0 : ℚ) < 1 := by norm_num

/-- The retry settings; the last bound is the one `check_coherence` adds. -/
structure RetrySettings where
  runRetryBaseSeconds : ℚ
  runRetryMaxSeconds : ℚ
  runRetryJitterRatio : ℚ
  base_bounds : 1 / 10 ≤ runRetryBaseSeconds ∧ runRetryBaseSeconds ≤ 60
  max_bounds : 1 ≤ runRetryMaxSeconds ∧ runRetryMaxSeconds ≤ 3600
  jitter_bounds : 0 ≤ runRetryJitterRatio ∧ runRetryJitterRatio ≤ 1
  coherent : runRetryBaseSeconds ≤ runRetryMaxSeconds

namespace RetrySettings

/-- The values the field declarations default to. -/
def default : RetrySettings where
  runRetryBaseSeconds := 2
  runRetryMaxSeconds := 300
  runRetryJitterRatio := 1 / 4
  base_bounds := by norm_num
  max_bounds := by norm_num
  jitter_bounds := by norm_num
  coherent := by norm_num

theorem base_pos (c : RetrySettings) : 0 < c.runRetryBaseSeconds := by
  have h := c.base_bounds.1
  linarith

theorem max_pos (c : RetrySettings) : 0 < c.runRetryMaxSeconds := by
  have h := c.max_bounds.1
  linarith

end RetrySettings
end AgenticPlatform
