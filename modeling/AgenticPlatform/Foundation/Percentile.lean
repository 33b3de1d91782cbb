import AgenticPlatform.Foundation.StableSort
import Mathlib.Algebra.Order.Floor.Ring
import Mathlib.Algebra.Order.Field.Rat
import Mathlib.Data.Rat.Floor
import Mathlib.Tactic.Linarith

/-!
# Continuous percentiles

`percentile_cont(p) WITHIN GROUP (ORDER BY x)`: the value at a place of the sorted list,
interpolated between its two neighbours where the place is not a whole number. There is
none in an empty group.
-/
namespace AgenticPlatform.Foundation

/-- The place of the percentile, counted from zero. -/
def percentilePlace (p : ℚ) (n : ℕ) : ℚ := p * (n - 1)

def percentileCont (p : ℚ) (xs : List ℚ) : Option ℚ :=
  let place := percentilePlace p xs.length
  match (sortedBy id xs)[⌊place⌋₊]?, (sortedBy id xs)[⌈place⌉₊]? with
  | some low, some high => some (low + (place - ⌊place⌋₊) * (high - low))
  | _, _ => none

theorem percentileCont_nil (p : ℚ) : percentileCont p [] = none := rfl

section
variable {p : ℚ} {n : ℕ}

theorem percentilePlace_nonneg (hp : 0 ≤ p) (hn : 0 < n) : 0 ≤ percentilePlace p n := by
  have hpos : (1 : ℚ) ≤ n := by exact_mod_cast hn
  exact mul_nonneg hp (by linarith)

/-- Both neighbours are in the list. -/
theorem ceil_percentilePlace_lt (hp : p ≤ 1) (hn : 0 < n) : ⌈percentilePlace p n⌉₊ < n := by
  have hpos : (1 : ℚ) ≤ n := by exact_mod_cast hn
  have hle : percentilePlace p n ≤ ((n - 1 : ℕ) : ℚ) := by
    rw [Nat.cast_pred hn]
    exact mul_le_of_le_one_left (by linarith) hp
  have hceil := Nat.ceil_le.mpr hle
  omega

end

/-- The percentile of a group that is not empty lies between two of its values. -/
theorem percentileCont_between {p : ℚ} (hp : 0 ≤ p ∧ p ≤ 1) {xs : List ℚ} (hxs : xs ≠ []) :
    ∃ v, percentileCont p xs = some v ∧ ∃ low ∈ xs, ∃ high ∈ xs, low ≤ v ∧ v ≤ high := by
  have hn : 0 < xs.length := List.length_pos_iff.mpr hxs
  have hlength : (sortedBy id xs).length = xs.length := (List.perm_insertionSort _ xs).length_eq
  have hceil := ceil_percentilePlace_lt hp.2 hn
  have hplace := percentilePlace_nonneg hp.1 hn
  have hfloor : ⌊percentilePlace p xs.length⌋₊ ≤ ⌈percentilePlace p xs.length⌉₊ :=
    Nat.floor_le_ceil _
  have hhigh : ⌈percentilePlace p xs.length⌉₊ < (sortedBy id xs).length := by omega
  have hlow : ⌊percentilePlace p xs.length⌋₊ < (sortedBy id xs).length := by omega
  have hle : (sortedBy id xs)[⌊percentilePlace p xs.length⌋₊] ≤
      (sortedBy id xs)[⌈percentilePlace p xs.length⌉₊] := by
    rcases hfloor.eq_or_lt with heq | hlt
    · exact le_of_eq (by congr 1)
    · exact List.pairwise_iff_getElem.mp (sortedBy_sorted id xs) _ _ hlow hhigh hlt
  -- The interpolation weight.
  have hweight : 0 ≤ percentilePlace p xs.length - ⌊percentilePlace p xs.length⌋₊ :=
    sub_nonneg.mpr (Nat.floor_le hplace)
  have hweight' : percentilePlace p xs.length - ⌊percentilePlace p xs.length⌋₊ ≤ 1 := by
    have := Nat.lt_floor_add_one (percentilePlace p xs.length)
    linarith
  have hvalue : percentileCont p xs = some ((sortedBy id xs)[⌊percentilePlace p xs.length⌋₊] +
      (percentilePlace p xs.length - ⌊percentilePlace p xs.length⌋₊) *
      ((sortedBy id xs)[⌈percentilePlace p xs.length⌉₊] -
        (sortedBy id xs)[⌊percentilePlace p xs.length⌋₊])) := by
    simp only [percentileCont, List.getElem?_eq_getElem hlow, List.getElem?_eq_getElem hhigh]
  refine ⟨_, hvalue, _, mem_sortedBy.mp (List.getElem_mem hlow), _,
    mem_sortedBy.mp (List.getElem_mem hhigh), ?_, ?_⟩
  · exact le_add_of_nonneg_right (mul_nonneg hweight (sub_nonneg.mpr hle))
  · have := mul_le_of_le_one_left (sub_nonneg.mpr hle) hweight'
    linarith

end AgenticPlatform.Foundation
