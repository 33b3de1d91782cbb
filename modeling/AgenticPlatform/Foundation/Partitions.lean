import Mathlib.Data.List.Dedup
import Mathlib.Data.List.MinMax

/-!
# Rows by partition

`first_value(…) OVER (PARTITION BY … ORDER BY …)`, and `GROUP BY` with `count(*)`. The first
row of a partition is the same for all rows of it, itself among them.
-/
namespace AgenticPlatform.Foundation

section
variable {α κ ρ : Type*} [DecidableEq κ] [LinearOrder ρ] {part : α → κ} {rank : α → ρ}
  {rows : List α} {a b : α}

/-- The first row of the partition that the row is in. -/
def firstOf (part : α → κ) (rank : α → ρ) (rows : List α) (a : α) : Option α :=
  (rows.filter (fun b => part b = part a)).argmin rank

theorem firstOf_eq_some (h : firstOf part rank rows a = some b) :
    b ∈ rows ∧ part b = part a ∧ ∀ c ∈ rows, part c = part a → rank b ≤ rank c := by
  obtain ⟨hmem, hpart⟩ := List.mem_filter.mp (List.argmin_mem h)
  refine ⟨hmem, of_decide_eq_true hpart, ?_⟩
  intro c hc hsame
  exact List.le_of_mem_argmin (List.mem_filter.mpr ⟨hc, decide_eq_true hsame⟩) h

theorem firstOf_of_mem (h : a ∈ rows) : ∃ b, firstOf part rank rows a = some b := by
  have hsome : (rows.filter (fun b => part b = part a)).argmin rank ≠ none := by
    rw [Ne, List.argmin_eq_none]
    exact List.ne_nil_of_mem (List.mem_filter.mpr ⟨h, decide_eq_true rfl⟩)
  exact Option.ne_none_iff_exists'.mp hsome

theorem firstOf_congr (h : part a = part b) :
    firstOf part rank rows a = firstOf part rank rows b := by
  rw [firstOf, firstOf, h]

/-- The first row of a partition is its own first row. -/
theorem firstOf_self (h : firstOf part rank rows a = some b) :
    firstOf part rank rows b = some b := by
  rw [← h]
  exact firstOf_congr (firstOf_eq_some h).2.1

end

section
variable {κ : Type*} [DecidableEq κ]

/-- Each key once, with the number of its rows. -/
def groupCounts (keys : List κ) : List (κ × Nat) :=
  keys.dedup.map (fun k => (k, keys.countP (fun k' => k' = k)))

theorem map_fst_groupCounts (keys : List κ) : (groupCounts keys).map Prod.fst = keys.dedup := by
  rw [groupCounts, List.map_map]
  exact List.map_id _

theorem filter_groupCounts (keys : List κ) (k : κ) :
    (groupCounts keys).filter (fun g => g.1 = k) =
      if k ∈ keys then [(k, keys.countP (fun k' => k' = k))]
      else [] := by
  rw [groupCounts, List.filter_map]
  have hkeys : keys.dedup.filter
      ((fun g : κ × Nat => decide (g.1 = k)) ∘ fun k => (k, keys.countP (fun k' => k' = k))) =
      List.replicate (keys.dedup.count k) k := List.filter_eq k
  rw [hkeys, List.map_replicate]
  split
  · rename_i hk
    rw [List.count_eq_one_of_mem (List.nodup_dedup keys) (List.mem_dedup.mpr hk),
      List.replicate_one]
  · rename_i hk
    rw [List.count_eq_zero_of_not_mem (fun hmem => hk (List.mem_dedup.mp hmem)),
      List.replicate_zero]

end

end AgenticPlatform.Foundation
