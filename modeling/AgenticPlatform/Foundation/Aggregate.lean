import AgenticPlatform.Foundation.Table
import Mathlib.Algebra.BigOperators.Group.List.Basic
import Mathlib.Algebra.Order.Monoid.Defs

/-!
# Sums over the rows that meet a condition

`SELECT coalesce(sum(f), 0) … WHERE p` over a list of rows, and what happens to it when
rows are rewritten, leave the condition or are added.
-/
namespace AgenticPlatform.Foundation

variable {ι α : Type*} [AddCommMonoid α]

def sumWhere (p : ι → Prop) [DecidablePred p] (f : ι → α) (rows : List ι) : α :=
  ((rows.filter p).map f).sum

section

variable {p q : ι → Prop} [DecidablePred p] [DecidablePred q] {f : ι → α}

@[simp] theorem sumWhere_nil : sumWhere p f [] = 0 := rfl

theorem sumWhere_cons (a : ι) (rows : List ι) :
    sumWhere p f (a :: rows) = (if p a then f a else 0) + sumWhere p f rows := by
  by_cases h : p a
  · simp [sumWhere, h]
  · simp [sumWhere, h]

/-- Rewriting rows outside the condition leaves the sum. -/
theorem sumWhere_map {g : ι → ι} {rows : List ι}
    (h : ∀ a ∈ rows, (p (g a) ↔ p a) ∧ (p a → f (g a) = f a)) :
    sumWhere p f (rows.map g) = sumWhere p f rows := by
  induction rows with
  | nil => rfl
  | cons a rows ih =>
    obtain ⟨hiff, hsame⟩ := h a List.mem_cons_self
    rw [List.map_cons, sumWhere_cons, sumWhere_cons,
      ih (fun b hb => h b (List.mem_cons_of_mem a hb))]
    congr 1
    by_cases hp : p a
    · rw [if_pos (hiff.mpr hp), if_pos hp, hsame hp]
    · rw [if_neg (hp ∘ hiff.mp), if_neg hp]

/-- Two ways to weigh the same rows. -/
theorem sumWhere_congr {f' : ι → α} {rows : List ι}
    (h : ∀ a ∈ rows, (if p a then f a else 0) = if q a then f' a else 0) :
    sumWhere p f rows = sumWhere q f' rows := by
  induction rows with
  | nil => rfl
  | cons a rows ih =>
    rw [sumWhere_cons, sumWhere_cons, h a List.mem_cons_self,
      ih (fun b hb => h b (List.mem_cons_of_mem a hb))]

theorem sumWhere_append (rows new : List ι) :
    sumWhere p f (rows ++ new) = sumWhere p f rows + sumWhere p f new := by
  simp [sumWhere]

/-- A table is the row under a key and the rows beside it. -/
theorem sumWhere_split {κ : Type*} [DecidableEq κ] {key : ι → κ} (t : Table ι key) (k : κ) :
    sumWhere p f t.rows =
      sumWhere (fun a => p a ∧ key a ≠ k) f t.rows +
      ((t.get k).filter (fun a => p a)).elim 0 f := by
  obtain ⟨rows, hnodup⟩ := t
  simp only [Table.get]
  induction rows with
  | nil => simp
  | cons a rows ih =>
    rw [List.map_cons, List.nodup_cons] at hnodup
    rw [sumWhere_cons, sumWhere_cons, List.find?_cons]
    by_cases hk : key a = k
    · have hrest : sumWhere (fun a => p a ∧ key a ≠ k) f rows = sumWhere p f rows := by
        refine sumWhere_congr ?_
        intro b hb
        have hne : key b ≠ k := fun hb' => hnodup.1 (List.mem_map.mpr ⟨b, hb, hb'.trans hk.symm⟩)
        simp [hne]
      by_cases hp : p a
      · simp [hk, hp, hrest, Option.filter, add_comm]
      · simp [hk, hp, hrest, Option.filter]
    · rw [ih hnodup.2]
      simp [hk, add_assoc]

variable [PartialOrder α]

theorem sumWhere_singleton_le {a : ι} (hf : 0 ≤ f a) : sumWhere p f [a] ≤ f a := by
  rw [sumWhere_cons, sumWhere_nil, add_zero]
  split
  · exact le_refl _
  · exact hf

theorem weight_le {a b : ι} (h : q b → p a ∧ f b ≤ f a) (hf : 0 ≤ f a) :
    (if q b then f b else 0) ≤ if p a then f a else 0 := by
  by_cases hq : q b
  · rw [if_pos hq, if_pos (h hq).1]
    exact (h hq).2
  · rw [if_neg hq]
    split
    · exact hf
    · exact le_refl 0

variable [IsOrderedAddMonoid α] {κ : Type*} {g k : κ → ι} {rows : List κ}

/-- Two tables over the same rows: the sum is lower where no row comes to meet the
condition and none grows. -/
theorem sumWhere_map_le (hf : ∀ a, 0 ≤ f a)
    (h : ∀ a ∈ rows, q (g a) → p (k a) ∧ f (g a) ≤ f (k a)) :
    sumWhere q f (rows.map g) ≤ sumWhere p f (rows.map k) := by
  induction rows with
  | nil => exact le_refl 0
  | cons a rows ih =>
    rw [List.map_cons, List.map_cons, sumWhere_cons, sumWhere_cons]
    have htail := ih (fun b hb => h b (List.mem_cons_of_mem a hb))
    exact add_le_add (weight_le (h a List.mem_cons_self) (hf (k a))) htail

/-- A row that leaves the condition takes its share with it. -/
theorem sumWhere_map_add_le (hf : ∀ a, 0 ≤ f a)
    (h : ∀ a ∈ rows, q (g a) → p (k a) ∧ f (g a) ≤ f (k a)) {b : κ} (hb : b ∈ rows) (hp : p (k b))
    (hq : ¬ q (g b)) : sumWhere q f (rows.map g) + f (k b) ≤ sumWhere p f (rows.map k) := by
  induction rows with
  | nil => cases hb
  | cons a rows ih =>
    rw [List.map_cons, List.map_cons, sumWhere_cons, sumWhere_cons]
    have htail : ∀ c ∈ rows, q (g c) → p (k c) ∧ f (g c) ≤ f (k c) :=
      fun c hc => h c (List.mem_cons_of_mem a hc)
    rcases List.mem_cons.mp hb with rfl | hb
    · rw [if_neg hq, if_pos hp, zero_add, add_comm]
      exact add_le_add (le_refl _) (sumWhere_map_le hf htail)
    · rw [add_assoc]
      exact add_le_add (weight_le (h a List.mem_cons_self) (hf (k a))) (ih htail hb)

theorem sumWhere_nonneg {rows : List ι} (hf : ∀ a, 0 ≤ f a) : 0 ≤ sumWhere p f rows := by
  induction rows with
  | nil => exact le_refl 0
  | cons a rows ih =>
    rw [sumWhere_cons]
    apply add_nonneg _ ih
    split
    · exact hf a
    · exact le_refl 0

theorem sumWhere_le {rows : List ι} (hf : ∀ a, 0 ≤ f a) (h : ∀ a ∈ rows, q a → p a) :
    sumWhere q f rows ≤ sumWhere p f rows := by
  have hmap := sumWhere_map_le (g := id) (k := id) hf (fun a ha hq => ⟨h a ha hq, le_refl (f a)⟩)
  rwa [List.map_id] at hmap

end
end AgenticPlatform.Foundation
