import Mathlib.Data.List.Sort
import Mathlib.Data.List.TakeWhile

/-!
# The first match in a stably sorted list

A search through a list sorted by a key meets the matches in the order of their keys and,
among equal keys, in the order of the list. It therefore finds what a search through the
list itself finds exactly where no match has a lesser key than the first one.
-/
namespace AgenticPlatform.Foundation

variable {α κ : Type*} [LinearOrder κ] (key : α → κ)

/-- `sorted(xs, key=key)`. -/
def sortedBy (l : List α) : List α := l.insertionSort (fun a b => key a ≤ key b)

variable {key} {l : List α} {p : α → Bool}

@[simp] theorem mem_sortedBy {a : α} : a ∈ sortedBy key l ↔ a ∈ l := List.mem_insertionSort _

theorem sortedBy_sorted (key : α → κ) (l : List α) :
    (sortedBy key l).Pairwise (fun a b => key a ≤ key b) := by
  have : Std.Total (fun a b : α => key a ≤ key b) := ⟨fun a b => le_total (key a) (key b)⟩
  have : IsTrans α (fun a b => key a ≤ key b) := ⟨fun a b c => le_trans⟩
  exact List.pairwise_insertionSort _ l

/-- A function that keeps the keys keeps the order. -/
theorem map_sortedBy {β : Type*} {key' : β → κ} {f : α → β} (hf : ∀ a, key' (f a) = key a)
    (l : List α) : (sortedBy key l).map f = sortedBy key' (l.map f) :=
  List.map_insertionSort _ _ f l (fun a _ b _ => by rw [hf, hf])

/-- Where one more element goes: behind those with a lesser key only. -/
theorem sortedBy_cons (key : α → κ) (a : α) (l : List α) :
    ∃ before after, sortedBy key (a :: l) = before ++ a :: after ∧
      sortedBy key l = before ++ after ∧ ∀ b ∈ before, key b < key a := by
  refine ⟨_, _, List.insertionSort_cons_eq_take_drop _ a l,
    (List.takeWhile_append_dropWhile).symm, ?_⟩
  intro b hb
  simpa using List.mem_takeWhile_imp hb

theorem find?_sortedBy_cons_of_neg {a : α} (h : p a = false) :
    (sortedBy key (a :: l)).find? p = (sortedBy key l).find? p := by
  obtain ⟨before, after, hcons, hl, -⟩ := sortedBy_cons key a l
  rw [hcons, hl, List.find?_append, List.find?_append, List.find?_cons, h]

theorem find?_sortedBy_cons_of_pos {a : α} (h : p a = true) :
    (sortedBy key (a :: l)).find? p = some a ↔ ∀ b ∈ l, p b = true → key a ≤ key b := by
  obtain ⟨before, after, hcons, hl, hbefore⟩ := sortedBy_cons key a l
  have hsorted := sortedBy_sorted key (a :: l)
  rw [hcons] at hsorted ⊢
  have hmem : ∀ b, b ∈ l ↔ b ∈ before ∨ b ∈ after := by
    intro b
    rw [← List.mem_append, ← hl, mem_sortedBy]
  constructor
  · intro hfind b hb hpb
    rcases (hmem b).mp hb with hb | hb
    · -- a match before it would have been found instead
      obtain ⟨c, hc⟩ := Option.isSome_iff_exists.mp (List.find?_isSome.mpr ⟨b, hb, hpb⟩)
      rw [List.find?_append, hc] at hfind
      cases hfind
      exact absurd (hbefore a (List.mem_of_find?_eq_some hc)) (lt_irrefl _)
    · exact (List.pairwise_cons.mp (List.pairwise_append.mp hsorted).2.1).1 b hb
  · intro hleast
    have hnone : before.find? p = none := by
      refine List.find?_eq_none.mpr ?_
      intro b hb hpb
      exact absurd (hleast b ((hmem b).mpr (Or.inl hb)) hpb) (not_le_of_gt (hbefore b hb))
    rw [List.find?_append, hnone, Option.none_or, List.find?_cons_of_pos h]

/-- Both searches find the same exactly where the first match has the least key. -/
theorem find?_sortedBy_eq_iff :
    (sortedBy key l).find? p = l.find? p ↔ ∀ a, l.find? p = some a → ∀ b ∈ l, p b = true →
      key a ≤ key b := by
  induction l with
  | nil => simp [sortedBy]
  | cons c l ih =>
    cases hc : p c with
    | false =>
      rw [find?_sortedBy_cons_of_neg hc, List.find?_cons_of_neg (by simp [hc]), ih]
      refine forall₂_congr ?_
      intro a _
      constructor
      · intro h b hb hpb
        rcases List.mem_cons.mp hb with rfl | hb
        · rw [hc] at hpb
          cases hpb
        · exact h b hb hpb
      · exact fun h b hb => h b (List.mem_cons_of_mem c hb)
    | true =>
      rw [List.find?_cons_of_pos hc, find?_sortedBy_cons_of_pos hc]
      constructor
      · intro h a ha b hb hpb
        cases ha
        rcases List.mem_cons.mp hb with rfl | hb
        · exact le_refl _
        · exact h b hb hpb
      · exact fun h b hb hpb => h c rfl b (List.mem_cons_of_mem c hb) hpb

/-! ## Lists with distinct keys -/

/-- Where no two elements share a key, the sorted list is the list up to its order. -/
theorem sortedBy_eq_iff_perm {l' : List α} (hkeys : (l.map key).Nodup) :
    sortedBy key l = sortedBy key l' ↔ l.Perm l' := by
  have hperm : ∀ l : List α, (sortedBy key l).Perm l := fun l => List.perm_insertionSort _ l
  constructor
  · intro h
    exact (hperm l).symm.trans (h ▸ hperm l')
  · intro h
    refine List.Perm.eq_of_pairwise ?_ (sortedBy_sorted key l) (sortedBy_sorted key l')
      ((hperm l).trans (h.trans (hperm l').symm))
    intro a b ha hb hab hba
    have hb' : b ∈ l := h.mem_iff.mpr (mem_sortedBy.mp hb)
    exact List.inj_on_of_nodup_map hkeys (mem_sortedBy.mp ha) hb' (le_antisymm hab hba)

/-! ## The first elements of a list in strict order -/

/-- An element is among the first ones exactly where few enough come before it. -/
theorem mem_take_iff_of_pairwise {r : α → α → Prop} [DecidableRel r] {l : List α}
    (hasymm : ∀ a b, r a b → ¬ r b a) (hl : l.Pairwise r) {a : α} (ha : a ∈ l) (n : ℕ) :
    a ∈ l.take n ↔ (l.filter (fun b => r b a)).length < n := by
  induction l generalizing n with
  | nil => cases ha
  | cons b l ih =>
    obtain ⟨hb, hl⟩ := List.pairwise_cons.mp hl
    cases n with
    | zero => simp
    | succ n =>
      rw [List.take_succ_cons, List.mem_cons, List.filter_cons]
      rcases List.mem_cons.mp ha with rfl | hrest
      · have hself : ¬ r a a := fun h => hasymm a a h h
        have hnone : l.filter (fun c => r c a) = [] := by
          refine List.filter_eq_nil_iff.mpr ?_
          intro c hc
          simpa using hasymm a c (hb c hc)
        simp [hself, hnone]
      · have hne : a ≠ b := by
          rintro rfl
          exact hasymm a a (hb a hrest) (hb a hrest)
        simp only [hne, false_or, hb a hrest, decide_true, if_true, List.length_cons,
          Nat.succ_lt_succ_iff]
        exact ih hl hrest n

end AgenticPlatform.Foundation
