import AgenticPlatform.Foundation.Aggregate

/-!
# Tables without their closed rows

A table of which rows have been deleted, beside the table it would have been. The rows that
are gone are closed: whoever looks for rows of another kind, or by a key that is not gone,
finds the same in both, and a change that keeps closed rows closed keeps the two together.
-/
namespace AgenticPlatform.Foundation

variable {ι κ : Type*} {key : ι → κ} [DecidableEq κ]

/-- What is kept of the whole, without the keys that are gone. -/
structure Pruned (closed : ι → Prop) (gone : List κ) (kept whole : Table ι key) : Prop where
  rows : kept.rows = whole.rows.filter (fun a => key a ∉ gone)
  closed : ∀ a ∈ whole.rows, key a ∈ gone → closed a

namespace Pruned

variable {closed : ι → Prop} {gone : List κ} {kept whole : Table ι key}

theorem refl (closed : ι → Prop) (t : Table ι key) : Pruned closed [] t t where
  rows := (List.filter_eq_self.mpr (fun _ _ => decide_eq_true List.not_mem_nil)).symm
  closed := fun _ _ h => absurd h List.not_mem_nil

theorem mem (h : Pruned closed gone kept whole) {a : ι} :
    a ∈ kept.rows ↔ a ∈ whole.rows ∧ key a ∉ gone := by
  rw [h.rows, List.mem_filter, decide_eq_true_eq]

theorem imp (h : Pruned closed gone kept whole) {closed' : ι → Prop}
    (himp : ∀ a, closed a → closed' a) : Pruned closed' gone kept whole :=
  ⟨h.rows, fun a ha hgone => himp a (h.closed a ha hgone)⟩

/-- The rows of a kind no closed row is of. -/
theorem filter (h : Pruned closed gone kept whole) {p : ι → Prop} [DecidablePred p]
    (hp : ∀ a, closed a → ¬ p a) :
    kept.rows.filter (fun a => p a) = whole.rows.filter (fun a => p a) := by
  rw [h.rows, List.filter_filter]
  refine List.filter_congr ?_
  intro a ha
  by_cases hpa : p a
  · have hkept : key a ∉ gone := fun hgone => hp a (h.closed a ha hgone) hpa
    simp [hpa, hkept]
  · simp [hpa]

/-- The first of them. -/
theorem find? (h : Pruned closed gone kept whole) {p : ι → Prop} [DecidablePred p]
    (hp : ∀ a, closed a → ¬ p a) :
    kept.rows.find? (fun a => p a) = whole.rows.find? (fun a => p a) := by
  rw [← List.head?_filter, ← List.head?_filter, h.filter hp]

theorem sumWhere {α : Type*} [AddCommMonoid α] (h : Pruned closed gone kept whole) {p : ι → Prop}
    [DecidablePred p] (hp : ∀ a, closed a → ¬ p a) (f : ι → α) :
    sumWhere p f kept.rows = Foundation.sumWhere p f whole.rows := by
  rw [Foundation.sumWhere, Foundation.sumWhere, h.filter hp]

theorem get (h : Pruned closed gone kept whole) {k : κ} (hk : k ∉ gone) :
    kept.get k = whole.get k := by
  refine Option.ext ?_
  intro a
  rw [Table.get_eq_some, Table.get_eq_some, h.mem]
  constructor
  · rintro ⟨⟨ha, -⟩, rfl⟩
    exact ⟨ha, rfl⟩
  · rintro ⟨ha, rfl⟩
    exact ⟨⟨ha, hk⟩, rfl⟩

theorem updateWhere (h : Pruned closed gone kept whole) {p : ι → Prop} [DecidablePred p] {f : ι → ι}
    (hf : ∀ a, key (f a) = key a) (hclosed : ∀ a, closed a → p a → key a ∈ gone → closed (f a)) :
    Pruned closed gone (kept.updateWhere p f hf) (whole.updateWhere p f hf) where
  rows := by
    change kept.rows.map (Table.rewrite p f) =
      (whole.rows.map (Table.rewrite p f)).filter (fun a => key a ∉ gone)
    rw [h.rows, List.filter_map]
    congr 1
    refine List.filter_congr ?_
    intro a _
    rw [Function.comp_apply, Table.key_rewrite hf]
  closed := by
    intro b hb hgone
    rcases Table.mem_updateWhere hf hb with ⟨ha, -⟩ | ⟨a, ha, hpa, rfl⟩
    · exact h.closed b ha hgone
    · rw [hf] at hgone
      exact hclosed a (h.closed a ha hgone) hpa hgone

/-- An UPDATE of one row that no closed row of the keys that are gone meets. -/
theorem updateKey (h : Pruned closed gone kept whole) {k : κ} {p : ι → Prop} [DecidablePred p]
    {f : ι → ι} (hf : ∀ a, key (f a) = key a) (hp : k ∈ gone → ∀ a, closed a → ¬ p a) :
    (kept.updateKey k p f hf).2 = (whole.updateKey k p f hf).2 ∧
      Pruned closed gone (kept.updateKey k p f hf).1 (whole.updateKey k p f hf).1 := by
  constructor
  · change ((kept.get k).filter (fun a => p a)).map f = ((whole.get k).filter (fun a => p a)).map f
    by_cases hk : k ∈ gone
    · have hnone : kept.get k = none := by
        refine Table.get_eq_none.mpr (fun hmem => ?_)
        obtain ⟨a, ha, rfl⟩ := Table.mem_keys.mp hmem
        exact (h.mem.mp ha).2 hk
      rw [hnone]
      cases hget : whole.get k with
      | none => rfl
      | some a =>
        obtain ⟨ha, hkey⟩ := Table.get_eq_some.mp hget
        have hpa : ¬ p a := hp hk a (h.closed a ha (hkey ▸ hk))
        simp [Option.filter, hpa]
    · rw [h.get hk]
  · refine h.updateWhere hf ?_
    rintro a hclosed ⟨rfl, hpa⟩ hgone
    exact absurd hpa (hp hgone a hclosed)

theorem tryInsert (h : Pruned closed gone kept whole) {a : ι} {kept' : Table ι key}
    (ha : key a ∉ gone) (hinsert : kept.tryInsert a = some kept') :
    ∃ whole', whole.tryInsert a = some whole' ∧ Pruned closed gone kept' whole' := by
  obtain ⟨hfresh, hrows⟩ := Table.tryInsert_eq_some hinsert
  have hnew : key a ∉ whole.keys := by
    intro hmem
    obtain ⟨b, hb, hkey⟩ := Table.mem_keys.mp hmem
    exact hfresh (Table.mem_keys.mpr ⟨b, h.mem.mpr ⟨hb, hkey ▸ ha⟩, hkey⟩)
  refine ⟨whole.insert a hnew, by rw [Table.tryInsert, dif_pos hnew], ?_, ?_⟩
  · change kept'.rows = (whole.rows ++ [a]).filter (fun b => key b ∉ gone)
    rw [hrows, h.rows, List.filter_append, List.filter_singleton, decide_eq_true ha]
    rfl
  · intro b hb hgone
    rcases Table.mem_insert.mp hb with hb | rfl
    · exact h.closed b hb hgone
    · exact absurd hgone ha

/-- More closed rows go. -/
theorem deleteWhere (h : Pruned closed gone kept whole) {p : ι → Prop} [DecidablePred p]
    (hp : ∀ a ∈ kept.rows, p a → closed a) :
    Pruned closed (gone ++ (kept.rows.filter (fun a => p a)).map key) (kept.deleteWhere p)
      whole where
  rows := by
    change kept.rows.filter (fun a => ¬ p a) = _
    have hmem : ∀ a ∈ kept.rows, (key a ∈ (kept.rows.filter (fun a => p a)).map key ↔ p a) := by
      intro a ha
      constructor
      · intro hgone
        obtain ⟨b, hb, hkey⟩ := List.mem_map.mp hgone
        obtain ⟨hb, hpb⟩ := List.mem_filter.mp hb
        exact Table.eq_of_key hb ha hkey ▸ of_decide_eq_true hpb
      · exact fun hpa => List.mem_map.mpr ⟨a, List.mem_filter.mpr ⟨ha, decide_eq_true hpa⟩, rfl⟩
    calc kept.rows.filter (fun a => ¬ p a)
        = kept.rows.filter (fun a => key a ∉ (kept.rows.filter (fun a => p a)).map key) := by
          refine List.filter_congr ?_
          intro a ha
          rw [decide_eq_decide, hmem a ha]
      _ = whole.rows.filter
          (fun a => key a ∉ gone ++ (kept.rows.filter (fun a => p a)).map key) := by
          refine (congrArg (List.filter _) h.rows).trans ?_
          rw [List.filter_filter]
          refine List.filter_congr ?_
          intro a _
          rw [← Bool.decide_and, decide_eq_decide, List.mem_append, not_or, and_comm]
  closed := by
    intro a ha hgone
    rcases List.mem_append.mp hgone with hgone | hnew
    · exact h.closed a ha hgone
    · obtain ⟨b, hb, hkey⟩ := List.mem_map.mp hnew
      obtain ⟨hb, hpb⟩ := List.mem_filter.mp hb
      have heq : b = a := Table.eq_of_key (h.mem.mp hb).1 ha hkey
      exact heq ▸ hp b hb (of_decide_eq_true hpb)

end Pruned

/-- Filtering once more with a weaker condition changes nothing. -/
theorem filter_of_imp {p q : ι → Prop} [DecidablePred p] [DecidablePred q] (hpq : ∀ a, p a → q a)
    (rows : List ι) :
    (rows.filter (fun a => q a)).filter (fun a => p a) = rows.filter (fun a => p a) := by
  rw [List.filter_filter]
  refine List.filter_congr ?_
  intro a _
  by_cases hpa : p a
  · simp [hpa, hpq a hpa]
  · simp [hpa]

/-- Two lists that agree past a bound agree past a later one. -/
theorem filter_narrow {p q : ι → Prop} [DecidablePred p] [DecidablePred q] {kept whole : List ι}
    (h : kept.filter (fun a => q a) = whole.filter (fun a => q a)) (hpq : ∀ a, p a → q a) :
    kept.filter (fun a => p a) = whole.filter (fun a => p a) := by
  rw [← filter_of_imp hpq kept, ← filter_of_imp hpq whole, h]

/-- A sum over the rows past a bound only sees these. -/
theorem sumWhere_of_filter {α : Type*} [AddCommMonoid α] {p q : ι → Prop} [DecidablePred p]
    [DecidablePred q] {kept whole : List ι}
    (h : kept.filter (fun a => q a) = whole.filter (fun a => q a)) (hpq : ∀ a, p a → q a)
    (f : ι → α) : sumWhere p f kept = sumWhere p f whole := by
  rw [sumWhere, sumWhere, filter_narrow h hpq]

end AgenticPlatform.Foundation
