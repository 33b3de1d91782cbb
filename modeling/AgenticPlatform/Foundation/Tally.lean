import AgenticPlatform.Foundation.Dict
import AgenticPlatform.Foundation.StableSort
import Mathlib.Data.List.Induction

/-!
# Dictionaries filled by a loop

A loop folds each element it takes into the entry of its key, which starts from one value
for all keys. The entry of a key is the fold of its own elements, and the entries stand in
the order in which their keys came first. The best entries are the first ones of a stable
sort.
-/
namespace AgenticPlatform.Foundation

/-! ## Filling -/

section
variable {ι κ β : Type*} [DecidableEq κ]

/-- `d[key(i)] = step(d.get(key(i), init), i)` for each element that is taken. -/
def tally (takes : ι → Bool) (key : ι → κ) (init : β) (step : β → ι → β) (l : List ι) :
    List (κ × β) :=
  l.foldl (fun d i => if takes i then Dict.setItem d (key i) (step ((d.lookup (key i)).getD init) i)
    else d) []

variable {takes : ι → Bool} {key : ι → κ} {init : β} {step : β → ι → β}

@[simp] theorem tally_nil : tally takes key init step [] = [] := rfl

theorem tally_concat (l : List ι) (i : ι) : tally takes key init step (l ++ [i]) =
    if takes i then Dict.setItem (tally takes key init step l) (key i)
      (step (((tally takes key init step l).lookup (key i)).getD init) i)
    else tally takes key init step l := by
  rw [tally, List.foldl_append]
  rfl

theorem mem_keys_tally {k : κ} (l : List ι) :
    k ∈ (tally takes key init step l).map Prod.fst ↔ ∃ i ∈ l, takes i = true ∧ key i = k := by
  induction l using List.reverseRecOn with
  | nil => simp
  | append_singleton l i ih =>
    rw [tally_concat]
    split
    · rw [Dict.mem_keys_setItem, ih]
      grind
    · rw [ih]
      grind

theorem nodup_tally (takes : ι → Bool) (key : ι → κ) (init : β) (step : β → ι → β) (l : List ι) :
    ((tally takes key init step l).map Prod.fst).Nodup := by
  induction l using List.reverseRecOn with
  | nil => exact List.nodup_nil
  | append_singleton l i ih =>
    rw [tally_concat]
    split
    · exact Dict.nodup_setItem ih _ _
    · exact ih

/-- The entry of a key is the fold of the elements with the key. -/
theorem lookup_tally (l : List ι) (k : κ) : (tally takes key init step l).lookup k =
    if ∃ i ∈ l, takes i = true ∧
        key i = k then some ((l.filter (fun i => takes i && key i = k)).foldl step init)
    else none := by
  induction l using List.reverseRecOn with
  | nil => simp
  | append_singleton l i ih =>
    rw [tally_concat]
    by_cases htakes : takes i = true
    · rw [if_pos htakes, Dict.lookup_setItem]
      by_cases hk : k = key i
      · subst hk
        have hthere : ∃ j ∈ l ++ [i], takes j = true ∧ key j = key i := ⟨i, by simp, htakes, rfl⟩
        rw [if_pos rfl, if_pos hthere, ih, List.filter_append, List.foldl_append]
        have hlast : [i].filter (fun j => takes j && key j = key i) = [i] := by simp [htakes]
        rw [hlast]
        split
        · rfl
        · rename_i hnone
          have hempty : l.filter (fun j => takes j && key j = key i) = [] := by
            refine List.filter_eq_nil_iff.mpr ?_
            intro j hj hkeep
            obtain ⟨htake, hkey⟩ := Bool.and_eq_true_iff.mp hkeep
            exact hnone ⟨j, hj, htake, of_decide_eq_true hkey⟩
          rw [hempty]
          rfl
      · have hlast : [i].filter (fun j => takes j && key j = k) = [] := by simp [Ne.symm hk]
        rw [if_neg hk, ih, List.filter_append, hlast, List.append_nil]
        refine if_congr ?_ rfl rfl
        grind
    · have hlast : [i].filter (fun j => takes j && key j = k) = [] := by simp [htakes]
      rw [if_neg htakes, ih, List.filter_append, hlast, List.append_nil]
      refine if_congr ?_ rfl rfl
      grind

/-- The keys stand in the order in which they were taken first. -/
theorem tally_ordered (takes : ι → Bool) (key : ι → κ) (init : β) (step : β → ι → β) (l : List ι) :
    ((tally takes key init step l).map Prod.fst).Pairwise
      (fun a b => ((l.filter takes).map key).idxOf a < ((l.filter takes).map key).idxOf b) := by
  induction l using List.reverseRecOn with
  | nil => exact List.Pairwise.nil
  | append_singleton l i ih =>
    have hmem : ∀ k ∈ (tally takes key init step l).map Prod.fst, k ∈ (l.filter takes).map key := by
      intro k hk
      obtain ⟨j, hj, htake, rfl⟩ := (mem_keys_tally l).mp hk
      exact List.mem_map_of_mem (List.mem_filter.mpr ⟨hj, htake⟩)
    -- what came first before still does
    have hold : ((tally takes key init step l).map Prod.fst).Pairwise
        (fun a b => (((l ++ [i]).filter takes).map key).idxOf a <
          (((l ++ [i]).filter takes).map key).idxOf b) := by
      refine (List.pairwise_iff_forall_sublist.mpr ?_)
      intro a b hab
      have hlt := List.pairwise_iff_forall_sublist.mp ih hab
      have ha := hmem a (hab.subset (by simp))
      have hb := hmem b (hab.subset (by simp))
      rw [List.filter_append, List.map_append, List.idxOf_append_of_mem ha,
        List.idxOf_append_of_mem hb]
      exact hlt
    rw [tally_concat]
    split
    · rename_i htake
      unfold Dict.setItem
      split
      · rw [Dict.keys_replace]
        exact hold
      · rename_i hnew
        rw [List.map_append, List.map_singleton]
        refine List.pairwise_append.mpr ⟨hold, List.pairwise_singleton _ _, ?_⟩
        intro a ha b hb
        cases List.mem_singleton.mp hb
        have hb' : key i ∉ (l.filter takes).map key := by
          intro hmem'
          obtain ⟨j, hj, hkey⟩ := List.mem_map.mp hmem'
          obtain ⟨hj, htake'⟩ := List.mem_filter.mp hj
          exact hnew ((mem_keys_tally l).mpr ⟨j, hj, htake', hkey⟩)
        rw [List.filter_append, List.map_append, List.idxOf_append_of_mem (hmem a ha),
          List.idxOf_append_of_notMem hb']
        exact Nat.lt_of_lt_of_le (List.idxOf_lt_length_of_mem (hmem a ha)) (Nat.le_add_right _ _)
    · exact hold

end

/-! ## The best entries -/

section
variable {α κ : Type*} [LinearOrder κ] {key : α → κ}

/-- A stable sort keeps the order of what has the same key. -/
theorem sortedBy_stable {r : α → α → Prop} {l : List α} (hl : l.Pairwise r) :
    (sortedBy key l).Pairwise (fun a b => key a < key b ∨ key a = key b ∧ r a b) := by
  induction l with
  | nil => exact List.Pairwise.nil
  | cons a l ih =>
    obtain ⟨ha, hl⟩ := List.pairwise_cons.mp hl
    obtain ⟨before, after, hcons, hsorted, hbefore⟩ := sortedBy_cons key a l
    have hrest := ih hl
    rw [hsorted] at hrest
    obtain ⟨hb, hafter, hcross⟩ := List.pairwise_append.mp hrest
    have hle := sortedBy_sorted key (a :: l)
    rw [hcons] at hle
    have hfirst := (List.pairwise_cons.mp (List.pairwise_append.mp hle).2.1).1
    rw [hcons]
    refine List.pairwise_append.mpr ⟨hb, List.pairwise_cons.mpr ⟨?_, hafter⟩, ?_⟩
    · intro b hb
      have hmem : b ∈ l := mem_sortedBy.mp (hsorted ▸ List.mem_append_right before hb)
      rcases lt_or_eq_of_le (hfirst b hb) with hlt | heq
      · exact Or.inl hlt
      · exact Or.inr ⟨heq, ha b hmem⟩
    · intro b hb c hc
      rcases List.mem_cons.mp hc with rfl | hc
      · exact Or.inl (hbefore b hb)
      · exact hcross b hb c hc

/-- `sorted(entries, key=lambda e: -score(e))[:n]`. -/
def best (score : α → κ) (n : ℕ) (l : List α) : List α :=
  (sortedBy (fun a => OrderDual.toDual (score a)) l).take n

theorem length_best (score : α → κ) (n : ℕ) (l : List α) :
    (best score n l).length = min n l.length := by
  rw [best, List.length_take, sortedBy, List.length_insertionSort]

theorem best_subset {score : α → κ} {n : ℕ} {l : List α} {a : α} (h : a ∈ best score n l) : a ∈ l :=
  mem_sortedBy.mp (List.mem_of_mem_take h)

theorem sortedBy_toDual_stable {score : α → κ} {r : α → α → Prop} {l : List α} (hl : l.Pairwise r) :
    (sortedBy (fun a => OrderDual.toDual (score a)) l).Pairwise
      (fun a b => score b < score a ∨ score a = score b ∧ r a b) := by
  have hstable : (sortedBy (fun a => OrderDual.toDual (score a)) l).Pairwise (fun a b =>
      OrderDual.toDual (score a) < OrderDual.toDual (score b) ∨
          OrderDual.toDual (score a) = OrderDual.toDual (score b) ∧ r a b) :=
    sortedBy_stable hl
  exact hstable.imp (fun h => h)

/-- They stand in the order of their scores, and where these are the same in their own. -/
theorem best_ordered {score : α → κ} {r : α → α → Prop} {l : List α} (hl : l.Pairwise r) (n : ℕ) :
    (best score n l).Pairwise (fun a b => score b < score a ∨ score a = score b ∧ r a b) :=
  (sortedBy_toDual_stable hl).sublist (List.take_sublist _ _)

/-- An entry is among them exactly where few enough are ahead of it. -/
theorem mem_best_iff {score : α → κ} {r : α → α → Prop} [DecidableRel r] {l : List α}
    (hl : l.Pairwise r) (hasymm : ∀ a b, r a b → ¬ r b a) {a : α} (ha : a ∈ l) (n : ℕ) :
    a ∈ best score n l ↔
      (l.filter (fun b => score a < score b ∨ score b = score a ∧ r b a)).length < n := by
  have hasymm' : ∀ a b, (score b < score a ∨ score a = score b ∧ r a b) →
      ¬ (score a < score b ∨ score b = score a ∧ r b a) := by
    rintro a b (hab | ⟨hab, hr⟩) (hba | ⟨hba, hr'⟩)
    · exact lt_asymm hab hba
    · exact absurd hab (hba ▸ lt_irrefl _)
    · exact absurd hba (hab ▸ lt_irrefl _)
    · exact hasymm a b hr hr'
  have hperm : (sortedBy (fun a => OrderDual.toDual (score a)) l).Perm l :=
    List.perm_insertionSort _ l
  rw [best, mem_take_iff_of_pairwise hasymm' (sortedBy_toDual_stable hl) (mem_sortedBy.mpr ha),
    (hperm.filter _).length_eq]

end

end AgenticPlatform.Foundation
