import Mathlib.Data.List.Nodup

/-!
# Dictionaries

A dictionary is a list of entries with distinct keys, in the order they came in. Setting
an item replaces it where it stands, or appends it. Two lists of the same entries are read
alike whatever their order.
-/
namespace AgenticPlatform.Foundation.Dict

variable {κ α β : Type*} [DecidableEq κ]

/-- `d[key] = value`. -/
def setItem (l : List (κ × α)) (key : κ) (value : α) : List (κ × α) :=
  if key ∈ l.map Prod.fst then l.map (fun f => if f.1 = key then (key, value) else f)
  else l ++ [(key, value)]

/-- `d.update(other)`. -/
def update (l other : List (κ × α)) : List (κ × α) := other.foldl (fun l f => setItem l f.1 f.2) l

variable {l l' : List (κ × α)} {key k : κ} {value v : α}

/-! ## Setting an item -/

theorem keys_replace (l : List (κ × α)) (key : κ) (value : α) :
    (l.map (fun f => if f.1 = key then (key, value) else f)).map Prod.fst = l.map Prod.fst := by
  rw [List.map_map]
  refine List.map_congr_left (fun f _ => ?_)
  by_cases h : f.1 = key <;> simp [h]

theorem mem_keys_setItem :
    k ∈ (setItem l key value).map Prod.fst ↔ k ∈ l.map Prod.fst ∨ k = key := by
  unfold setItem
  split
  · rename_i hmem
    rw [keys_replace, iff_self_or]
    rintro rfl
    exact hmem
  · rw [List.map_append, List.mem_append, List.map_singleton, List.mem_singleton]

theorem setItem_map (f : α → β) (l : List (κ × α)) (key : κ) (value : α) :
    setItem (l.map (fun e => (e.1, f e.2))) key (f value) =
      (setItem l key value).map (fun e => (e.1, f e.2)) := by
  have hkeys : (l.map (fun e => (e.1, f e.2))).map Prod.fst = l.map Prod.fst := by
    rw [List.map_map]; rfl
  unfold setItem
  rw [hkeys]
  split
  · rw [List.map_map, List.map_map]
    refine List.map_congr_left (fun e _ => ?_)
    by_cases h : e.1 = key <;> simp [h]
  · rw [List.map_append, List.map_singleton]

theorem nodup_setItem (h : (l.map Prod.fst).Nodup) (key : κ) (value : α) :
    ((setItem l key value).map Prod.fst).Nodup := by
  unfold setItem
  split
  · rw [keys_replace]
    exact h
  · rw [List.map_append, List.map_singleton]
    exact List.nodup_append.mpr ⟨h, List.nodup_singleton key, by
      intro a ha b hb hab
      have hkey : a = key := hab.trans (List.mem_singleton.mp hb)
      exact absurd (hkey ▸ ha) ‹_›⟩

theorem lookup_replace (hk : k ≠ key) (l : List (κ × α)) :
    (l.map (fun f => if f.1 = key then (key, value) else f)).lookup k = l.lookup k := by
  induction l with
  | nil => rfl
  | cons f l ih =>
    rw [List.map_cons]
    by_cases hf : f.1 = key
    · have hfk : ¬ k = f.1 := fun h => hk (h.trans hf)
      have hbeq : (k == key) = false := beq_eq_false_iff_ne.mpr hk
      have hbeqf : (k == f.1) = false := beq_eq_false_iff_ne.mpr hfk
      rw [if_pos hf, List.lookup_cons, List.lookup_cons, ih, hbeq, hbeqf]
    · rw [if_neg hf, List.lookup_cons, List.lookup_cons, ih]

@[simp] theorem lookup_setItem (l : List (κ × α)) (key k : κ) (value : α) :
    (setItem l key value).lookup k = if k = key then some value else l.lookup k := by
  unfold setItem
  by_cases hk : k = key
  · subst hk
    rw [if_pos rfl]
    split
    · rename_i hmem
      induction l with
      | nil => cases hmem
      | cons f l ih =>
        rw [List.map_cons]
        by_cases hf : f.1 = k
        · rw [if_pos hf, List.lookup_cons_self]
        · rw [if_neg hf, List.lookup_cons]
          have hne : ¬ k = f.1 := fun h => hf h.symm
          have hbeq : (k == f.1) = false := beq_eq_false_iff_ne.mpr hne
          rw [hbeq]
          exact ih ((List.mem_cons.mp hmem).resolve_left hne)
    · rename_i hnot
      have hnone : l.lookup k = none := List.lookup_eq_none_iff.mpr (by
        intro f hf
        have hne : k ≠ f.1 := by
          rintro rfl
          exact hnot (List.mem_map_of_mem hf)
        exact bne_iff_ne.mpr hne)
      rw [List.lookup_append, hnone, Option.none_or, List.lookup_cons_self]
  · rw [if_neg hk]
    split
    · exact lookup_replace hk l
    · have hbeq : (k == key) = false := beq_eq_false_iff_ne.mpr hk
      rw [List.lookup_append, List.lookup_cons, hbeq, List.lookup_nil, Option.or_none]

/-- The last value that is set is the one that stays. -/
theorem setItem_setItem (l : List (κ × α)) (key : κ) (value value' : α) :
    setItem (setItem l key value) key value' = setItem l key value' := by
  have hmem : key ∈ (setItem l key value).map Prod.fst := mem_keys_setItem.mpr (Or.inr rfl)
  refine (if_pos hmem).trans ?_
  unfold setItem
  split
  · rw [List.map_map]
    refine List.map_congr_left (fun e _ => ?_)
    by_cases he : e.1 = key <;> simp [he]
  · rename_i hnot
    have hold : l.map (fun e => if e.1 = key then (key, value') else e) = l := by
      refine (List.map_congr_left (fun e he => ?_)).trans (List.map_id l)
      have hne : e.1 ≠ key := fun hsame => hnot (hsame ▸ List.mem_map_of_mem he)
      exact if_neg hne
    rw [List.map_append, List.map_singleton, if_pos rfl, hold]

/-! ## Reading -/

theorem lookup_eq_some_iff_mem (h : (l.map Prod.fst).Nodup) : l.lookup k = some v ↔ (k, v) ∈ l := by
  induction l with
  | nil => simp
  | cons f l ih =>
    obtain ⟨hf, hl⟩ := List.nodup_cons.mp h
    rw [List.lookup_cons, List.mem_cons]
    by_cases hk : k = f.1
    · subst hk
      have hnot : (f.1, v) ∉ l := fun hmem => hf (List.mem_map.mpr ⟨(f.1, v), hmem, rfl⟩)
      simp [Prod.ext_iff, hnot, eq_comm]
    · have hne : (k, v) ≠ f := fun he => hk (congrArg Prod.fst he)
      have hbeq : (k == f.1) = false := beq_eq_false_iff_ne.mpr hk
      rw [hbeq]
      simp only [hne, false_or]
      exact ih hl

theorem lookup_eq_none : l.lookup k = none ↔ k ∉ l.map Prod.fst := by
  rw [List.lookup_eq_none_iff]
  constructor
  · rintro h hk
    obtain ⟨f, hf, rfl⟩ := List.mem_map.mp hk
    exact bne_iff_ne.mp (h f hf) rfl
  · intro h f hf
    have hne : k ≠ f.1 := by
      rintro rfl
      exact h (List.mem_map_of_mem hf)
    exact bne_iff_ne.mpr hne

/-- Where entries are dropped by their keys, the others are read as before. -/
theorem lookup_filter (keep : κ → Bool) (l : List (κ × α)) (k : κ) :
    (l.filter (fun f => keep f.1)).lookup k = if keep k then l.lookup k else none := by
  induction l with
  | nil => simp
  | cons f l ih =>
    rw [List.filter_cons, List.lookup_cons]
    by_cases hk : k = f.1
    · subst hk
      rw [beq_self_eq_true]
      split
      · rw [List.lookup_cons_self]
      · rename_i hdrop
        rw [ih, if_neg hdrop]
    · have hbeq : (k == f.1) = false := beq_eq_false_iff_ne.mpr hk
      rw [hbeq]
      split
      · rw [List.lookup_cons, hbeq, ih]
      · rw [ih]

/-- The order of the entries makes no difference. -/
theorem lookup_perm (hperm : l.Perm l') (h : (l.map Prod.fst).Nodup) (k : κ) :
    l.lookup k = l'.lookup k := by
  have h' : (l'.map Prod.fst).Nodup := (hperm.map Prod.fst).nodup_iff.mp h
  refine Option.ext (fun v => ?_)
  rw [lookup_eq_some_iff_mem h, lookup_eq_some_iff_mem h', hperm.mem_iff]

/-- An update prefers the new entries. -/
theorem lookup_update {other : List (κ × α)} (h : (other.map Prod.fst).Nodup)
    (l : List (κ × α)) (k : κ) : (update l other).lookup k = (other.lookup k).or (l.lookup k) := by
  induction other generalizing l with
  | nil => rfl
  | cons f other ih =>
    obtain ⟨hf, hother⟩ := List.nodup_cons.mp h
    change (update (setItem l f.1 f.2) other).lookup k = _
    rw [ih hother, lookup_setItem, List.lookup_cons]
    by_cases hk : k = f.1
    · subst hk
      rw [lookup_eq_none.mpr hf]
      simp
    · have hbeq : (k == f.1) = false := beq_eq_false_iff_ne.mpr hk
      rw [if_neg hk, hbeq]

theorem mem_keys_update {other : List (κ × α)} :
    k ∈ (update l other).map Prod.fst ↔ k ∈ l.map Prod.fst ∨ k ∈ other.map Prod.fst := by
  induction other generalizing l with
  | nil => simp [update]
  | cons f other ih =>
    change k ∈ (update (setItem l f.1 f.2) other).map Prod.fst ↔ _
    rw [ih, mem_keys_setItem, List.map_cons, List.mem_cons, or_assoc]

theorem nodup_update (h : (l.map Prod.fst).Nodup) (other : List (κ × α)) :
    ((update l other).map Prod.fst).Nodup := by
  induction other generalizing l with
  | nil => exact h
  | cons f other ih => exact ih (nodup_setItem h f.1 f.2)

/-- Every entry of an update comes from one of the two. -/
theorem mem_of_lookup_update {other : List (κ × α)} (h : (update l other).lookup k = some v) :
    (k, v) ∈ other ∨ l.lookup k = some v := by
  induction other generalizing l with
  | nil => exact Or.inr h
  | cons f other ih =>
    rcases ih h with hmem | hold
    · exact Or.inl (List.mem_cons_of_mem f hmem)
    · rw [lookup_setItem] at hold
      by_cases hk : k = f.1
      · subst hk
        rw [if_pos rfl] at hold
        cases hold
        exact Or.inl List.mem_cons_self
      · rw [if_neg hk] at hold
        exact Or.inr hold

/-- Of many updates the last one with the key decides. -/
theorem lookup_updates {others : List (List (κ × α))} (h : ∀ o ∈ others, (o.map Prod.fst).Nodup)
    (l : List (κ × α)) (k : κ) :
    (others.foldl update l).lookup k =
      (others.reverse.findSome? (fun o => o.lookup k)).or (l.lookup k) := by
  induction others generalizing l with
  | nil => rfl
  | cons o others ih =>
    obtain ⟨ho, hothers⟩ := List.forall_mem_cons.mp h
    rw [List.foldl_cons, ih hothers, lookup_update ho, List.reverse_cons, List.findSome?_append,
      Option.or_assoc]
    cases hk : o.lookup k <;> simp [hk]

end AgenticPlatform.Foundation.Dict
