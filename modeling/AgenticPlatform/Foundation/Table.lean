import Mathlib.Data.List.Nodup

/-!
# Relations with a primary key

A table is a list of rows whose keys are pairwise distinct, so a row is found by
its key in at most one place. The statements below are the ones a program issues
against such a relation: insert a row under a fresh key, or only where the key is
free, rewrite rows in place without touching a key, with or without a WHERE clause,
delete rows, and read a row back.
-/
namespace AgenticPlatform.Foundation

/-- Rows in insertion order, no two of them under one key. -/
structure Table (α : Type*) {κ : Type*} (key : α → κ) where
  rows : List α
  nodup : (rows.map key).Nodup

namespace Table

variable {α κ : Type*} {key : α → κ}

def empty : Table α key := ⟨[], List.nodup_nil⟩

def keys (t : Table α key) : List κ := t.rows.map key

/-- Insert rows whose keys are new and pairwise distinct. -/
def insertAll (t : Table α key) (new : List α) (h : ((t.rows ++ new).map key).Nodup) :
    Table α key :=
  ⟨t.rows ++ new, h⟩

theorem nodup_append_of_fresh (t : Table α key) (a : α) (h : key a ∉ t.keys) :
    ((t.rows ++ [a]).map key).Nodup := by
  rw [List.map_append, List.map_singleton]
  refine List.nodup_append.mpr ⟨t.nodup, List.nodup_singleton _, ?_⟩
  intro x hx y hy hxy
  rw [List.mem_singleton] at hy
  exact h (hy ▸ hxy ▸ hx)

def insert (t : Table α key) (a : α) (h : key a ∉ t.keys) : Table α key :=
  t.insertAll [a] (nodup_append_of_fresh t a h)

/-- Rewrite every row by a function that keeps its key. -/
def update (t : Table α key) (f : α → α) (hf : ∀ a, key (f a) = key a) : Table α key :=
  ⟨t.rows.map f, by
    have h : (t.rows.map f).map key = t.rows.map key := by
      simp only [List.map_map, Function.comp_def, hf]
    rw [h]
    exact t.nodup⟩

/-- `ALTER TABLE … ADD COLUMN`: the rows with more in them, under the same keys. -/
def addColumns {β : Type*} {key' : β → κ} (t : Table α key) (f : α → β)
    (hf : ∀ a, key' (f a) = key a) : Table β key' :=
  ⟨t.rows.map f, by
    have h : (t.rows.map f).map key' = t.rows.map key := by
      simp only [List.map_map, Function.comp_def, hf]
    rw [h]
    exact t.nodup⟩

theorem mem_empty {a : α} : ¬ a ∈ (empty : Table α key).rows := List.not_mem_nil

theorem mem_insertAll {t : Table α key} {new : List α} {h} {a : α} :
    a ∈ (t.insertAll new h).rows ↔ a ∈ t.rows ∨ a ∈ new := List.mem_append

theorem mem_insert {t : Table α key} {b : α} {h} {a : α} :
    a ∈ (t.insert b h).rows ↔ a ∈ t.rows ∨ a = b := by
  rw [insert, mem_insertAll, List.mem_singleton]

theorem mem_update {t : Table α key} {f : α → α} {hf} {a : α} :
    a ∈ (t.update f hf).rows ↔ ∃ b ∈ t.rows, f b = a := List.mem_map

@[simp] theorem keys_update (t : Table α key) (f : α → α) (hf) : (t.update f hf).keys = t.keys := by
  simp only [keys, update, List.map_map, Function.comp_def, hf]

theorem mem_keys {t : Table α key} {k : κ} : k ∈ t.keys ↔ ∃ a ∈ t.rows, key a = k := List.mem_map

theorem key_mem_keys {t : Table α key} {a : α} (h : a ∈ t.rows) : key a ∈ t.keys :=
  List.mem_map_of_mem h

/-- The key determines the row. -/
theorem eq_of_key {t : Table α key} {a b : α} (ha : a ∈ t.rows) (hb : b ∈ t.rows)
    (h : key a = key b) : a = b :=
  List.inj_on_of_nodup_map t.nodup ha hb h

/-- The row function of `UPDATE … SET f WHERE p`. -/
def rewrite (p : α → Prop) [DecidablePred p] (f : α → α) (a : α) : α := if p a then f a else a

theorem key_rewrite {p : α → Prop} [DecidablePred p] {f : α → α} (hf : ∀ a, key (f a) = key a)
    (a : α) : key (rewrite p f a) = key a := by
  unfold rewrite
  split
  · exact hf a
  · rfl

/-- `UPDATE … SET f WHERE p`. -/
def updateWhere (t : Table α key) (p : α → Prop) [DecidablePred p] (f : α → α)
    (hf : ∀ a, key (f a) = key a) : Table α key :=
  t.update (rewrite p f) (key_rewrite hf)

@[simp] theorem keys_updateWhere (t : Table α key) (p : α → Prop) [DecidablePred p] (f : α → α)
    (hf : ∀ a, key (f a) = key a) : (t.updateWhere p f hf).keys = t.keys := keys_update t _ _

theorem mem_updateWhere {t : Table α key} {p : α → Prop} [DecidablePred p] {f : α → α}
    (hf : ∀ a, key (f a) = key a) {b : α} (hb : b ∈ (t.updateWhere p f hf).rows) :
    (b ∈ t.rows ∧ ¬ p b) ∨ ∃ a ∈ t.rows, p a ∧ b = f a := by
  obtain ⟨a, ha, rfl⟩ := mem_update.mp hb
  unfold rewrite
  split
  · exact Or.inr ⟨a, ha, ‹p a›, rfl⟩
  · exact Or.inl ⟨ha, ‹¬ p a›⟩

/-- Every row is there as the update leaves it. -/
theorem rewrite_mem_updateWhere {t : Table α key} {p : α → Prop} [DecidablePred p] {f : α → α}
    (hf : ∀ a, key (f a) = key a) {a : α} (h : a ∈ t.rows) :
    rewrite p f a ∈ (t.updateWhere p f hf).rows :=
  List.mem_map_of_mem h

theorem mem_updateWhere_of_neg {t : Table α key} {p : α → Prop} [DecidablePred p] {f : α → α}
    (hf : ∀ a, key (f a) = key a) {a : α} (h : a ∈ t.rows) (hp : ¬ p a) :
    a ∈ (t.updateWhere p f hf).rows :=
  mem_update.mpr ⟨a, h, if_neg hp⟩

/-- An update whose WHERE clause matches no row changes nothing. -/
theorem updateWhere_of_none {t : Table α key} {p : α → Prop} [DecidablePred p] {f : α → α}
    (hf : ∀ a, key (f a) = key a) (h : ∀ a ∈ t.rows, ¬ p a) : t.updateWhere p f hf = t := by
  have hmap : t.rows.map (rewrite p f) = t.rows := by
    refine (List.map_congr_left ?_).trans (List.map_id t.rows)
    intro a ha
    exact if_neg (h a ha)
  obtain ⟨rows, nodup⟩ := t
  simp only [updateWhere, update, mk.injEq]
  exact hmap

/-- Two WHERE clauses that select the same rows. -/
theorem updateWhere_congr {t : Table α key} {p q : α → Prop} [DecidablePred p] [DecidablePred q]
    {f : α → α} (hf : ∀ a, key (f a) = key a) (h : ∀ a ∈ t.rows, p a ↔ q a) :
    t.updateWhere p f hf = t.updateWhere q f hf := by
  have hmap : t.rows.map (rewrite p f) = t.rows.map (rewrite q f) := by
    refine List.map_congr_left ?_
    intro a ha
    exact if_congr (h a ha) rfl rfl
  simp only [updateWhere, update, mk.injEq]
  exact hmap

/-- `DELETE … WHERE p`. -/
def deleteWhere (t : Table α key) (p : α → Prop) [DecidablePred p] : Table α key :=
  ⟨t.rows.filter (fun a => ¬ p a), t.nodup.sublist (List.filter_sublist.map key)⟩

theorem mem_deleteWhere {t : Table α key} {p : α → Prop} [DecidablePred p] {a : α} :
    a ∈ (t.deleteWhere p).rows ↔ a ∈ t.rows ∧ ¬ p a := by
  rw [deleteWhere, List.mem_filter, decide_eq_true_eq]

variable [DecidableEq κ]

/-- The row stored under a key. -/
def get (t : Table α key) (k : κ) : Option α := t.rows.find? (fun a => key a = k)

theorem get_eq_some {t : Table α key} {k : κ} {a : α} :
    t.get k = some a ↔ a ∈ t.rows ∧ key a = k := by
  constructor
  · intro h
    exact ⟨List.mem_of_find?_eq_some h, by simpa using List.find?_some h⟩
  · rintro ⟨ha, rfl⟩
    cases hg : t.rows.find? (fun b => key b = key a) with
    | none =>
      have := List.find?_eq_none.mp hg a ha
      simp at this
    | some b =>
      have hb := List.mem_of_find?_eq_some hg
      have hk : key b = key a := by simpa using List.find?_some hg
      rw [get, hg, eq_of_key hb ha hk]

theorem get_self {t : Table α key} {a : α} (h : a ∈ t.rows) : t.get (key a) = some a :=
  get_eq_some.mpr ⟨h, rfl⟩

theorem get_eq_none {t : Table α key} {k : κ} : t.get k = none ↔ k ∉ t.keys := by
  rw [get, List.find?_eq_none, mem_keys]
  constructor
  · rintro h ⟨a, ha, hk⟩
    exact absurd hk (by simpa using h a ha)
  · intro h a ha
    simpa using fun hk => h ⟨a, ha, hk⟩

theorem get_update (t : Table α key) (f : α → α) (hf) (k : κ) :
    (t.update f hf).get k = (t.get k).map f := by
  cases hg : t.get k with
  | none =>
    rw [get_eq_none] at hg
    rw [Option.map_none, get_eq_none, keys_update]
    exact hg
  | some a =>
    obtain ⟨ha, hk⟩ := get_eq_some.mp hg
    rw [Option.map_some, get_eq_some]
    exact ⟨mem_update.mpr ⟨a, ha, rfl⟩, (hf a).trans hk⟩

/-- Insert a row; `none` where its key is taken. -/
def tryInsert (t : Table α key) (a : α) : Option (Table α key) :=
  if h : key a ∉ t.keys then some (t.insert a h) else none

theorem tryInsert_eq_some {t t' : Table α key} {a : α} (h : t.tryInsert a = some t') :
    key a ∉ t.keys ∧ t'.rows = t.rows ++ [a] := by
  unfold tryInsert at h
  split at h
  · cases h
    exact ⟨‹_›, rfl⟩
  · cases h

/-- Insert several rows at once; `none` where a key is taken or given twice. -/
def tryInsertAll (t : Table α key) (new : List α) : Option (Table α key) :=
  if h : ((t.rows ++ new).map key).Nodup then some (t.insertAll new h) else none

theorem tryInsertAll_eq_some {t t' : Table α key} {new : List α}
    (h : t.tryInsertAll new = some t') : t'.rows = t.rows ++ new := by
  unfold tryInsertAll at h
  split at h
  · cases h
    rfl
  · cases h

/-- `INSERT … ON CONFLICT DO NOTHING`, row by row. -/
def insertMissing (t : Table α key) (new : List α) : Table α key :=
  new.foldl (fun t a => (t.tryInsert a).getD t) t

theorem tryInsert_getD (t : Table α key) (a : α) :
    ((t.tryInsert a).getD t).rows = if key a ∈ t.keys then t.rows else t.rows ++ [a] := by
  unfold tryInsert
  by_cases h : key a ∈ t.keys <;> simp [h, insert, insertAll]

theorem mem_of_insertMissing {t : Table α key} {new : List α} {a : α}
    (h : a ∈ (t.insertMissing new).rows) : a ∈ t.rows ∨ a ∈ new := by
  induction new generalizing t with
  | nil => exact Or.inl h
  | cons b new ih =>
    rcases ih h with hold | hnew
    · rw [tryInsert_getD] at hold
      split at hold
      · exact Or.inl hold
      · rcases List.mem_append.mp hold with hold | hb
        · exact Or.inl hold
        · exact Or.inr (List.mem_cons.mpr (Or.inl (List.mem_singleton.mp hb)))
    · exact Or.inr (List.mem_cons_of_mem b hnew)

theorem mem_insertMissing {t : Table α key} (new : List α) {a : α} (h : a ∈ t.rows) :
    a ∈ (t.insertMissing new).rows := by
  induction new generalizing t with
  | nil => exact h
  | cons b new ih =>
    apply ih
    rw [tryInsert_getD]
    split
    · exact h
    · exact List.mem_append_left _ h

/-- Rows whose keys are new and distinct are all inserted. -/
theorem insertMissing_of_fresh {t : Table α key} {new : List α}
    (h : ((t.rows ++ new).map key).Nodup) : (t.insertMissing new).rows = t.rows ++ new := by
  induction new generalizing t with
  | nil => exact (List.append_nil t.rows).symm
  | cons b new ih =>
    have hfresh : key b ∉ t.keys := by
      intro hb
      rw [List.map_append, List.nodup_append] at h
      exact h.2.2 (key b) hb (key b) List.mem_cons_self rfl
    have hrows : ((t.tryInsert b).getD t).rows = t.rows ++ [b] := by
      rw [tryInsert_getD, if_neg hfresh]
    have hrest : ((((t.tryInsert b).getD t).rows ++ new).map key).Nodup := by
      rw [hrows, List.append_assoc]
      exact h
    refine (ih hrest).trans ?_
    rw [hrows, List.append_assoc]
    rfl

/-- Rows outside a selection leave it as it is. -/
theorem filter_insertMissing {t : Table α key} {new : List α} {p : α → Bool}
    (h : ∀ a ∈ new, p a = false) : (t.insertMissing new).rows.filter p = t.rows.filter p := by
  induction new generalizing t with
  | nil => rfl
  | cons b new ih =>
    have hb := h b List.mem_cons_self
    refine (ih (fun a ha => h a (List.mem_cons_of_mem b ha))).trans ?_
    rw [tryInsert_getD]
    split
    · rfl
    · simp [hb]

/-- Afterwards every key is there. -/
theorem key_insertMissing {t : Table α key} {new : List α} {a : α} (h : a ∈ new) :
    key a ∈ (t.insertMissing new).keys := by
  induction new generalizing t with
  | nil => cases h
  | cons b new ih =>
    rcases List.mem_cons.mp h with rfl | h
    · have hthere : key a ∈ ((t.tryInsert a).getD t).keys := by
        rw [keys, tryInsert_getD]
        split
        · assumption
        · simp
      obtain ⟨c, hc, hkey⟩ := mem_keys.mp hthere
      exact mem_keys.mpr ⟨c, mem_insertMissing new hc, hkey⟩
    · exact ih h

theorem get_insert_of_mem {t : Table α key} {b : α} {h} {k : κ} {a : α} (hg : t.get k = some a) :
    (t.insert b h).get k = some a := by
  obtain ⟨ha, hk⟩ := get_eq_some.mp hg
  exact get_eq_some.mpr ⟨mem_insert.mpr (Or.inl ha), hk⟩

theorem get_insert (t : Table α key) (b : α) (h : key b ∉ t.keys) (k : κ) :
    (t.insert b h).get k = if key b = k then some b else t.get k := by
  split
  · exact get_eq_some.mpr ⟨mem_insert.mpr (Or.inr rfl), ‹_›⟩
  · cases hg : t.get k with
    | some a => exact get_insert_of_mem hg
    | none =>
      rw [get_eq_none] at hg ⊢
      intro hk
      obtain ⟨a, ha, rfl⟩ := mem_keys.mp hk
      rcases mem_insert.mp ha with ha | rfl
      · exact hg (key_mem_keys ha)
      · exact absurd rfl ‹_›

theorem get_tryInsert_getD (t : Table α key) (b : α) (k : κ) :
    ((t.tryInsert b).getD t).get k = (t.get k).or (if key b = k then some b else none) := by
  unfold tryInsert
  split
  · rename_i hfresh
    rw [Option.getD_some, get_insert]
    split
    · rename_i hk
      rw [get_eq_none.mpr (hk ▸ hfresh), Option.none_or]
    · rw [Option.or_none]
  · rename_i hthere
    rw [Option.getD_none]
    split
    · rename_i hk
      obtain ⟨a, ha⟩ :=
        Option.ne_none_iff_exists'.mp (fun hnone => hthere (hk ▸ get_eq_none.mp hnone))
      rw [ha, Option.some_or]
    · rw [Option.or_none]

/-- The row that was there, or the first of the new ones. -/
theorem get_insertMissing (t : Table α key) (new : List α) (k : κ) :
    (t.insertMissing new).get k = (t.get k).or (new.find? (fun a => key a = k)) := by
  induction new generalizing t with
  | nil => rw [List.find?_nil, Option.or_none]; rfl
  | cons b new ih =>
    have hcons : (b :: new).find? (fun a => key a = k) =
        (if key b = k then some b else none).or (new.find? (fun a => key a = k)) := by
      rw [List.find?_cons]
      by_cases hk : key b = k <;> simp [hk]
    rw [hcons, ← Option.or_assoc, ← get_tryInsert_getD]
    exact ih ((t.tryInsert b).getD t)

theorem get_deleteWhere (t : Table α key) (p : α → Prop) [DecidablePred p] (k : κ) :
    (t.deleteWhere p).get k = (t.get k).filter (fun a => ¬ p a) := by
  cases hg : ((t.get k).filter (fun a => ¬ p a)) with
  | some a =>
    rw [Option.filter_eq_some_iff, get_eq_some, decide_eq_true_eq] at hg
    exact get_eq_some.mpr ⟨mem_deleteWhere.mpr ⟨hg.1.1, hg.2⟩, hg.1.2⟩
  | none =>
    rw [get_eq_none]
    intro hk
    obtain ⟨a, ha, rfl⟩ := mem_keys.mp hk
    obtain ⟨hmem, hp⟩ := mem_deleteWhere.mp ha
    rw [get_self hmem, Option.filter_some_pos (by simpa using hp)] at hg
    cases hg

theorem get_updateWhere (t : Table α key) (p : α → Prop) [DecidablePred p] (f : α → α)
    (hf : ∀ a, key (f a) = key a) (k : κ) :
    (t.updateWhere p f hf).get k = (t.get k).map (rewrite p f) := get_update t _ _ k

/-- `UPDATE … SET f WHERE key = k AND p RETURNING *`: the rewritten row, if one matched. -/
def updateKey (t : Table α key) (k : κ) (p : α → Prop) [DecidablePred p] (f : α → α)
    (hf : ∀ a, key (f a) = key a) : Table α key × Option α :=
  (t.updateWhere (fun a => key a = k ∧ p a) f hf, ((t.get k).filter (fun a => p a)).map f)

theorem updateKey_eq_some (t : Table α key) {k : κ} {p : α → Prop} [DecidablePred p] {f : α → α}
    (hf : ∀ a, key (f a) = key a) {b : α} :
    (t.updateKey k p f hf).2 = some b ↔ ∃ a ∈ t.rows, key a = k ∧ p a ∧ f a = b := by
  simp only [updateKey, Option.map_eq_some_iff, Option.filter_eq_some_iff, get_eq_some,
    decide_eq_true_eq, and_assoc]

/-- A conditional update that returns nothing changes nothing. -/
theorem updateKey_of_none {t : Table α key} {k : κ} {p : α → Prop} [DecidablePred p] {f : α → α}
    {hf : ∀ a, key (f a) = key a} (h : (t.updateKey k p f hf).2 = none) :
    (t.updateKey k p f hf).1 = t := by
  refine updateWhere_of_none hf ?_
  rintro a ha ⟨hk, hp⟩
  have hs : (t.updateKey k p f hf).2 = some (f a) :=
    (t.updateKey_eq_some hf).mpr ⟨a, ha, hk, hp, rfl⟩
  rw [h] at hs
  cases hs

/-- The relation as a transaction sees it that has written rows of its own, the newest
version of a row first. -/
def overlay (t : Table α key) (own : List α) : Table α key :=
  t.update (fun a => (own.find? (fun b => key b = key a)).getD a) (by
    intro a
    cases hfind : own.find? (fun b => key b = key a) with
    | none => rfl
    | some b => simpa using List.find?_some hfind)

@[simp] theorem keys_overlay (t : Table α key) (own : List α) : (t.overlay own).keys = t.keys :=
  keys_update t _ _

/-- A row the transaction sees is its own, or one it has not written. -/
theorem mem_overlay {t : Table α key} {own : List α} {a : α} (h : a ∈ (t.overlay own).rows) :
    (a ∈ own ∧ key a ∈ t.keys) ∨ a ∈ t.rows ∧ key a ∉ own.map key := by
  obtain ⟨b, hb, rfl⟩ := mem_update.mp h
  cases hfind : own.find? (fun c => key c = key b) with
  | none =>
    refine Or.inr ⟨hb, ?_⟩
    intro hmem
    obtain ⟨c, hc, hkey⟩ := List.mem_map.mp hmem
    exact List.find?_eq_none.mp hfind c hc (by simpa using hkey)
  | some c =>
    have hkey : key c = key b := by simpa using List.find?_some hfind
    exact Or.inl ⟨List.mem_of_find?_eq_some hfind, hkey ▸ key_mem_keys hb⟩

theorem mem_overlay_of_not_mem {t : Table α key} {own : List α} {a : α} (h : a ∈ t.rows)
    (hown : key a ∉ own.map key) : a ∈ (t.overlay own).rows := by
  refine mem_update.mpr ⟨a, h, ?_⟩
  have hfind : own.find? (fun b => key b = key a) = none := by
    refine List.find?_eq_none.mpr ?_
    intro b hb hkey
    exact hown (List.mem_map.mpr ⟨b, hb, by simpa using hkey⟩)
  rw [hfind]
  rfl

theorem get_overlay (t : Table α key) (own : List α) (k : κ) :
    (t.overlay own).get k = (t.get k).map (fun a => (own.find? (fun b => key b = k)).getD a) := by
  rw [overlay, get_update]
  cases hg : t.get k with
  | none => rfl
  | some a =>
    obtain ⟨-, rfl⟩ := get_eq_some.mp hg
    rfl

end Table
end AgenticPlatform.Foundation
