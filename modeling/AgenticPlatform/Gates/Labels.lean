import AgenticPlatform.Foundation.Table
import AgenticPlatform.Identity.Principal
import AgenticPlatform.Settings

/-!
# Review labels

A label is keyed by the name of a dataset and the id of an item, not by a version: it
survives the versions. Three statements write labels: a batch of drafts, the origin of a
batch of items, and the verdict of a reviewer.
-/
namespace AgenticPlatform.Gates
open AgenticPlatform.Foundation AgenticPlatform.Identity

/-! ## The table -/

inductive AnswerSource where
  | empty | llmDrafted | smeEdited | smeAuthored
deriving DecidableEq

def AnswerSource.humanAuthored : AnswerSource → Bool
  | .smeEdited | .smeAuthored => true
  | .empty | .llmDrafted => false

inductive Origin where
  | hand | onboarding | mined
deriving DecidableEq

/-- The columns of the unique constraint. -/
structure LabelKey where
  tenantId : Uuid
  datasetName : String
  itemId : String
deriving DecidableEq

/-- Both names fit their columns. -/
def LabelKey.Fits (k : LabelKey) : Prop := k.datasetName.length ≤ 128 ∧ k.itemId.length ≤ 128

instance (k : LabelKey) : Decidable k.Fits := inferInstanceAs (Decidable (_ ∧ _))

structure LabelRow where
  key : LabelKey
  answerSource : AnswerSource
  annotatorModel : Option String
  annotatedAt : Option Time
  confirmed : Bool
  confirmedBy : Option Uuid
  confirmedAt : Option Time
  requiresKgHop : Bool
  unusableReason : Option String
  origin : Origin
  fits : key.Fits
  /-- A confirmation carries its confirmer. -/
  complete : confirmed = true → confirmedBy.isSome ∧ confirmedAt.isSome
deriving DecidableEq

abbrev LabelTable := Table LabelRow LabelRow.key

/-- The column defaults. -/
def newLabel (k : LabelKey) (h : k.Fits) : LabelRow where
  key := k
  answerSource := .empty
  annotatorModel := none
  annotatedAt := none
  confirmed := false
  confirmedBy := none
  confirmedAt := none
  requiresKgHop := false
  unusableReason := none
  origin := .hand
  fits := h
  complete := nofun

/-- The row an INSERT of a key alone makes; `none` where a name does not fit. -/
def defaultLabel (k : LabelKey) : Option LabelRow :=
  if h : k.Fits then some (newLabel k h) else none

/-- The labels of a dataset name, by item. -/
def forDataset (t : LabelTable) (tenantId : Uuid) (datasetName : String) (itemId : String) :
    Option LabelRow :=
  t.get ⟨tenantId, datasetName, itemId⟩

/-! ## The statements -/

/-- The SET of a draft. -/
def LabelRow.drafted (model : String) (now : Time) (r : LabelRow) : LabelRow :=
  { r with answerSource := .llmDrafted, annotatorModel := some model, annotatedAt := some now }

theorem LabelRow.key_drafted (model : String) (now : Time) (r : LabelRow) :
    (r.drafted model now).key = r.key :=
  rfl

/-- Mark items as machine-drafted, except the ones a human wrote. `none` where the
statement fails. -/
def recordDrafted (t : LabelTable) (tenantId : Uuid) (datasetName : String) (itemIds : List String)
    (model : String) (now : Time) : Option LabelTable :=
  if itemIds = [] then some t
  else
    ((itemIds.map (LabelKey.mk tenantId datasetName)).mapM defaultLabel).bind (fun new =>
      if model.length ≤ 64 then
        some ((t.insertMissing new).updateWhere
          (fun r => r.key ∈ new.map LabelRow.key ∧ r.answerSource.humanAuthored = false)
          (LabelRow.drafted model now) (LabelRow.key_drafted model now))
      else none)

/-- Record where a batch of items came from. -/
def setOrigin (t : LabelTable) (tenantId : Uuid) (datasetName : String) (itemIds : List String)
    (origin : Origin) : Option LabelTable :=
  ((itemIds.map (LabelKey.mk tenantId datasetName)).mapM defaultLabel).map (fun new =>
    (t.insertMissing new).updateWhere (fun r => r.key ∈ new.map LabelRow.key)
      (fun r => { r with origin := origin }) (fun _ => rfl))

/-- What a reviewer says of an item; what is omitted stays as it is. -/
structure Verdict where
  answerEdited : Bool
  confirmed : Option Bool
  requiresKgHop : Option Bool
  unusableReason : Option String
deriving DecidableEq

/-- The SET of a verdict. The confirmer comes and goes with the flag. -/
def LabelRow.judged (by_ : Uuid) (now : Time) (v : Verdict) (r : LabelRow) : LabelRow :=
  { r with
    answerSource := if v.answerEdited then .smeEdited else r.answerSource
    confirmed := v.confirmed.getD r.confirmed
    confirmedBy := (v.confirmed.map (fun c => if c then some by_ else none)).getD r.confirmedBy
    confirmedAt := (v.confirmed.map (fun c => if c then some now else none)).getD r.confirmedAt
    requiresKgHop := v.requiresKgHop.getD r.requiresKgHop
    unusableReason :=
      (v.unusableReason.map (fun reason => if reason = "" then none else some reason)).getD
      r.unusableReason
    complete := by
      rcases v.confirmed with _ | _ | _
      · exact r.complete
      · exact nofun
      · exact fun _ => ⟨rfl, rfl⟩ }

theorem LabelRow.key_judged (by_ : Uuid) (now : Time) (v : Verdict) (r : LabelRow) :
    (r.judged by_ now v).key = r.key :=
  rfl

/-- Record a verdict, with the row RETURNING gives. -/
def setLabel (t : LabelTable) (k : LabelKey) (by_ : Uuid) (now : Time) (v : Verdict) :
    Option (LabelTable × LabelRow) :=
  (defaultLabel k).bind (fun new =>
    let t' :=
      (t.insertMissing [new]).updateWhere (fun r => r.key = k) (LabelRow.judged by_ now v)
        (LabelRow.key_judged by_ now v)
    (t'.get k).map (fun r => (t', r)))

/-! ## What they leave -/

/-- The label of an item says that it is confirmed. -/
def isConfirmed (t : LabelTable) (k : LabelKey) : Bool := (t.get k).any LabelRow.confirmed

/-- The label of an item says that a reviewer edited its answer. -/
def isEdited (t : LabelTable) (k : LabelKey) : Bool :=
  (t.get k).any (fun r => r.answerSource = .smeEdited)

theorem defaultLabel_eq_some {k : LabelKey} {r : LabelRow} :
    defaultLabel k = some r ↔ ∃ h, newLabel k h = r := by
  unfold defaultLabel
  split
  · rename_i hfits
    simp only [Option.some.injEq, hfits, exists_true_left]
  · rename_i hlong
    simp only [reduceCtorEq, hlong, IsEmpty.exists_iff]

/-- A row with the defaults neither confirms nor claims anything. -/
theorem any_or_find {t : LabelTable} {new : List LabelRow} {p : LabelRow → Bool} (k : LabelKey)
    (hnew : ∀ r ∈ new, p r = false) : ((t.insertMissing new).get k).any p = (t.get k).any p := by
  rw [Table.get_insertMissing]
  cases hg : t.get k with
  | some r => rfl
  | none =>
    rw [Option.none_or]
    cases hf : new.find? (fun a => a.key = k) with
    | none => rfl
    | some r => exact hnew r (List.mem_of_find?_eq_some hf)

theorem mem_defaults {ks : List LabelKey} {new : List LabelRow}
    (h : ks.mapM defaultLabel = some new) :
    ∀ r ∈ new, r.confirmed = false ∧ r.answerSource = .empty := by
  intro r hr
  induction ks generalizing new with
  | nil =>
    cases h
    cases hr
  | cons k ks ih =>
    simp only [List.mapM_cons, Option.bind_eq_bind, Option.bind_eq_some_iff, Option.pure_def,
      Option.some.injEq] at h
    obtain ⟨b, hb, rest, hrest, rfl⟩ := h
    rcases List.mem_cons.mp hr with rfl | hr
    · obtain ⟨hfits, rfl⟩ := defaultLabel_eq_some.mp hb
      exact ⟨rfl, rfl⟩
    · exact ih hrest hr

/-- Neither a draft nor the row it is put into changes a flag that a draft does not. -/
theorem any_recordDrafted {t t' : LabelTable} {tenantId : Uuid} {datasetName : String}
    {itemIds : List String} {model : String} {now : Time}
    (h : recordDrafted t tenantId datasetName itemIds model now = some t') {p : LabelRow → Bool}
    (hnew : ∀ r : LabelRow, r.confirmed = false → r.answerSource = .empty → p r = false)
    (hdrafted : ∀ r : LabelRow, r.answerSource.humanAuthored = false →
      p (r.drafted model now) = p r)
    (k : LabelKey) : (t'.get k).any p = (t.get k).any p := by
  unfold recordDrafted at h
  split at h
  · cases h
    rfl
  · obtain ⟨new, hmap, h⟩ := Option.bind_eq_some_iff.mp h
    split at h
    · cases h
      have hdefaults := mem_defaults hmap
      have hkept :=
        any_or_find (t := t) k (fun r hr => hnew r (hdefaults r hr).1 (hdefaults r hr).2)
      rw [Table.get_updateWhere, ← hkept]
      cases (t.insertMissing new).get k with
      | none => rfl
      | some r =>
        simp only [Option.map_some, Option.any_some, Table.rewrite]
        split
        · rename_i hhit
          exact hdrafted r hhit.2
        · rfl
    · cases h

theorem isConfirmed_recordDrafted {t t' : LabelTable} {tenantId : Uuid} {datasetName : String}
    {itemIds : List String} {model : String} {now : Time}
    (h : recordDrafted t tenantId datasetName itemIds model now = some t') (k : LabelKey) :
    isConfirmed t' k = isConfirmed t k :=
  any_recordDrafted h (fun _ hconfirmed _ => hconfirmed) (fun _ _ => rfl) k

theorem isEdited_recordDrafted {t t' : LabelTable} {tenantId : Uuid} {datasetName : String}
    {itemIds : List String} {model : String} {now : Time}
    (h : recordDrafted t tenantId datasetName itemIds model now = some t') (k : LabelKey) :
    isEdited t' k = isEdited t k := by
  refine any_recordDrafted h ?_ ?_ k
  · intro r _ hsource
    rw [hsource]
    rfl
  · intro r hmachine
    cases hsource : r.answerSource <;> rw [hsource] at hmachine <;> first | rfl | cases hmachine

/-- A verdict on another item leaves the label of this one; a verdict on this one sets what
it says. -/
theorem get_setLabel {t t' : LabelTable} {k : LabelKey} {by_ : Uuid} {now : Time} {v : Verdict}
    {r : LabelRow} (h : setLabel t k by_ now v = some (t', r)) :
    (∀ k', k' ≠ k → t'.get k' = t.get k') ∧
      ∃ hfits, t'.get k = some (((t.get k).getD (newLabel k hfits)).judged by_ now v) := by
  obtain ⟨new, hnew, h⟩ := Option.bind_eq_some_iff.mp h
  obtain ⟨hfits, rfl⟩ := defaultLabel_eq_some.mp hnew
  obtain ⟨r', -, hpair⟩ := Option.map_eq_some_iff.mp h
  cases hpair
  constructor
  · intro k' hne
    have hfind : [newLabel k hfits].find? (fun a => a.key = k') = none := by
      rw [List.find?_cons_of_neg (fun he => hne (of_decide_eq_true he).symm), List.find?_nil]
    rw [Table.get_updateWhere, Table.get_insertMissing, hfind, Option.or_none]
    cases hg : t.get k' with
    | none => rfl
    | some a =>
      rw [Option.map_some, Table.rewrite, if_neg ((Table.get_eq_some.mp hg).2 ▸ hne)]
  · refine ⟨hfits, ?_⟩
    have hfind : [newLabel k hfits].find? (fun a => a.key = k) = some (newLabel k hfits) :=
      List.find?_cons_of_pos (decide_eq_true rfl)
    rw [Table.get_updateWhere, Table.get_insertMissing, hfind]
    cases hg : t.get k with
    | none =>
      have hkey : (newLabel k hfits).key = k := rfl
      rw [Option.none_or, Option.map_some, Option.getD_none, Table.rewrite, if_pos hkey]
    | some a =>
      rw [Option.some_or, Option.map_some, Option.getD_some, Table.rewrite,
        if_pos (Table.get_eq_some.mp hg).2]

theorem isConfirmed_setLabel {t t' : LabelTable} {k : LabelKey} {by_ : Uuid} {now : Time}
    {v : Verdict} {r : LabelRow} (h : setLabel t k by_ now v = some (t', r)) (k' : LabelKey) :
    isConfirmed t' k' = if k' = k then v.confirmed.getD (isConfirmed t k)
      else isConfirmed t k' := by
  obtain ⟨hother, hfits, hown⟩ := get_setLabel h
  split
  · subst k'
    rw [isConfirmed, isConfirmed, hown, Option.any_some, LabelRow.judged]
    cases t.get k <;> rfl
  · rw [isConfirmed, isConfirmed, hother k' ‹_›]

theorem isEdited_setLabel {t t' : LabelTable} {k : LabelKey} {by_ : Uuid} {now : Time} {v : Verdict}
    {r : LabelRow} (h : setLabel t k by_ now v = some (t', r)) (k' : LabelKey) :
    isEdited t' k' = if k' = k ∧ v.answerEdited = true then true else isEdited t k' := by
  obtain ⟨hother, hfits, hown⟩ := get_setLabel h
  by_cases hk : k' = k
  · subst k'
    rw [isEdited, isEdited, hown, Option.any_some, LabelRow.judged]
    cases v.answerEdited <;> cases t.get k <;> simp [newLabel]
  · rw [if_neg (fun hboth => hk hboth.1), isEdited, isEdited, hother k' hk]

/-- What does not fit has no label. -/
theorem isConfirmed_of_not_fits {t : LabelTable} {k : LabelKey} (h : ¬ k.Fits) :
    isConfirmed t k = false ∧ isEdited t k = false := by
  cases hg : t.get k with
  | none => simp [isConfirmed, isEdited, hg]
  | some r => exact absurd ((Table.get_eq_some.mp hg).2 ▸ r.fits) h

/-- A verdict is refused only where the names do not fit. -/
theorem setLabel_eq_none {t : LabelTable} {k : LabelKey} {by_ : Uuid} {now : Time} {v : Verdict}
    (h : setLabel t k by_ now v = none) : ¬ k.Fits := by
  intro hfits
  have hnew : defaultLabel k = some (newLabel k hfits) := dif_pos hfits
  simp only [setLabel, hnew, Option.bind_some, Option.map_eq_none_iff, Table.get_eq_none,
    Table.keys_updateWhere] at h
  exact h (Table.key_insertMissing (List.mem_singleton_self (newLabel k hfits)))

end AgenticPlatform.Gates
