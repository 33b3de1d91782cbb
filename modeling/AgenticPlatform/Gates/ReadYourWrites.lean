import AgenticPlatform.Gates.EvalSystem
import Mathlib.Data.List.Perm.Basic

/-!
# Reading the last save

`load` returns the items of the most recent save as long as every save puts its row on top:
new content does, at a time past every version of the name; the content of the last save
leaves its row on top. Content that the name had before the last save does not: the row
keeps the `created_at` it has, and the version saved in between stays the latest.
-/
namespace AgenticPlatform.Gates
open AgenticPlatform.Foundation AgenticPlatform.Identity AgenticPlatform.Db
  AgenticPlatform.Governance

/-! ## The invariant -/

/-- A version is one row, and only names that were saved have rows. -/
structure VersionInv (s : EvalState) : Prop where
  unique : ∀ a ∈ s.db.datasets.rows, ∀ b ∈ s.db.datasets.rows, ∀ tenantId name,
    a.isOf tenantId name → b.isOf tenantId name → a.contentSha256 = b.contentSha256 → a = b
  named : ∀ r ∈ s.db.datasets.rows, s.saved (r.tenantId, r.name) ≠ none

theorem versionInv_initial : VersionInv .initial := ⟨nofun, nofun⟩

/-- The same version, whatever its collection. -/
structure SameVersion (a b : DatasetRow) : Prop where
  id : a.id = b.id
  isOf : ∀ tenantId name, a.isOf tenantId name ↔ b.isOf tenantId name
  sha : a.contentSha256 = b.contentSha256
  items : a.items = b.items
  createdAt : a.createdAt = b.createdAt

theorem SameVersion.refl (a : DatasetRow) : SameVersion a a :=
  ⟨rfl, fun _ _ => Iff.rfl, rfl, rfl, rfl⟩

theorem SameVersion.symm {a b : DatasetRow} (h : SameVersion a b) : SameVersion b a :=
  ⟨h.id.symm, fun tenantId name => (h.isOf tenantId name).symm, h.sha.symm, h.items.symm,
    h.createdAt.symm⟩

/-- The tables have the same versions. -/
structure SameVersions (t t' : DatasetTable) : Prop where
  forth : ∀ r ∈ t.rows, ∃ r' ∈ t'.rows, SameVersion r r'
  back : ∀ r' ∈ t'.rows, ∃ r ∈ t.rows, SameVersion r r'

theorem SameVersions.symm {t t' : DatasetTable} (h : SameVersions t t') : SameVersions t' t where
  forth r hr := (h.back r hr).imp (fun _ hx => ⟨hx.1, hx.2.symm⟩)
  back r hr := (h.forth r hr).imp (fun _ hx => ⟨hx.1, hx.2.symm⟩)

/-- The ON CONFLICT arm of `save` and nothing else. -/
theorem sameVersions_recollected (t : DatasetTable) (id : Uuid) (collection : String) :
    SameVersions t (t.updateWhere (fun x => x.id = id)
      (fun x => { x with collection := collection }) (fun _ => rfl)) := by
  have hsame : ∀ r : DatasetRow,
      SameVersion r
      (Table.rewrite (fun x => x.id = id) (fun x => { x with collection := collection }) r) := by
    intro r
    unfold Table.rewrite
    split
    · exact ⟨rfl, fun _ _ => Iff.rfl, rfl, rfl, rfl⟩
    · exact .refl r
  constructor
  · intro r hr
    exact ⟨_, List.mem_map_of_mem hr, hsame r⟩
  · intro r' hr'
    obtain ⟨r, hr, rfl⟩ := List.mem_map.mp hr'
    exact ⟨r, hr, hsame r⟩

theorem SameVersions.latest {t t' : DatasetTable} (h : SameVersions t t') {tenantId : Uuid}
    {name : String} {r : DatasetRow} (hr : Latest t tenantId name r) :
    ∃ r', Latest t' tenantId name r' ∧ SameVersion r r' := by
  obtain ⟨hmem, hof, hmax⟩ := hr
  obtain ⟨r', hr', hsame⟩ := h.forth r hmem
  refine ⟨r', ⟨hr', (hsame.isOf tenantId name).mp hof, ?_⟩, hsame⟩
  intro x' hx' hxof
  obtain ⟨x, hx, hxsame⟩ := h.back x' hx'
  rw [← hxsame.createdAt, ← hsame.createdAt]
  exact hmax x hx ((hxsame.isOf tenantId name).mpr hxof)

/-- The row a save inserts. -/
def newVersion (g : SaveStamp) (q : SaveRequest) (d : Dataset) : DatasetRow :=
  ⟨g.datasetId, q.tenantId, q.name, q.collection, d.contentSha256, d.items, d.items.length,
    some q.by_, g.now⟩

/-- What a save does to the versions: nothing, where the content is there, and one more of
them where it is not. -/
theorem save_versions {env : DatasetEnv} {db db' : GoldenDb} {g : SaveStamp} {q : SaveRequest}
    {d : Dataset} (h : save env db g q = .ok (db', d)) :
    ((∃ r ∈ db.datasets.rows, r.isOf q.tenantId q.name ∧ r.contentSha256 = d.contentSha256) ∧
      SameVersions db.datasets db'.datasets) ∨
      (∀ r ∈ db.datasets.rows, r.isOf q.tenantId q.name → r.contentSha256 ≠ d.contentSha256) ∧
      db'.datasets.rows = db.datasets.rows ++ [newVersion g q d] := by
  obtain ⟨built, -, hitems, hsha, hstore, -⟩ := save_eq_ok h
  rw [← hsha, ← hitems] at hstore
  unfold storeVersion at hstore
  split at hstore
  · rename_i r hr
    obtain ⟨hmem, hof, hrsha⟩ := versionOf_eq_some hr
    have htable : _ = db'.datasets := congrArg Prod.fst (Option.some.inj hstore)
    refine Or.inl ⟨⟨r, hmem, hof, hrsha⟩, ?_⟩
    rw [← htable]
    exact sameVersions_recollected db.datasets r.id q.collection
  · rename_i hnone
    obtain ⟨t, hins, he⟩ := Option.map_eq_some_iff.mp hstore
    have htable : t = db'.datasets := congrArg Prod.fst he
    refine Or.inr ⟨versionOf_eq_none.mp hnone, ?_⟩
    rw [← htable]
    exact (Table.tryInsert_eq_some hins).2

/-- What `load` and the scheduler find for a name is the version of these items. -/
structure Shows (env : DatasetEnv) (R : List EvalItem → List EvalItem → Prop) (t : DatasetTable)
    (tenantId : Uuid) (name : String) (items : List EvalItem) : Prop where
  found : ∃ r, Latest t tenantId name r
  right : ∀ r, Latest t tenantId name r → r.contentSha256 = contentSha env items ∧ R r.items items

theorem Shows.of_same {env : DatasetEnv} {R : List EvalItem → List EvalItem → Prop}
    {t t' : DatasetTable} {tenantId : Uuid} {name : String} {items : List EvalItem}
    (h : Shows env R t tenantId name items) (hsame : SameVersions t t') :
    Shows env R t' tenantId name items := by
  obtain ⟨⟨r, hr⟩, hright⟩ := h
  obtain ⟨r', hr', -⟩ := hsame.latest hr
  refine ⟨⟨r', hr'⟩, ?_⟩
  intro x' hx'
  obtain ⟨x, hx, hxsame⟩ := hsame.symm.latest hx'
  rw [hxsame.sha, hxsame.items]
  exact hright x hx

/-- A version of another name changes nothing for this one. -/
theorem latest_of_other {t t' : DatasetTable} {tenantId : Uuid} {name : String} {new : DatasetRow}
    (hrows : t'.rows = t.rows ++ [new]) (hother : ¬ new.isOf tenantId name) (r : DatasetRow) :
    Latest t' tenantId name r ↔ Latest t tenantId name r := by
  unfold Latest
  rw [hrows]
  simp only [List.mem_append, List.mem_singleton]
  constructor
  · rintro ⟨hr | rfl, hof, hmax⟩
    · exact ⟨hr, hof, fun x hx => hmax x (Or.inl hx)⟩
    · exact absurd hof hother
  · rintro ⟨hr, hof, hmax⟩
    refine ⟨Or.inl hr, hof, ?_⟩
    rintro x (hx | rfl) hxof
    · exact hmax x hx hxof
    · exact absurd hxof hother

theorem Shows.of_other {env : DatasetEnv} {R : List EvalItem → List EvalItem → Prop}
    {t t' : DatasetTable} {tenantId : Uuid} {name : String} {items : List EvalItem}
    {new : DatasetRow} (h : Shows env R t tenantId name items) (hrows : t'.rows = t.rows ++ [new])
    (hother : ¬ new.isOf tenantId name) : Shows env R t' tenantId name items := by
  have hlatest := latest_of_other hrows hother
  obtain ⟨⟨r, hr⟩, hright⟩ := h
  exact ⟨⟨r, (hlatest r).mpr hr⟩, fun x hx => hright x ((hlatest x).mp hx)⟩

/-- New content is what is found exactly if it is newer than every other version. -/
theorem shows_new_iff {env : DatasetEnv} {R : List EvalItem → List EvalItem → Prop}
    {t t' : DatasetTable} {tenantId : Uuid} {name : String} {new : DatasetRow}
    (hrefl : R new.items new.items) (hrows : t'.rows = t.rows ++ [new])
    (hof : new.isOf tenantId name) (hsha : new.contentSha256 = contentSha env new.items)
    (hfresh : ∀ r ∈ t.rows, r.isOf tenantId name → r.contentSha256 ≠ new.contentSha256) :
    Shows env R t' tenantId name new.items ↔ ∀ r ∈ t.rows, r.isOf tenantId name →
      r.createdAt < new.createdAt := by
  have hnew : new ∈ t'.rows := hrows ▸ List.mem_append_right _ (List.mem_singleton_self new)
  constructor
  · rintro ⟨-, hright⟩ r hr hrof
    by_contra hlater
    -- then some other version would be found
    obtain ⟨x, hx, hxof, hmax⟩ := exists_latest hr hrof
    have hxmax : ∀ y ∈ t'.rows, y.isOf tenantId name → y.createdAt ≤ x.createdAt := by
      intro y hy hyof
      rw [hrows, List.mem_append, List.mem_singleton] at hy
      rcases hy with hy | rfl
      · exact hmax y hy hyof
      · exact (not_lt.mp hlater).trans (hmax r hr hrof)
    have hxright := hright x ⟨hrows ▸ List.mem_append_left _ hx, hxof, hxmax⟩
    exact hfresh x hx hxof (hxright.1.trans hsha.symm)
  · intro hlater
    have hmax : ∀ y ∈ t'.rows, y.isOf tenantId name → y.createdAt ≤ new.createdAt := by
      intro y hy hyof
      rw [hrows, List.mem_append, List.mem_singleton] at hy
      rcases hy with hy | rfl
      · exact (hlater y hy hyof).le
      · exact le_rfl
    refine ⟨⟨new, hnew, hof, hmax⟩, ?_⟩
    rintro x ⟨hx, hxof, hxmax⟩
    rw [hrows, List.mem_append, List.mem_singleton] at hx
    rcases hx with hx | rfl
    · exact absurd (hxmax new hnew hof) (not_le.mpr (hlater x hx hxof))
    · exact ⟨hsha, hrefl⟩

/-- What the upsert leaves is found to be the items saved: as long as the row of known
content is on top already, and has these items. -/
theorem shows_known_iff {env : DatasetEnv} {R : List EvalItem → List EvalItem → Prop}
    (hR : Equivalence R) {t : DatasetTable} {tenantId : Uuid} {name : String}
    {items built : List EvalItem} (h : Shows env R t tenantId name items) :
    Shows env R t tenantId name built ↔ contentSha env items = contentSha env built ∧
      R items built := by
  obtain ⟨⟨r, hr⟩, hright⟩ := h
  constructor
  · rintro ⟨-, hbuilt⟩
    obtain ⟨hsha, hitems⟩ := hright r hr
    obtain ⟨hsha', hitems'⟩ := hbuilt r hr
    exact ⟨hsha.symm.trans hsha', hR.trans (hR.symm hitems) hitems'⟩
  · rintro ⟨hsha, hitems⟩
    refine ⟨⟨r, hr⟩, ?_⟩
    intro x hx
    obtain ⟨hxsha, hxitems⟩ := hright x hx
    exact ⟨hxsha.trans hsha, hR.trans hxitems hitems⟩

/-! ## The property and the condition -/

/-- `load` without a hash returns the items of the most recent save, in the order the
relation tells apart, with their hash, and the scheduler pins that version. -/
def ReadsLastSave (env : EvalEnv) (R : List EvalItem → List EvalItem → Prop) (s : EvalState) :
    Prop :=
  ∀ tenantId name items, s.saved (tenantId, name) = some items →
    (∀ out, Loads s.db.datasets tenantId name out →
      ∃ d, out = some d ∧ d.contentSha256 = contentSha env.datasets items ∧ R d.items items) ∧
    ∀ p ∈ s.db.policies.rows, p.tenantId = tenantId → p.datasetName = name →
    ∀ out, Pins s.db.datasets p out → ∃ sha, out = some sha ∧
    scheduleInput p sha = scheduleInput p (contentSha env.datasets items)

theorem readsLastSave_iff {env : EvalEnv} {R : List EvalItem → List EvalItem → Prop}
    {s : EvalState} :
    ReadsLastSave env R s ↔ ∀ tenantId name items, s.saved (tenantId, name) = some items →
      Shows env.datasets R s.db.datasets tenantId name items := by
  constructor
  · intro h tenantId name items hsaved
    obtain ⟨hload, -⟩ := h tenantId name items hsaved
    refine ⟨?_, ?_⟩
    · by_contra hnone
      have hno : Loads s.db.datasets tenantId name none := by
        intro r hr hof
        exact hnone (exists_latest hr hof)
      obtain ⟨d, hd, -⟩ := hload none hno
      cases hd
    · intro r hr
      obtain ⟨d, hd, hsha, hitems⟩ := hload (some r.dataset) ⟨r, hr.1, hr, rfl⟩
      cases hd
      exact ⟨hsha, hitems⟩
  · intro h tenantId name items hsaved
    obtain ⟨⟨r₀, hr₀⟩, hright⟩ := h tenantId name items hsaved
    constructor
    · intro out hout
      cases out with
      | none => exact absurd hr₀.2.1 (hout r₀ hr₀.1)
      | some d =>
        obtain ⟨r, -, hr, rfl⟩ := hout
        exact ⟨_, rfl, hright r hr⟩
    · rintro p - rfl rfl out hout
      cases out with
      | none => exact absurd hr₀.2.1 (hout r₀ hr₀.1)
      | some sha =>
        obtain ⟨r, -, hr, rfl⟩ := hout
        exact ⟨_, rfl, by rw [(hright r hr).1]⟩

/-- The items a save stores, if it does. -/
def SaveRequest.stores (env : DatasetEnv) (q : SaveRequest) : Option (List EvalItem) :=
  match buildDataset env q.items with
  | .error _ => none
  | .ok built => if 128 < q.name.length ∨ 128 < q.collection.length then none else some built

/-- A save of new content comes after every version of the name; one of known content is of
what was saved last. -/
def savesOnTop (env : EvalEnv) (R : List EvalItem → List EvalItem → Prop) (s : EvalState) :
    EvalAct → Prop
  | .save g q => ∀ built ∈ q.stores env.datasets,
    (versionOf s.db.datasets q.tenantId q.name (contentSha env.datasets built) = none ∧
      ∀ r ∈ s.db.datasets.rows, r.isOf q.tenantId q.name → r.createdAt < g.now) ∨
    ∃ items ∈ s.saved (q.tenantId, q.name),
    contentSha env.datasets items = contentSha env.datasets built ∧ R items built
  | _ => True

instance (env : EvalEnv) (R : List EvalItem → List EvalItem → Prop) [DecidableRel R] (s : EvalState)
    (a : EvalAct) : Decidable (savesOnTop env R s a) := by
  cases a <;> unfold savesOnTop <;> infer_instance

theorem stores_of_ok {env : DatasetEnv} {db db' : GoldenDb} {g : SaveStamp} {q : SaveRequest}
    {d : Dataset} (h : save env db g q = .ok (db', d)) : q.stores env = some d.items := by
  unfold save at h
  unfold SaveRequest.stores
  cases hbuilt : buildDataset env q.items with
  | error e =>
    rw [hbuilt] at h
    cases h
  | ok built =>
    simp only [hbuilt] at h ⊢
    split at h
    · cases h
    · rename_i hshort
      rw [if_neg hshort]
      split at h
      · cases h
        rfl
      · cases h

theorem stores_of_error {env : DatasetEnv} {db : GoldenDb} {g : SaveStamp} {q : SaveRequest}
    {e : SaveError} (h : save env db g q = .error e) (hne : e ≠ .idTaken) :
    q.stores env = none := by
  unfold save at h
  unfold SaveRequest.stores
  cases hbuilt : buildDataset env q.items with
  | error e => rfl
  | ok built =>
    simp only [hbuilt] at h ⊢
    split at h
    · rename_i hlong
      exact if_pos hlong
    · split at h
      · cases h
      · cases h
        exact absurd rfl hne

/-! ## Steps -/

theorem versionInv_save {env : DatasetEnv} {s : EvalState} {g : SaveStamp} {q : SaveRequest}
    {db' : GoldenDb} {d : Dataset} (h : VersionInv s) (hsave : save env s.db g q = .ok (db', d)) :
    VersionInv { s with
      db := db', saved := Function.update s.saved (q.tenantId, q.name) (some d.items) } := by
  have hnamed : ∀ r : DatasetRow, s.saved (r.tenantId, r.name) ≠ none →
      Function.update s.saved (q.tenantId, q.name) (some d.items) (r.tenantId, r.name) ≠ none := by
    intro r hr
    by_cases he : (r.tenantId, r.name) = (q.tenantId, q.name)
    · rw [he, Function.update_self]
      exact Option.some_ne_none _
    · rwa [Function.update_of_ne he]
  rcases save_versions hsave with ⟨-, hsame⟩ | ⟨hfresh, hrows⟩
  · constructor
    · intro a' ha' b' hb' tenantId name hof hof' hsha
      obtain ⟨a, ha, hsa⟩ := hsame.back a' ha'
      obtain ⟨b, hb, hsb⟩ := hsame.back b' hb'
      have hab :=
        h.unique a ha b hb tenantId name ((hsa.isOf tenantId name).mpr hof)
          ((hsb.isOf tenantId name).mpr hof') (hsa.sha.trans (hsha.trans hsb.sha.symm))
      exact Table.eq_of_key ha' hb' (hsa.id.symm.trans (hab ▸ hsb.id))
    · intro r' hr'
      obtain ⟨r, hr, hsr⟩ := hsame.back r' hr'
      have hof := (hsr.isOf r.tenantId r.name).mp ⟨rfl, rfl⟩
      rw [hof.1, hof.2]
      exact hnamed r (h.named r hr)
  · constructor
    · intro a ha b hb tenantId name hof hof' hsha
      rw [hrows, List.mem_append, List.mem_singleton] at ha hb
      rcases ha with ha | rfl <;> rcases hb with hb | rfl
      · exact h.unique a ha b hb tenantId name hof hof' hsha
      · obtain ⟨rfl, rfl⟩ := hof'
        exact absurd hsha (hfresh a ha hof)
      · obtain ⟨rfl, rfl⟩ := hof
        exact absurd hsha.symm (hfresh b hb hof')
      · rfl
    · intro r hr
      rw [hrows, List.mem_append, List.mem_singleton] at hr
      rcases hr with hr | rfl
      · exact hnamed r (h.named r hr)
      · change Function.update s.saved (q.tenantId, q.name) (some d.items) (q.tenantId, q.name) ≠
          none
        rw [Function.update_self]
        exact Option.some_ne_none _

theorem versionInv_retention {s : EvalState} {now : Time} {days : Nat} {newest : DatasetRow → Uuid}
    (h : VersionInv s) : VersionInv (enforceRetention s now days newest) where
  unique a ha b hb := h.unique a (Table.mem_deleteWhere.mp ha).1 b (Table.mem_deleteWhere.mp hb).1
  named r hr := h.named r (Table.mem_deleteWhere.mp hr).1

/-- A step saves, or is a retention pass, or leaves the datasets alone. -/
theorem evalStep_datasets {env : EvalEnv} {s t : EvalState} {a : EvalAct}
    (h : evalStep env s a = some t) :
    (∃ g q db' d, a = .save g q ∧ save env.datasets s.db g q = .ok (db', d) ∧ t = { s with
      db := db', saved := Function.update s.saved (q.tenantId, q.name) (some d.items) }) ∨
      (∃ now days newest, a = .retention now days newest ∧ Newest s.db.datasets newest ∧
        t = enforceRetention s now days newest) ∨
      t.db = s.db ∧ t.saved = s.saved ∧ ∀ g q, a = .save g q → q.stores env.datasets = none := by
  cases a with
  | save g q =>
    simp only [evalStep] at h
    split at h
    · rename_i db' d hsave
      exact Or.inl ⟨g, q, db', d, rfl, hsave, (Option.some.inj h).symm⟩
    · cases h
    · rename_i e hne hsave
      cases h
      refine Or.inr (Or.inr ⟨rfl, rfl, ?_⟩)
      intro g' q' he
      cases he
      exact stores_of_error hsave (fun he => hne (he ▸ rfl))
  | startEval now runId datasetId codeRev modelId cassetteSha =>
    simp only [evalStep] at h
    split at h
    · split at h
      · obtain ⟨runs, -, rfl⟩ := Option.map_eq_some_iff.mp h
        exact Or.inr (Or.inr ⟨rfl, rfl, fun _ _ h => (by cases h)⟩)
      · cases h
    · cases h
  | finishEval now runId passRate retrievalRecall itemsRun itemsScoreable metrics =>
    cases h
    exact Or.inr (Or.inr ⟨rfl, rfl, fun _ _ h => (by cases h)⟩)
  | load n q =>
    simp only [evalStep] at h
    split at h
    · obtain ⟨candidate, -, rfl⟩ := Option.map_eq_some_iff.mp h
      exact Or.inr (Or.inr ⟨rfl, rfl, fun _ _ h => (by cases h)⟩)
    · cases h
  | judge n =>
    simp only [evalStep] at h
    split at h
    · cases h
      exact Or.inr (Or.inr ⟨rfl, rfl, fun _ _ h => (by cases h)⟩)
    · cases h
  | move n now =>
    simp only [evalStep] at h
    split at h
    · cases h
      exact Or.inr (Or.inr ⟨rfl, rfl, fun _ _ h => (by cases h)⟩)
    · cases h
  | retention now days newest =>
    simp only [evalStep] at h
    split at h
    · rename_i hvalid
      exact Or.inr (Or.inl ⟨now, days, newest, rfl, hvalid.2.2, (Option.some.inj h).symm⟩)
    · cases h

theorem versionInv_step {env : EvalEnv} {s t : EvalState} {a : EvalAct} (h : VersionInv s)
    (hstep : evalStep env s a = some t) : VersionInv t := by
  rcases evalStep_datasets hstep with ⟨g, q, db', d, -, hsave, rfl⟩ |
    ⟨now, days, newest, -, -, rfl⟩ | ⟨hdb, hsaved, -⟩
  · exact versionInv_save h hsave
  · exact versionInv_retention h
  · constructor
    · rw [hdb]
      exact h.unique
    · rw [hdb, hsaved]
      exact h.named

/-- The pass keeps the row that is found: it is the only one that can be the newest. -/
theorem shows_retention {env : DatasetEnv} {R : List EvalItem → List EvalItem → Prop}
    {s : EvalState} {now : Time} {days : Nat} {newest : DatasetRow → Uuid} {tenantId : Uuid}
    {name : String} {items : List EvalItem} (hinv : VersionInv s)
    (hnewest : Newest s.db.datasets newest) (h : Shows env R s.db.datasets tenantId name items) :
    Shows env R (enforceRetention s now days newest).db.datasets tenantId name items := by
  obtain ⟨⟨r, hr⟩, hright⟩ := h
  have hkept : r ∈ (enforceRetention s now days newest).db.datasets.rows := by
    refine Table.mem_deleteWhere.mpr ⟨hr.1, ?_⟩
    rintro ⟨-, -, hid⟩
    obtain ⟨x, hx, hlatest, hxid⟩ := hnewest r hr.1
    rw [hr.2.1.1, hr.2.1.2] at hlatest
    have hsha := (hright r hr).1.trans (hright x hlatest).1.symm
    have hsame := hinv.unique r hr.1 x hx tenantId name hr.2.1 hlatest.2.1 hsha
    exact hid (hsame ▸ hxid)
  refine ⟨⟨r, hkept, hr.2.1, ?_⟩, ?_⟩
  · intro x hx hxof
    exact hr.2.2 x (Table.mem_deleteWhere.mp hx).1 hxof
  · rintro x ⟨hx, hxof, hmax⟩
    refine hright x ⟨(Table.mem_deleteWhere.mp hx).1, hxof, ?_⟩
    intro y hy hyof
    exact (hr.2.2 y hy hyof).trans (hmax r hkept hr.2.1)

/-- What a save shows of the items it stores. -/
theorem shows_save_iff {env : EvalEnv} {R : List EvalItem → List EvalItem → Prop}
    (hR : Equivalence R) {s : EvalState} {g : SaveStamp} {q : SaveRequest} {db' : GoldenDb}
    {d : Dataset} (hinv : VersionInv s)
    (h : ∀ items, s.saved (q.tenantId, q.name) = some items →
      Shows env.datasets R s.db.datasets q.tenantId q.name items)
    (hsave : save env.datasets s.db g q = .ok (db', d)) :
    Shows env.datasets R db'.datasets q.tenantId q.name d.items ↔
      savesOnTop env R s (.save g q) := by
  obtain ⟨built, -, rfl, hsha, -⟩ := save_eq_ok hsave
  have hcond : savesOnTop env R s (.save g q) ↔
      (versionOf s.db.datasets q.tenantId q.name d.contentSha256 = none ∧
        ∀ r ∈ s.db.datasets.rows, r.isOf q.tenantId q.name → r.createdAt < g.now) ∨
      ∃ items ∈ s.saved (q.tenantId, q.name), contentSha env.datasets items = d.contentSha256 ∧
      R items d.items := by
    rw [savesOnTop, stores_of_ok hsave, hsha]
    simp only [Option.mem_def, Option.some.injEq, forall_eq']
  rw [hcond]
  rcases save_versions hsave with ⟨⟨r, hr, hof, hrsha⟩, hsame⟩ | ⟨hfresh, hrows⟩
  · -- the name has rows, so it was saved before
    obtain ⟨items, hitems⟩ := Option.ne_none_iff_exists'.mp (hinv.named r hr)
    rw [hof.1, hof.2] at hitems
    have hknown : Shows env.datasets R s.db.datasets q.tenantId q.name d.items ↔
        contentSha env.datasets items = contentSha env.datasets d.items ∧ R items d.items :=
      shows_known_iff hR (h items hitems)
    have hback : Shows env.datasets R db'.datasets q.tenantId q.name d.items ↔
        Shows env.datasets R s.db.datasets q.tenantId q.name d.items :=
      ⟨fun hs => hs.of_same hsame.symm, fun hs => hs.of_same hsame⟩
    rw [hback, hknown, ← hsha]
    constructor
    · intro hboth
      exact Or.inr ⟨items, hitems, hboth⟩
    · rintro (⟨hnone, -⟩ | ⟨items', hitems', hboth⟩)
      · exact absurd hrsha (versionOf_eq_none.mp hnone r hr hof)
      · cases hitems.symm.trans hitems'
        exact hboth
  · refine (shows_new_iff (hR.refl _) hrows ⟨rfl, rfl⟩ hsha hfresh).trans ?_
    constructor
    · intro hlater
      exact Or.inl ⟨versionOf_eq_none.mpr hfresh, hlater⟩
    · rintro (⟨-, hlater⟩ | ⟨items, hitems, hsame, -⟩)
      · exact hlater
      · obtain ⟨⟨x, hx⟩, hright⟩ := h items hitems
        exact absurd ((hright x hx).1.trans hsame) (hfresh x hx.1 hx.2.1)

theorem readsLastSave_step {env : EvalEnv} {R : List EvalItem → List EvalItem → Prop}
    (hR : Equivalence R) {s t : EvalState} {a : EvalAct} (hinv : VersionInv s)
    (h : ReadsLastSave env R s) (hstep : evalStep env s a = some t) :
    ReadsLastSave env R t ↔ savesOnTop env R s a := by
  rw [readsLastSave_iff] at h ⊢
  rcases evalStep_datasets hstep with ⟨g, q, db', d, rfl, hsave, rfl⟩ |
    ⟨now, days, newest, rfl, hnewest, rfl⟩ | ⟨hdb, hsaved, hnone⟩
  · rw [← shows_save_iff hR hinv (h q.tenantId q.name) hsave]
    constructor
    · intro hall
      exact hall q.tenantId q.name d.items (Function.update_self ..)
    · intro hshows tenantId name items hitems
      rcases update_cases hitems with ⟨hname, hsaved⟩ | ⟨hother, hsaved⟩
      · cases hname
        cases hsaved
        exact hshows
      · -- another name
        have hold := h tenantId name items hsaved
        rcases save_versions hsave with ⟨-, hsame⟩ | ⟨-, hrows⟩
        · exact hold.of_same hsame
        · exact hold.of_other hrows (fun hof => hother (Prod.ext hof.1.symm hof.2.symm))
  · refine iff_of_true ?_ trivial
    intro tenantId name items hitems
    exact shows_retention hinv hnewest (h tenantId name items hitems)
  · refine iff_of_true ?_ ?_
    · rw [hdb, hsaved]
      exact h
    · cases a with
      | save g q =>
        intro built hbuilt
        rw [hnone g q rfl] at hbuilt
        cases hbuilt
      | _ => trivial

theorem readsLastSave_iff_restrict {env : EvalEnv} {R : List EvalItem → List EvalItem → Prop}
    [DecidableRel R] (hR : Equivalence R) {acts : List EvalAct} {s : EvalState}
    (h : Reaches (evalStep env) .initial acts s) :
    Throughout (evalStep env) (ReadsLastSave env R) .initial acts ↔
      Reaches (restrict (savesOnTop env R) (evalStep env)) .initial acts s := by
  have hinv : Throughout (evalStep env) VersionInv .initial acts :=
    Throughout.of_invariant (fun _ _ _ hs ht => versionInv_step hs ht) versionInv_initial acts
  have hstart : ReadsLastSave env R .initial := by
    intro tenantId name items hitems
    cases hitems
  have hkeeps : ∀ m a m', VersionInv m → VersionInv m' → ReadsLastSave env R m →
      evalStep env m a = some m' → (ReadsLastSave env R m' ↔ savesOnTop env R m a) :=
    fun _ _ _ hs _ hP ht => readsLastSave_step hR hs hP ht
  exact Throughout.iff_restrict hkeeps hinv hstart h

/-- Along a run of saves of any names, evaluations, promotions and retention passes, `load`
returns the items of the last save, up to their order or in their order, exactly where each
save puts them on top. -/
theorem load_returns_last_save_iff {env : EvalEnv} {acts : List EvalAct} {s : EvalState}
    (h : Reaches (evalStep env) .initial acts s) :
    (Throughout (evalStep env) (ReadsLastSave env List.Perm) .initial acts ↔
      Reaches (restrict (savesOnTop env List.Perm) (evalStep env)) .initial acts s) ∧
    (Throughout (evalStep env) (ReadsLastSave env Eq) .initial acts ↔
      Reaches (restrict (savesOnTop env Eq) (evalStep env)) .initial acts s) :=
  ⟨readsLastSave_iff_restrict ⟨.refl, .symm, .trans⟩ h,
    readsLastSave_iff_restrict ⟨.refl, .symm, .trans⟩ h⟩

/-- One item, with this answer. -/
def voltageItem (answer : String) : EvalItem := ⟨"q1", "What voltage?", answer, []⟩

/-- SHA-256 on the two versions that are saved here. -/
def voltageSha256 (text : String) : String :=
  if text = Json.dumpsAscii (.arr [.obj (voltageItem "230 V").toDict]) then
    "919a5361370b4209ead4092d5e7b9e404771fe1ac588073b9d3734e7858afd2f"
  else "09248e292207778978e665f752425c1fecd82f014cfbb243ebc3c6046682d894"

def voltageEnv : EvalEnv where
  datasets :=
    { sha256 := voltageSha256
      valueText := fun _ => ""
      reprText := fun text => "'" ++ text ++ "'"
      interval := ⟨21600, sixHours_isInterval⟩
      topK := ⟨5, five_isTopK⟩ }
  gate := { sub := fun a b => a - b, round4 := id, fixed4 := fun _ => "" }

def saveVoltage (now : Time) (id : Uuid) (answer : String) : EvalAct :=
  .save ⟨now, id, id⟩ ⟨7, 3, "safety", "manuals", [(voltageItem answer).toDict]⟩

/-- A version is saved twice and then edited; years later the old one is deleted. -/
def editedOnce : List EvalAct :=
  [saveVoltage 0 1 "230 V", saveVoltage 5 2 "230 V", saveVoltage 10 3 "110 V",
    .retention 100000000 30 (fun _ => 3)]

theorem editedOnce_run :
    (editedOnce.foldlM (restrict (savesOnTop voltageEnv List.Perm) (evalStep voltageEnv))
      .initial).map (fun s => s.db.datasets.rows.map DatasetRow.id) = some [3] := by
  decide +kernel

/-- The result at that run. -/
theorem load_returns_last_save_editedOnce :
    ∃ s, Reaches (evalStep voltageEnv) .initial editedOnce s ∧
      s.db.datasets.rows.map DatasetRow.id = [3] ∧
      Throughout (evalStep voltageEnv) (ReadsLastSave voltageEnv List.Perm) .initial
      editedOnce := by
  obtain ⟨s, hrun, hrows⟩ := Option.map_eq_some_iff.mp editedOnce_run
  have hreach : Reaches (evalStep voltageEnv) .initial editedOnce s := Reaches.of_restrict hrun
  exact ⟨s, hreach, hrows, (load_returns_last_save_iff hreach).1.mpr hrun⟩

/-- The answer is edited and the edit is taken back. -/
def editTakenBack : List EvalAct :=
  [saveVoltage 0 1 "230 V", saveVoltage 10 2 "110 V", saveVoltage 20 3 "230 V"]

/-- The version that the second save stored. -/
def takenBack : Dataset :=
  ⟨2, "safety", "manuals", contentSha voltageEnv.datasets [voltageItem "110 V"],
    [voltageItem "110 V"]⟩

theorem editTakenBack_run :
    (editTakenBack.foldlM (evalStep voltageEnv) .initial).map (fun s =>
      (s.saved (7, "safety"), decide (Loads s.db.datasets 7 "safety" (some takenBack)),
          decide (∃ p ∈ s.db.policies.rows, p.tenantId = 7 ∧ p.datasetName = "safety" ∧
            Pins s.db.datasets p (some takenBack.contentSha256)))) =
          some (some [voltageItem "230 V"], true, true) := by
  decide +kernel

/-- `load` returns the answer that was taken back, and the scheduler pins it. -/
theorem load_returns_superseded_items :
    ∃ s d, Reaches (evalStep voltageEnv) .initial editTakenBack s ∧
      s.saved (7, "safety") = some [voltageItem "230 V"] ∧
      Loads s.db.datasets 7 "safety" (some d) ∧ d.items = [voltageItem "110 V"] ∧
      (∃ p ∈ s.db.policies.rows, p.tenantId = 7 ∧ p.datasetName = "safety" ∧
        Pins s.db.datasets p (some (contentSha voltageEnv.datasets [voltageItem "110 V"]))) ∧
      ¬ ReadsLastSave voltageEnv List.Perm s := by
  obtain ⟨s, hrun, hfacts⟩ := Option.map_eq_some_iff.mp editTakenBack_run
  obtain ⟨hsaved, hversions⟩ := Prod.ext_iff.mp hfacts
  obtain ⟨hloads, hpins⟩ := Prod.ext_iff.mp hversions
  refine ⟨s, takenBack, hrun, hsaved, of_decide_eq_true hloads, rfl, of_decide_eq_true hpins, ?_⟩
  intro hreads
  obtain ⟨d, hd, -, hitems⟩ := (hreads 7 "safety" _ hsaved).1 _ (of_decide_eq_true hloads)
  cases hd
  revert hitems
  decide +kernel

end AgenticPlatform.Gates
