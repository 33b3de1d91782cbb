import AgenticPlatform.Gates.ContentHash
import AgenticPlatform.Gates.Review

/-!
# The answers of the latest version

What a label is about is the answer of an item in the version that `load` returns. Where a
save puts its version on top, these are the answers it saved; the other names are as they
were.
-/
namespace AgenticPlatform.Gates
open AgenticPlatform.Foundation AgenticPlatform.Identity AgenticPlatform.Db
  AgenticPlatform.Governance

/-- One of the items has this id and this answer. -/
def Answers (items : List EvalItem) (itemId answer : String) : Prop :=
  ∃ item ∈ items, item.id = itemId ∧ item.expectedAnswer = answer

/-- An item has this answer in a version that `load` may return. -/
def Current (t : DatasetTable) (k : LabelKey) (answer : String) : Prop :=
  ∃ r, Latest t k.tenantId k.datasetName r ∧ Answers r.items k.itemId answer

/-- The answers an item has: more than one only where versions share a `created_at`. -/
def currentAnswers (t : DatasetTable) (k : LabelKey) : List String :=
  (t.rows.filter (fun r => Latest t k.tenantId k.datasetName r)).flatMap (fun r =>
    (r.items.filter (fun item => item.id = k.itemId)).map EvalItem.expectedAnswer)

theorem mem_currentAnswers {t : DatasetTable} {k : LabelKey} {answer : String} :
    answer ∈ currentAnswers t k ↔ Current t k answer := by
  simp only [currentAnswers, Current, Answers, List.mem_flatMap, List.mem_filter, List.mem_map,
    decide_eq_true_eq]
  constructor
  · rintro ⟨r, ⟨-, hlatest⟩, item, ⟨hitem, hid⟩, hanswer⟩
    exact ⟨r, hlatest, item, hitem, hid, hanswer⟩
  · rintro ⟨r, hlatest, item, hitem, hid, hanswer⟩
    exact ⟨r, ⟨hlatest.1, hlatest⟩, item, ⟨hitem, hid⟩, hanswer⟩

theorem Current.of_same {t t' : DatasetTable} {k : LabelKey} {answer : String}
    (h : Current t k answer) (hsame : SameVersions t t') : Current t' k answer := by
  obtain ⟨r, hlatest, hanswers⟩ := h
  obtain ⟨r', hlatest', hr⟩ := hsame.latest hlatest
  exact ⟨r', hlatest', hr.items ▸ hanswers⟩

/-- Stored items are stripped. -/
def StoredNormalized (t : DatasetTable) : Prop :=
  ∀ r ∈ t.rows, ∀ item ∈ r.items, item.normalized = item

theorem storedNormalized_save {env : DatasetEnv} {db db' : GoldenDb} {g : SaveStamp}
    {q : SaveRequest} {d : Dataset} (h : StoredNormalized db.datasets)
    (hsave : save env db g q = .ok (db', d)) : StoredNormalized db'.datasets := by
  obtain ⟨built, hbuilt, rfl, -⟩ := save_eq_ok hsave
  rcases save_versions hsave with ⟨-, hsame⟩ | ⟨-, hrows⟩
  · intro r' hr'
    obtain ⟨r, hr, hsr⟩ := hsame.back r' hr'
    rw [← hsr.items]
    exact h r hr
  · intro r hr
    rw [hrows, List.mem_append, List.mem_singleton] at hr
    rcases hr with hr | rfl
    · exact h r hr
    · exact buildDataset_normalized hbuilt

/-- The items a request loads are stripped, and current. -/
theorem current_of_loads {t : DatasetTable} {tenantId : Uuid} {name : String} {d : Dataset}
    (h : StoredNormalized t) (hloads : Loads t tenantId name (some d)) :
    ∀ item ∈ d.items, item.normalized = item ∧
      Current t ⟨tenantId, name, item.id⟩ item.expectedAnswer := by
  obtain ⟨r, hr, hlatest, rfl⟩ := hloads
  intro item hitem
  exact ⟨h r hr item hitem, r, hlatest, item, hitem, rfl, rfl⟩

/-- What is stored of items that were loaded, changed in their answers and saved. -/
theorem items_of_save {env : DatasetEnv} {db db' : GoldenDb} {g : SaveStamp} {q : SaveRequest}
    {saved : Dataset} {items : List EvalItem} (hsave : save env db g q = .ok (db', saved))
    (hitems : q.items = items.map EvalItem.toDict) :
    saved.items = items.map EvalItem.normalized := by
  obtain ⟨built, hbuilt, rfl, -⟩ := save_eq_ok hsave
  exact buildDataset_toDict (hitems ▸ hbuilt)

/-! ## Versions on top -/

instance (env : DatasetEnv) (R : List EvalItem → List EvalItem → Prop) [DecidableRel R]
    (t : DatasetTable) (tenantId : Uuid) (name : String) (items : List EvalItem) :
    Decidable (Shows env R t tenantId name items) :=
  decidable_of_iff ((∃ r ∈ t.rows, Latest t tenantId name r) ∧ ∀ r ∈ t.rows,
      Latest t tenantId name r → r.contentSha256 = contentSha env items ∧ R r.items items) (by
    constructor
    · rintro ⟨⟨r, -, hr⟩, hright⟩
      exact ⟨⟨r, hr⟩, fun x hx => hright x hx.1 hx⟩
    · rintro ⟨⟨r, hr⟩, hright⟩
      exact ⟨⟨r, hr.1, hr⟩, fun x _ hx => hright x hx⟩)

/-- The items are new to the name and come after all its versions, or they are what `load`
returns already. -/
def OnTop (env : DatasetEnv) (t : DatasetTable) (tenantId : Uuid) (name : String) (now : Time)
    (built : List EvalItem) : Prop :=
  (versionOf t tenantId name (contentSha env built) = none ∧
    ∀ r ∈ t.rows, r.isOf tenantId name → r.createdAt < now) ∨
    Shows env List.Perm t tenantId name built

instance (env : DatasetEnv) (t : DatasetTable) (tenantId : Uuid) (name : String) (now : Time)
    (built : List EvalItem) : Decidable (OnTop env t tenantId name now built) :=
  inferInstanceAs (Decidable (_ ∨ _))

theorem shows_of_onTop {env : DatasetEnv} {db db' : GoldenDb} {g : SaveStamp} {q : SaveRequest}
    {d : Dataset} (hsave : save env db g q = .ok (db', d))
    (htop : OnTop env db.datasets q.tenantId q.name g.now d.items) :
    Shows env List.Perm db'.datasets q.tenantId q.name d.items := by
  obtain ⟨built, -, rfl, hsha, -⟩ := save_eq_ok hsave
  rcases save_versions hsave with ⟨⟨r, hr, hof, hrsha⟩, hsame⟩ | ⟨hfresh, hrows⟩
  · rcases htop with ⟨hnone, -⟩ | hshows
    · exact absurd (hrsha.trans hsha) (versionOf_eq_none.mp hnone r hr hof)
    · exact hshows.of_same hsame
  · rcases htop with ⟨-, hlater⟩ | ⟨⟨r, hr⟩, hright⟩
    · exact (shows_new_iff (List.Perm.refl _) hrows ⟨rfl, rfl⟩ hsha hfresh).mpr hlater
    · exact absurd ((hright r hr).1.trans hsha.symm) (hfresh r hr.1 hr.2.1)

/-- The name of the save: its items are the ones `load` returns. -/
theorem current_saved {env : DatasetEnv} {db db' : GoldenDb} {g : SaveStamp} {q : SaveRequest}
    {d : Dataset} (hsave : save env db g q = .ok (db', d))
    (htop : OnTop env db.datasets q.tenantId q.name g.now d.items) {itemId answer : String} :
    Current db'.datasets ⟨q.tenantId, q.name, itemId⟩ answer ↔ Answers d.items itemId answer := by
  obtain ⟨⟨r, hr⟩, hright⟩ := shows_of_onTop hsave htop
  have hsame : ∀ x, Latest db'.datasets q.tenantId q.name x →
      (Answers x.items itemId answer ↔ Answers d.items itemId answer) := by
    intro x hx
    have hperm := (hright x hx).2
    exact exists_congr (fun item => and_congr_left' hperm.mem_iff)
  constructor
  · rintro ⟨x, hx, hanswers⟩
    exact (hsame x hx).mp hanswers
  · intro hanswers
    exact ⟨r, hr, (hsame r hr).mpr hanswers⟩

/-- Another name: nothing changes. -/
theorem current_other {env : DatasetEnv} {db db' : GoldenDb} {g : SaveStamp} {q : SaveRequest}
    {d : Dataset} (hsave : save env db g q = .ok (db', d)) {k : LabelKey}
    (hother : ¬ (q.tenantId = k.tenantId ∧ q.name = k.datasetName)) {answer : String} :
    Current db'.datasets k answer ↔ Current db.datasets k answer := by
  rcases save_versions hsave with ⟨-, hsame⟩ | ⟨-, hrows⟩
  · exact ⟨fun h => h.of_same hsame.symm, fun h => h.of_same hsame⟩
  · exact exists_congr (fun r => and_congr_left' (latest_of_other hrows hother r))

/-- No item has two answers in the versions that `load` may return. -/
def OneAnswer (t : DatasetTable) : Prop := ∀ k a b, Current t k a → Current t k b → a = b

theorem head?_currentAnswers {t : DatasetTable} {k : LabelKey} {answer : String}
    (hone : OneAnswer t) (h : Current t k answer) : (currentAnswers t k).head? = some answer := by
  have hmem := mem_currentAnswers.mpr h
  cases hanswers : currentAnswers t k with
  | nil =>
    rw [hanswers] at hmem
    cases hmem
  | cons a rest =>
    have ha : Current t k a := mem_currentAnswers.mp (hanswers ▸ List.mem_cons_self)
    rw [List.head?_cons, hone k a answer ha h]

theorem oneAnswer_save {env : DatasetEnv} {db db' : GoldenDb} {g : SaveStamp} {q : SaveRequest}
    {d : Dataset} (h : OneAnswer db.datasets) (hsave : save env db g q = .ok (db', d))
    (htop : OnTop env db.datasets q.tenantId q.name g.now d.items) : OneAnswer db'.datasets := by
  obtain ⟨built, hbuilt, rfl, -⟩ := save_eq_ok hsave
  rintro ⟨tenantId, name, itemId⟩ a b ha hb
  by_cases hname : q.tenantId = tenantId ∧ q.name = name
  · obtain ⟨rfl, rfl⟩ := hname
    obtain ⟨x, hx, hxid, rfl⟩ := (current_saved hsave htop).mp ha
    obtain ⟨y, hy, hyid, rfl⟩ := (current_saved hsave htop).mp hb
    -- the ids of a version are distinct
    have hnodup := (buildDataset_accepted hbuilt).2.2
    rw [List.inj_on_of_nodup_map hnodup hx hy (hxid.trans hyid.symm)]
  · exact h _ a b ((current_other hsave hname).mp ha) ((current_other hsave hname).mp hb)

end AgenticPlatform.Gates
