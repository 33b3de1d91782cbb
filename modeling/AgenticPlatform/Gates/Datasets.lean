import AgenticPlatform.Foundation.JsonAscii
import AgenticPlatform.Foundation.StableSort
import AgenticPlatform.Foundation.Text
import AgenticPlatform.Governance.ContinuousEval
import AgenticPlatform.Onboarding.Store
import Mathlib.Data.List.MinMax

/-!
# Golden sets

A dataset is a name and the hash of its items. `save` validates the items, inserts a row
for content the name has not had, and touches nothing but the collection of the row where
it has had it. "Latest" is the row with the greatest `created_at`, for `load` as for the
scheduler and for the retention pass; rows that share it may be returned in any order.
-/
namespace AgenticPlatform.Gates
open AgenticPlatform.Foundation AgenticPlatform.Identity AgenticPlatform.Db
  AgenticPlatform.Governance
open AgenticPlatform.Onboarding (falsy)

/-! ## Items -/

structure EvalItem where
  id : String
  question : String
  expectedAnswer : String
  mustCite : List String
deriving DecidableEq

/-- An object of the request body. -/
abbrev RawItem := List (String × Json)

def EvalItem.toDict (item : EvalItem) : RawItem :=
  [("id", .str item.id), ("question", .str item.question),
    ("expected_answer", .str item.expectedAnswer),
    ("must_cite", .arr (item.mustCite.map Json.str))]

structure DatasetEnv where
  /-- The hexadecimal SHA-256 of an ASCII text. -/
  sha256 : String → String
  /-- `str(value)` of a value that is not a string. -/
  valueText : Json → String
  /-- `repr` of a string. -/
  reprText : String → String
  /-- `continuous_eval_interval_seconds`. -/
  interval : IntervalSeconds
  /-- `continuous_eval_default_top_k`. -/
  topK : TopK

/-- The order of the items does not matter. -/
def contentSha (env : DatasetEnv) (items : List EvalItem) : String :=
  env.sha256 (Json.dumpsAscii
    (.arr ((sortedBy EvalItem.id items).map (fun item => .obj item.toDict))))

/-! ## Validation -/

inductive BuildError where
  | invalidDataset (message : String)
  /-- `must_cite` is a value that cannot be iterated. -/
  | typeError
deriving DecidableEq

def stringOf (env : DatasetEnv) : Json → String
  | .str text => text
  | value => env.valueText value

/-- `str(raw.get(name) or "").strip()`. -/
def textField (env : DatasetEnv) (raw : RawItem) (name : String) : String :=
  strip ((((raw.lookup name).filter (fun value => !falsy value)).map (stringOf env)).getD "")

/-- `[str(c) for c in (raw.get("must_cite") or [])]`. -/
def citations (env : DatasetEnv) (raw : RawItem) : Except BuildError (List String) :=
  match (raw.lookup "must_cite").filter (fun value => !falsy value) with
  | none => .ok []
  | some (.arr items) => .ok (items.map (stringOf env))
  | some (.str text) => .ok (text.toList.map String.singleton)
  | some (.obj fields) => .ok (fields.map Prod.fst)
  | some _ => .error .typeError

def hexDigits : List Char := "0123456789abcdef".toList

/-- `^c_[0-9a-f]{6,32}$`, where `$` also matches before a newline at the end. -/
def canonicalId (c : String) : Bool :=
  match c.toList with
  | 'c' :: '_' :: rest =>
    let digits := if rest.getLast? = some '\n' then rest.dropLast else rest
    6 ≤ digits.length && digits.length ≤ 32 && digits.all (fun d => d ∈ hexDigits)
  | _ => false

/-- `repr` of a list of strings. -/
def reprList (env : DatasetEnv) (texts : List String) : String :=
  "[" ++ String.intercalate ", " (texts.map env.reprText) ++ "]"

def badCitations (env : DatasetEnv) (id : String) (bad : List String) : String :=
  "item " ++ env.reprText id ++ " cites " ++ reprList env bad ++
    ", which are not canonical chunk ids " ++
    "(c_<hex>). A citation the retriever cannot emit scores a permanent " ++
    "miss and makes the metric mean something other than it appears to."

def buildItem (env : DatasetEnv) (seen : List String) (raw : RawItem) :
    Except BuildError EvalItem :=
  let id := textField env raw "id"
  if id = "" then .error
    (.invalidDataset "every item needs a stable id to be comparable across runs")
  else if id ∈ seen then .error (.invalidDataset ("duplicate item id " ++ env.reprText id))
  else
    let question := textField env raw "question"
    if question = "" then .error
      (.invalidDataset ("item " ++ env.reprText id ++ " has no question"))
    else do
      let mustCite ← citations env raw
      let bad := mustCite.filter (fun c => !canonicalId c)
      if bad ≠ [] then .error (.invalidDataset (badCitations env id bad))
      else .ok ⟨id, question, textField env raw "expected_answer", mustCite⟩

/-- The loop, with the ids met so far. -/
def buildItems (env : DatasetEnv) (seen : List String) :
    List RawItem → Except BuildError (List EvalItem)
  | [] => .ok []
  | raw :: rest => do
    let item ← buildItem env seen raw
    let items ← buildItems env (item.id :: seen) rest
    .ok (item :: items)

def buildDataset (env : DatasetEnv) (items : List RawItem) : Except BuildError (List EvalItem) :=
  if items = [] then .error (.invalidDataset "a dataset with no items cannot gate anything")
  else buildItems env [] items

/-! ## The table -/

structure DatasetRow where
  id : Uuid
  tenantId : Uuid
  name : String
  collection : String
  contentSha256 : String
  items : List EvalItem
  itemCount : Nat
  createdBy : Option Uuid
  createdAt : Time
deriving DecidableEq

abbrev DatasetTable := Table DatasetRow DatasetRow.id

/-- A version of the dataset of this name. -/
def DatasetRow.isOf (r : DatasetRow) (tenantId : Uuid) (name : String) : Prop :=
  r.tenantId = tenantId ∧ r.name = name

instance (r : DatasetRow) (tenantId : Uuid) (name : String) : Decidable (r.isOf tenantId name) :=
  inferInstanceAs (Decidable (_ ∧ _))

/-- The row the unique index on (tenant_id, name, content_sha256) finds. -/
def versionOf (t : DatasetTable) (tenantId : Uuid) (name sha : String) : Option DatasetRow :=
  t.rows.find? (fun r => r.isOf tenantId name ∧ r.contentSha256 = sha)

/-- ORDER BY created_at DESC LIMIT 1 may return this row. -/
def Latest (t : DatasetTable) (tenantId : Uuid) (name : String) (r : DatasetRow) : Prop :=
  r ∈ t.rows ∧ r.isOf tenantId name ∧ ∀ r' ∈ t.rows, r'.isOf tenantId name →
    r'.createdAt ≤ r.createdAt

instance (t : DatasetTable) (tenantId : Uuid) (name : String) (r : DatasetRow) :
    Decidable (Latest t tenantId name r) :=
  inferInstanceAs (Decidable (_ ∧ _ ∧ _))

structure Dataset where
  id : Uuid
  name : String
  collection : String
  contentSha256 : String
  items : List EvalItem
deriving DecidableEq

def DatasetRow.dataset (r : DatasetRow) : Dataset :=
  ⟨r.id, r.name, r.collection, r.contentSha256, r.items⟩

/-- What `load` may return where no hash is given. -/
def Loads (t : DatasetTable) (tenantId : Uuid) (name : String) : Option Dataset → Prop
  | none => ∀ r ∈ t.rows, ¬ r.isOf tenantId name
  | some d => ∃ r ∈ t.rows, Latest t tenantId name r ∧ r.dataset = d

instance (t : DatasetTable) (tenantId : Uuid) (name : String) (out : Option Dataset) :
    Decidable (Loads t tenantId name out) :=
  match out with
  | none => inferInstanceAs (Decidable (∀ r ∈ t.rows, ¬ r.isOf tenantId name))
  | some d => inferInstanceAs (Decidable (∃ r ∈ t.rows, Latest t tenantId name r ∧ r.dataset = d))

/-- The hash the scheduler may pin for a policy; `none` where it backs off. -/
def Pins (t : DatasetTable) (p : PolicyRow) : Option String → Prop
  | none => ∀ r ∈ t.rows, ¬ r.isOf p.tenantId p.datasetName
  | some sha => ∃ r ∈ t.rows, Latest t p.tenantId p.datasetName r ∧ r.contentSha256 = sha

instance (t : DatasetTable) (p : PolicyRow) (out : Option String) : Decidable (Pins t p out) :=
  match out with
  | none => inferInstanceAs (Decidable (∀ r ∈ t.rows, ¬ r.isOf p.tenantId p.datasetName))
  | some sha => inferInstanceAs
    (Decidable (∃ r ∈ t.rows, Latest t p.tenantId p.datasetName r ∧ r.contentSha256 = sha))

/-! ## Saving -/

/-- The upsert of the version, with the id RETURNING gives. `none` only where the generated
id is taken. -/
def storeVersion (t : DatasetTable) (now : Time) (newId tenantId by_ : Uuid)
    (name collection sha : String) (built : List EvalItem) : Option (DatasetTable × Uuid) :=
  match versionOf t tenantId name sha with
  | some r => some (t.updateWhere (fun x => x.id = r.id)
    (fun x => { x with collection := collection }) (fun _ => rfl), r.id)
  | none =>
    (t.tryInsert ⟨newId, tenantId, name, collection, sha, built, built.length, some by_, now⟩).map
      (fun t' => (t', newId))

structure SaveRequest where
  tenantId : Uuid
  by_ : Uuid
  name : String
  collection : String
  items : List RawItem

/-- What the server generates for a save: the start of its transaction and the ids. -/
structure SaveStamp where
  now : Time
  datasetId : Uuid
  policyId : Uuid
deriving DecidableEq

inductive SaveError where
  | build (error : BuildError)
  /-- A text longer than its column. -/
  | tooLong
  | idTaken
deriving DecidableEq

/-- The tables a save writes. -/
structure GoldenDb where
  datasets : DatasetTable
  policies : PolicyTable

def GoldenDb.empty : GoldenDb := ⟨Table.empty, Table.empty⟩

/-- Store a version; nothing is written where it fails. -/
def save (env : DatasetEnv) (db : GoldenDb) (g : SaveStamp) (q : SaveRequest) :
    Except SaveError (GoldenDb × Dataset) :=
  match buildDataset env q.items with
  | .error e => .error (.build e)
  | .ok built =>
    if 128 < q.name.length ∨ 128 < q.collection.length then .error .tooLong
    else
      let sha := contentSha env built
      match storeVersion db.datasets g.now g.datasetId q.tenantId
          q.by_ q.name q.collection sha built,
          savePolicy db.policies g.now g.policyId q.tenantId q.name env.interval env.topK q.by_ with
      | some (datasets, id), some policies =>
        .ok (⟨datasets, policies⟩, ⟨id, q.name, q.collection, sha, built⟩)
      | _, _ => .error .idTaken

/-! ## What these say -/

theorem versionOf_eq_some {t : DatasetTable} {tenantId : Uuid} {name sha : String} {r : DatasetRow}
    (h : versionOf t tenantId name sha = some r) :
    r ∈ t.rows ∧ r.isOf tenantId name ∧ r.contentSha256 = sha := by
  have hp := List.find?_some h
  simp only [decide_eq_true_eq] at hp
  exact ⟨List.mem_of_find?_eq_some h, hp⟩

theorem versionOf_eq_none {t : DatasetTable} {tenantId : Uuid} {name sha : String} :
    versionOf t tenantId name sha = none ↔ ∀ r ∈ t.rows, r.isOf tenantId name →
      r.contentSha256 ≠ sha := by
  simp only [versionOf, List.find?_eq_none, decide_eq_true_eq, not_and]

/-- Some row of the name is the latest, if there is one at all. -/
theorem exists_latest {t : DatasetTable} {tenantId : Uuid} {name : String} {r : DatasetRow}
    (hr : r ∈ t.rows) (hof : r.isOf tenantId name) : ∃ r', Latest t tenantId name r' := by
  have hmem : r ∈ t.rows.filter (fun x => x.isOf tenantId name) :=
    List.mem_filter.mpr ⟨hr, decide_eq_true hof⟩
  cases hmax : (t.rows.filter (fun x => x.isOf tenantId name)).argmax DatasetRow.createdAt with
  | none =>
    rw [List.argmax_eq_none.mp hmax] at hmem
    exact absurd hmem List.not_mem_nil
  | some r' =>
    obtain ⟨hr', hof'⟩ := List.mem_filter.mp (List.argmax_mem hmax)
    refine ⟨r', hr', of_decide_eq_true hof', ?_⟩
    intro x hx hxof
    exact List.le_of_mem_argmax (List.mem_filter.mpr ⟨hx, decide_eq_true hxof⟩) hmax

/-! ## Stored items -/

/-- What `build_dataset` makes of an item that is stored again. -/
def EvalItem.normalized (item : EvalItem) : EvalItem :=
  { item with
    id := strip item.id, question := strip item.question,
    expectedAnswer := strip item.expectedAnswer }

@[simp] theorem EvalItem.id_normalized (item : EvalItem) : item.normalized.id = strip item.id := rfl

@[simp] theorem EvalItem.expectedAnswer_normalized (item : EvalItem) :
    item.normalized.expectedAnswer = strip item.expectedAnswer := rfl

theorem EvalItem.normalized_normalized (item : EvalItem) :
    item.normalized.normalized = item.normalized := by
  simp only [EvalItem.normalized, strip_strip]

/-- A text field of an object that has a text there. -/
theorem textField_of_str {env : DatasetEnv} {raw : RawItem} {name text : String}
    (h : raw.lookup name = some (.str text)) : textField env raw name = strip text := by
  unfold textField
  rw [h]
  by_cases hempty : text = ""
  · subst text
    rfl
  · simp [Option.filter, falsy, hempty, stringOf]

theorem citations_toDict (env : DatasetEnv) (item : EvalItem) :
    citations env item.toDict = .ok item.mustCite := by
  have hlookup : item.toDict.lookup "must_cite" = some (.arr (item.mustCite.map Json.str)) := rfl
  unfold citations
  rw [hlookup]
  cases hcite : item.mustCite with
  | nil => rfl
  | cons c rest =>
    simp only [List.map_cons, Option.filter, falsy, List.isEmpty_cons, Bool.not_false, if_true,
      stringOf, List.map_map, Function.comp_def, List.map_id']

theorem buildItem_toDict {env : DatasetEnv} {seen : List String} {item built : EvalItem}
    (h : buildItem env seen item.toDict = .ok built) : built = item.normalized := by
  have hid : textField env item.toDict "id" = strip item.id := textField_of_str rfl
  have hquestion : textField env item.toDict "question" = strip item.question :=
    textField_of_str rfl
  have hanswer : textField env item.toDict "expected_answer" = strip item.expectedAnswer :=
    textField_of_str rfl
  simp only [buildItem, hid, hquestion, hanswer, citations_toDict] at h
  split at h
  · cases h
  · split at h
    · cases h
    · split at h
      · cases h
      · simp only [Except.bind, bind] at h
        split at h
        · cases h
        · cases h
          rfl

/-- Items that are stored again are stored normalized. -/
theorem buildItems_toDict {env : DatasetEnv} {seen : List String} {items built : List EvalItem}
    (h : buildItems env seen (items.map EvalItem.toDict) = .ok built) :
    built = items.map EvalItem.normalized := by
  induction items generalizing seen built with
  | nil =>
    cases h
    rfl
  | cons item items ih =>
    simp only [List.map_cons, buildItems] at h
    cases hitem : buildItem env seen item.toDict with
    | error e =>
      rw [hitem] at h
      cases h
    | ok first =>
      rw [hitem] at h
      simp only [Except.bind, bind] at h
      split at h
      · cases h
      · rename_i rest hrest
        cases h
        rw [List.map_cons, buildItem_toDict hitem, ih hrest]

/-- What is stored is normalized. -/
theorem buildItem_normalized {env : DatasetEnv} {seen : List String} {raw : RawItem}
    {built : EvalItem} (h : buildItem env seen raw = .ok built) : built.normalized = built := by
  have hfield : ∀ name, strip (textField env raw name) = textField env raw name :=
    fun _ => strip_strip _
  simp only [buildItem] at h
  split at h
  · cases h
  · split at h
    · cases h
    · split at h
      · cases h
      · simp only [Except.bind, bind] at h
        split at h
        · cases h
        · split at h
          · cases h
          · cases h
            simp only [EvalItem.normalized, hfield]

theorem buildItems_normalized {env : DatasetEnv} {seen : List String} {raws : List RawItem}
    {built : List EvalItem} (h : buildItems env seen raws = .ok built) :
    ∀ item ∈ built, item.normalized = item := by
  induction raws generalizing seen built with
  | nil =>
    cases h
    exact fun _ hmem => absurd hmem List.not_mem_nil
  | cons raw raws ih =>
    simp only [buildItems] at h
    cases hitem : buildItem env seen raw with
    | error e =>
      rw [hitem] at h
      cases h
    | ok first =>
      rw [hitem] at h
      simp only [Except.bind, bind] at h
      split at h
      · cases h
      · rename_i rest hrest
        cases h
        intro item hmem
        rcases List.mem_cons.mp hmem with rfl | hmem
        · exact buildItem_normalized hitem
        · exact ih hrest item hmem

theorem buildDataset_toDict {env : DatasetEnv} {items built : List EvalItem}
    (h : buildDataset env (items.map EvalItem.toDict) = .ok built) :
    built = items.map EvalItem.normalized := by
  unfold buildDataset at h
  split at h
  · cases h
  · exact buildItems_toDict h

theorem buildDataset_normalized {env : DatasetEnv} {raws : List RawItem} {built : List EvalItem}
    (h : buildDataset env raws = .ok built) : ∀ item ∈ built, item.normalized = item := by
  unfold buildDataset at h
  split at h
  · cases h
  · exact buildItems_normalized h

/-! ## Saves -/

theorem save_eq_ok {env : DatasetEnv} {db db' : GoldenDb} {g : SaveStamp} {q : SaveRequest}
    {d : Dataset} (h : save env db g q = .ok (db', d)) :
    ∃ built, buildDataset env q.items = .ok built ∧ d.items = built ∧
      d.contentSha256 = contentSha env built ∧
      storeVersion db.datasets g.now g.datasetId q.tenantId q.by_
      q.name q.collection (contentSha env built) built =
      some (db'.datasets, d.id) ∧
      savePolicy db.policies g.now g.policyId q.tenantId q.name env.interval env.topK q.by_ =
      some db'.policies := by
  unfold save at h
  split at h
  · cases h
  · rename_i built hbuilt
    split at h
    · cases h
    · simp only at h
      split at h
      · rename_i datasets id policies hstore hpolicy
        cases h
        exact ⟨built, hbuilt, rfl, rfl, hstore, hpolicy⟩
      · cases h

end AgenticPlatform.Gates
