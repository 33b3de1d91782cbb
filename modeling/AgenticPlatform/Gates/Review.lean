import AgenticPlatform.Gates.Labels
import AgenticPlatform.Gates.ReadYourWrites

/-!
# The routes that write golden sets

A whole version is put; one item of the latest version is reviewed; the blank answers of
the latest version are drafted. Each changes the items in memory and saves all of them, in
a transaction of its own, and the last two write labels in another one after it.
-/
namespace AgenticPlatform.Gates
open AgenticPlatform.Foundation AgenticPlatform.Identity AgenticPlatform.Db
  AgenticPlatform.Governance

/-! ## Drafting -/

/-- The annotator, as one request meets it. -/
structure Annotator where
  /-- `llm_model_annotator`. -/
  model : String
  /-- The texts that the evidence ids of an item find in the live build. -/
  passages : EvalItem → List String
  /-- The object that the reply to a batch parses to, its values as texts; empty where there
  is no such reply. -/
  reply : List (EvalItem × List String) → List (String × String)

def maxDrafts : Nat := 50

/-- Slices of `BATCH` items. -/
def batches {α : Type} : List α → List (List α)
  | a :: b :: c :: d :: rest => [a, b, c, d] :: batches rest
  | [] => []
  | rest => [rest]

theorem flatten_batches {α : Type} (l : List α) : (batches l).flatten = l := by
  induction l using batches.induct with
  | case1 a b c d rest ih => simp [batches, ih]
  | case2 => rfl
  | case3 rest => simp [batches]

/-- Assignment to a key: in place, or at the end. -/
def assignAnswer (answers : List (String × String)) (e : String × String) :
    List (String × String) :=
  if e.1 ∈ answers.map Prod.fst then answers.map (fun x => if x.1 = e.1 then e else x)
  else answers ++ [e]

def EvalItem.blank (item : EvalItem) : Bool := strip item.expectedAnswer = ""

/-- Blank, not written by a human, not flagged as unusable. -/
def pendingDraft (labels : String → Option LabelRow) (item : EvalItem) : Bool :=
  item.blank && !(labels item.id).any (fun r => r.answerSource.humanAuthored) &&
    !(labels item.id).any (fun r => r.unusableReason.any (fun reason => reason ≠ ""))

/-- The items of one request. -/
def pendingItems (labels : String → Option LabelRow) (d : Dataset) (limit : Nat) : List EvalItem :=
  (d.items.filter (pendingDraft labels)).take (max 1 (min limit maxDrafts))

/-- The items of a batch that have evidence, each with it. -/
def Annotator.blocks (annotator : Annotator) (batch : List EvalItem) :
    List (EvalItem × List String) :=
  (batch.map (fun item => (item, annotator.passages item))).filter (fun block => block.2 ≠ [])

/-- One batch: the items with evidence go to the model, and what it answers is kept, under
whatever ids it answers. -/
def draftBatch (annotator : Annotator) (drafted : List (String × String)) (batch : List EvalItem) :
    List (String × String) :=
  if annotator.blocks batch = [] then drafted
  else
    let answers := (annotator.reply (annotator.blocks batch)).map (fun e => (e.1, strip e.2))
    (answers.filter (fun e => e.2 ≠ "")).foldl assignAnswer drafted

/-- The proposals. Nothing is written. -/
def draft (annotator : Annotator) (labels : String → Option LabelRow) (d : Dataset) (limit : Nat) :
    List (String × String) :=
  (batches (pendingItems labels d limit)).foldl (draftBatch annotator) []

/-- The proposal for an item that gets one: it has no answer yet. -/
def proposalFor (drafted : List (String × String)) (item : EvalItem) : Option String :=
  if item.blank then (drafted.lookup item.id).filter (fun answer => answer ≠ "") else none

/-- `annotator.apply` to one item. -/
def EvalItem.filled (drafted : List (String × String)) (item : EvalItem) : EvalItem :=
  { item with expectedAnswer := (proposalFor drafted item).getD item.expectedAnswer }

/-! ## Requests -/

structure GoldenStore where
  db : GoldenDb
  labels : LabelTable

inductive RouteError where
  | http (status : Nat) (detail : String)
  /-- An exception that the route lets through. -/
  | uncaught
deriving DecidableEq

def RouteError.ofSave : SaveError → RouteError
  | .build (.invalidDataset message) => .http 400 message
  | _ => .uncaught

/-- A payload, with the bounds it is validated against. -/
structure ItemReview where
  expectedAnswer : Option String
  confirmed : Option Bool
  requiresKgHop : Option Bool
  unusableReason : Option String
  answer_le : ∀ text ∈ expectedAnswer, text.length ≤ 20000
  reason_le : ∀ text ∈ unusableReason, text.length ≤ 2000

structure ReviewRequest where
  tenantId : Uuid
  by_ : Uuid
  name : String
  itemId : String
  payload : ItemReview

def ReviewRequest.key (q : ReviewRequest) : LabelKey := ⟨q.tenantId, q.name, q.itemId⟩

/-- Only an edit changes where the answer is from. -/
def ReviewRequest.verdict (q : ReviewRequest) : Verdict :=
  ⟨q.payload.expectedAnswer.isSome, q.payload.confirmed, q.payload.requiresKgHop,
    q.payload.unusableReason⟩

/-- One item with the answer submitted for it. -/
def EvalItem.reviewed (itemId answer : String) (item : EvalItem) : EvalItem :=
  if item.id = itemId then { item with expectedAnswer := answer } else item

def ReviewRequest.edit (q : ReviewRequest) (d : Dataset) (answer : String) : SaveRequest :=
  ⟨q.tenantId, q.by_, q.name, d.collection,
    (d.items.map (EvalItem.reviewed q.itemId answer)).map EvalItem.toDict⟩

structure ReviewResponse where
  dataset : String
  itemId : String
  contentSha256 : Option String
  versionChanged : Option Bool
  label : LabelRow

structure DraftRequest where
  tenantId : Uuid
  by_ : Uuid
  name : String
  limit : { n : Nat // 1 ≤ n ∧ n ≤ 50 }

def DraftRequest.fill (q : DraftRequest) (d : Dataset) (drafted : List (String × String)) :
    SaveRequest :=
  ⟨q.tenantId, q.by_, q.name, d.collection,
    (d.items.map (EvalItem.filled drafted)).map EvalItem.toDict⟩

/-- What is drafted for a request. -/
def DraftRequest.proposals (q : DraftRequest) (annotator : Annotator) (labels : LabelTable)
    (d : Dataset) : List (String × String) :=
  draft annotator (forDataset labels q.tenantId q.name) d q.limit

structure DraftResponse where
  dataset : String
  drafted : List String
  model : String
  contentSha256 : Option String

/-! ## Routes -/

def putDataset (env : DatasetEnv) (s : GoldenStore) (g : SaveStamp) (q : SaveRequest) :
    GoldenStore × Except RouteError Dataset :=
  match save env s.db g q with
  | .ok (db, d) => ({ s with db := db }, .ok d)
  | .error e => (s, .error (.ofSave e))

/-- The last transaction of a review. -/
def labelItem (s : GoldenStore) (labelledAt : Time) (q : ReviewRequest)
    (contentSha256 : Option String) (versionChanged : Option Bool) :
    GoldenStore × Except RouteError ReviewResponse :=
  match setLabel s.labels q.key q.by_ labelledAt q.verdict with
  | none => (s, .error .uncaught)
  | some (labels, label) =>
    ({ s with labels := labels }, .ok ⟨q.name, q.itemId, contentSha256, versionChanged, label⟩)

def reviewItem (env : DatasetEnv) (s : GoldenStore) (g : SaveStamp) (labelledAt : Time)
    (q : ReviewRequest) (loaded : Option Dataset) :
    GoldenStore × Except RouteError ReviewResponse :=
  match loaded with
  | none => (s, .error (.http 404 "Dataset not found."))
  | some d =>
    if ∀ item ∈ d.items,
      item.id ≠ q.itemId then (s, .error (.http 404 "Item not found in this dataset."))
    else
      match q.payload.expectedAnswer with
      | none => labelItem s labelledAt q none none
      | some answer =>
        match save env s.db g (q.edit d answer) with
        | .error e => (s, .error (.ofSave e))
        | .ok (db, saved) =>
          labelItem { s with db := db } labelledAt q (some saved.contentSha256)
            (some (saved.contentSha256 ≠ d.contentSha256))

/-- A save that fails is not caught here. -/
def draftAnswers (env : DatasetEnv) (annotator : Annotator) (s : GoldenStore) (g : SaveStamp)
    (labelledAt : Time) (q : DraftRequest) (loaded : Option Dataset) :
    GoldenStore × Except RouteError DraftResponse :=
  match loaded with
  | none => (s, .error (.http 404 "Dataset not found."))
  | some d =>
    let drafted := q.proposals annotator s.labels d
    if drafted = [] then (s, .ok ⟨q.name, [], annotator.model, none⟩)
    else
      match save env s.db g (q.fill d drafted) with
      | .error _ => (s, .error .uncaught)
      | .ok (db, saved) =>
        match recordDrafted s.labels q.tenantId q.name (drafted.map Prod.fst) annotator.model
            labelledAt with
        | none => ({ s with db := db }, .error .uncaught)
        | some labels =>
          (⟨db, labels⟩,
            .ok ⟨q.name, drafted.map Prod.fst, annotator.model, some saved.contentSha256⟩)

end AgenticPlatform.Gates
