import AgenticPlatform.Gates.EvalSystem
import AgenticPlatform.Gates.Judge
import AgenticPlatform.Gates.QualityMetrics
import AgenticPlatform.Gates.Review

/-!
# The runner

`run` starts a row, goes through the items, and stores an outcome for each that a reviewer
has not flagged, with the aggregates over them. Retrieval, the answerer, the judge and the
lookup of evidence are arguments; each may raise. `load` rebuilds a run from its rows.
-/
namespace AgenticPlatform.Gates.Runner
open AgenticPlatform.Foundation AgenticPlatform.Identity AgenticPlatform.Db
open QualityMetrics (TokenEnv Score Quality)
open Judge (FixSurface)

structure RunnerEnv where
  floats : FloatEnv
  tokens : TokenEnv
  release : String
  llmModelCheap : String
  llmModelJudge : String

/-- The arguments of `run`. What a callable does may depend on the item it is called for, here
by its position. -/
structure RunCall where
  tenantId : Uuid
  dataset : Dataset
  /-- The cancellation point before the item raises. -/
  cancelled : Nat → Bool
  retrieve : Nat → String → String → Int → Except Raised (List String)
  answer : Option (Nat → String → EvalItem → List String → Except Raised String)
  judge : Option (Nat → EvalItem → String → List String → Except Raised Judge.Verdict)
  evidence : Option (Nat → List String → Except Raised (List (String × String)))
  labels : String → Option LabelRow
  topK : Int
  cassetteSha : Option String

/-! ## One item -/

structure ItemOutcome where
  itemId : String
  question : String
  mustCite : List String
  retrieved : List String
  retrievalRecall : Option ℚ
  passed : Option Bool
  answer : String
  detail : List (String × Json)
  metrics : Option Score
  fixSurface : Option FixSurface
  judgeUnavailable : Bool

/-- `wanted & got`. -/
def found (item : EvalItem) (retrieved : List String) : List String :=
  item.mustCite.dedup.filter (fun c => c ∈ retrieved)

def RunCall.retrieved (q : RunCall) (n : Nat) (item : EvalItem) : Except Raised (List String) :=
  q.retrieve n q.dataset.collection item.question q.topK

/-- The outcome of an item whose retrieval failed. -/
def failed (item : EvalItem) (name message : String) : ItemOutcome where
  itemId := item.id
  question := item.question
  mustCite := item.mustCite
  retrieved := []
  retrievalRecall := if item.mustCite = [] then none else some 0
  passed := some false
  answer := ""
  detail := [("error", .str (name ++ ": " ++ message))]
  metrics := none
  fixSurface := none
  judgeUnavailable := false

/-- The answer, and what is said of an answerer that raised. -/
def answered (q : RunCall) (n : Nat) (item : EvalItem) (retrieved : List String) :
    Except Raised (String × String) :=
  match q.answer with
  | none => .ok ("", "")
  | some answer =>
    match answer n q.dataset.collection item retrieved with
    | .ok actual => .ok (actual, "")
    | .error .runCancelled => .error .runCancelled
    | .error (.error name message) => .ok ("", "answerer: " ++ name ++ ": " ++ message)

structure Judgement where
  passed : Option Bool
  fixSurface : Option FixSurface
  judgeDown : Bool
  reason : String

def judgement (q : RunCall) (n : Nat) (item : EvalItem) (actual : String)
    (retrieved : List String) : Except Raised Judgement :=
  match q.judge, q.answer with
  | some judge, some _ =>
    match judge n item actual retrieved with
    | .ok v => .ok ⟨some v.passed, some v.fixSurface, v.judgeUnavailable, v.reason⟩
    | .error .runCancelled => .error .runCancelled
    | .error (.error name _) => .ok ⟨some false, none, true, "judge error: " ++ name⟩
  | _, _ => .ok ⟨none, none, false, ""⟩

/-- Nothing that the lookup of the evidence raises is caught. -/
def itemMetrics (env : RunnerEnv) (q : RunCall) (n : Nat) (item : EvalItem) (actual : String)
    (retrieved : List String) : Except Raised (Option Score) :=
  match q.evidence, q.answer with
  | some evidence, some _ =>
    (evidence n retrieved).map (fun texts =>
      some (QualityMetrics.score env.floats env.tokens actual item.question item.expectedAnswer
        retrieved (retrieved.filterMap (fun c => texts.lookup c)) item.mustCite))
  | _, _ => .ok none

def outcomeAt (env : RunnerEnv) (q : RunCall) (n : Nat) (item : EvalItem) :
    Except Raised ItemOutcome :=
  match q.retrieved n item with
  | .error .runCancelled => .error .runCancelled
  | .error (.error name message) => .ok (failed item name message)
  | .ok retrieved =>
    (answered q n item retrieved).bind (fun a =>
      (judgement q n item a.1 retrieved).bind (fun j =>
        (itemMetrics env q n item a.1 retrieved).map (fun metrics =>
          { itemId := item.id
            question := item.question
            mustCite := item.mustCite
            retrieved := retrieved
            retrievalRecall :=
              if item.mustCite = [] then none
              else some (env.floats.div (found item retrieved).length item.mustCite.dedup.length)
            passed := j.passed
            answer := a.1
            detail := ("evidence_found",
              .arr ((sortedBy id (found item retrieved)).map Json.str)) ::
              ((if j.reason = "" then [] else [("reason", .str j.reason)]) ++ if a.2 = "" then []
                else [("error", .str a.2)])
            metrics := metrics
            fixSurface := j.fixSurface
            judgeUnavailable := j.judgeDown })))

/-! ## All items -/

/-- A reviewer found the evidence of the item unusable. -/
def RunCall.unusable (q : RunCall) (item : EvalItem) : Bool :=
  (q.labels item.id).any (fun row => row.unusableReason.any (fun reason => strip reason ≠ ""))

structure Progress where
  outcomes : List ItemOutcome
  excluded : Nat

def runLoop (env : RunnerEnv) (q : RunCall) (n : Nat) (p : Progress) :
    List EvalItem → Except Raised Progress
  | [] => .ok p
  | item :: items =>
    if q.cancelled n then .error .runCancelled
    else if q.unusable item then runLoop env q (n + 1) { p with excluded := p.excluded + 1 } items
    else
      match outcomeAt env q n item with
      | .error e => .error e
      | .ok o => runLoop env q (n + 1) { p with outcomes := p.outcomes ++ [o] } items

/-! ## The aggregates -/

def scoreable (outcomes : List ItemOutcome) : List ItemOutcome :=
  outcomes.filter (fun o => o.retrievalRecall.isSome)

/-- A verdict that the judge could not produce is none. -/
def judged (outcomes : List ItemOutcome) : List ItemOutcome :=
  outcomes.filter (fun o => o.passed.isSome && !o.judgeUnavailable)

def recallOf (floats : FloatEnv) (recalls : List ℚ) : Option ℚ :=
  if recalls = [] then none else some (floats.round4 (floats.mean recalls))

def passRateOf (floats : FloatEnv) (verdicts : List Bool) : Option ℚ :=
  if verdicts = [] then none
  else some (floats.round4 (floats.div (verdicts.filter id).length verdicts.length))

structure EvalRun extends Gates.EvalRun where
  cassetteSha : Option String
  outcomes : List ItemOutcome
  elapsedS : ℚ
  quality : List (String × Quality)
  judgeModel : Option String
  judgeUnavailable : Nat
  itemsExcluded : Nat

def RunCall.judgeModel (env : RunnerEnv) (q : RunCall) : Option String :=
  q.judge.map (fun _ => env.llmModelJudge)

def evalRunOf (env : RunnerEnv) (q : RunCall) (runId : Uuid) (elapsed : ℚ) (p : Progress) :
    EvalRun where
  id := runId
  datasetSha := q.dataset.contentSha256
  codeRev := env.release
  modelId := env.llmModelCheap
  answerPassRate := passRateOf env.floats ((judged p.outcomes).filterMap ItemOutcome.passed)
  retrievalRecall :=
    recallOf env.floats ((scoreable p.outcomes).filterMap ItemOutcome.retrievalRecall)
  itemsRun := p.outcomes.length
  itemsScoreable := (scoreable p.outcomes).length
  cassetteSha := q.cassetteSha
  outcomes := p.outcomes
  elapsedS := elapsed
  quality := QualityMetrics.aggregate env.floats (p.outcomes.filterMap ItemOutcome.metrics)
  judgeModel := q.judgeModel env
  judgeUnavailable := (p.outcomes.filter ItemOutcome.judgeUnavailable).length
  itemsExcluded := p.excluded

/-! ## The rows -/

structure EvalResultRow where
  tenantId : Uuid
  evalRunId : Uuid
  itemId : String
  question : String
  passed : Option Bool
  mustCite : List String
  retrieved : List String
  retrievalRecall : Option ℚ
  answer : Option String
  detail : List (String × Json)

/-- The columns of the unique constraint. -/
def EvalResultRow.key (r : EvalResultRow) : Uuid × String := (r.evalRunId, r.itemId)

/-- The tables that a run writes, with the foreign key between them. -/
structure RunDb where
  runs : EvalRunTable
  results : Table EvalResultRow EvalResultRow.key
  owned : ∀ row ∈ results.rows, row.evalRunId ∈ runs.keys

def RunCall.resultRow (floats : FloatEnv) (q : RunCall) (runId : Uuid) (o : ItemOutcome) :
    EvalResultRow where
  tenantId := q.tenantId
  evalRunId := runId
  itemId := o.itemId
  question := o.question
  passed := o.passed
  mustCite := o.mustCite
  retrieved := o.retrieved
  retrievalRecall := o.retrievalRecall
  answer := some o.answer
  detail := Dict.update o.detail
    [("metrics", (o.metrics.map (Score.toJson floats)).getD .emptyObj),
      ("fix_surface", (o.fixSurface.map (fun surface => Json.str surface.value)).getD .null),
      ("judge_unavailable", .bool o.judgeUnavailable)]

/-- The INSERTs of the outcomes, in one transaction; `none` where one of them fails. -/
def insertResults (t : Table EvalResultRow EvalResultRow.key) (rows : List EvalResultRow) :
    Option (Table EvalResultRow EvalResultRow.key) :=
  if ∀ row ∈ rows, row.itemId.length ≤ 64 then t.tryInsertAll rows else none

/-- The INSERT of the run, with the column defaults. -/
def RunCall.runningRow (env : RunnerEnv) (q : RunCall) (now : Time) (runId : Uuid) :
    EvalRunRow where
  id := runId
  tenantId := q.tenantId
  datasetId := q.dataset.id
  datasetSha := q.dataset.contentSha256
  codeRev := env.release
  modelId := env.llmModelCheap
  cassetteSha := q.cassetteSha
  status := .running
  answerPassRate := none
  retrievalRecall := none
  itemsRun := 0
  itemsScoreable := 0
  metrics := .emptyObj
  startedAt := now
  finishedAt := none

/-- The column `metrics` of the run. -/
def metricsColumn (env : RunnerEnv) (q : RunCall) (r : EvalRun) : Json :=
  .obj [("elapsed_s", .num (env.floats.number (env.floats.round2 r.elapsedS))),
    ("items_judged", .num (.ofInt (judged r.outcomes).length)),
    ("items_excluded", .num (.ofInt r.itemsExcluded)),
    ("judge_unavailable", .num (.ofInt r.judgeUnavailable)),
    ("judge_model", (r.judgeModel.map Json.str).getD .null),
    ("quality", .obj (r.quality.map (fun e => (e.1, e.2.toJson env.floats)))),
    ("top_k", .num (.ofInt q.topK))]

/-! ## The run -/

theorem rows_insertResults {t t' : Table EvalResultRow EvalResultRow.key}
    {rows : List EvalResultRow} (h : insertResults t rows = some t') :
    t'.rows = t.rows ++ rows := by
  unfold insertResults at h
  split at h
  · exact Table.tryInsertAll_eq_some h
  · cases h

theorem id_finished (now : Time) (passRate retrievalRecall : Option ℚ)
    (itemsRun itemsScoreable : Nat) (metrics : Json) (r : EvalRunRow) :
    (finished now passRate retrievalRecall itemsRun itemsScoreable metrics r).id = r.id :=
  rfl

/-- The UPDATE at the end. -/
def completed (env : RunnerEnv) (q : RunCall) (finishedAt : Time) (r : EvalRun)
    (runs : EvalRunTable) : EvalRunTable :=
  runs.updateWhere (fun x => x.id = r.id)
    (finished finishedAt r.answerPassRate r.retrievalRecall r.itemsRun
      r.itemsScoreable (metricsColumn env q r))
    (id_finished _ _ _ _ _ _)

/-- What the server and the clock give a run. The generated id is new. -/
structure RunStamp (db : RunDb) where
  now : Time
  finishedAt : Time
  elapsed : ℚ
  runId : Uuid
  fresh : runId ∉ db.runs.keys

/-- The first transaction. -/
def RunDb.started (env : RunnerEnv) (q : RunCall) (db : RunDb) (stamp : RunStamp db) : RunDb where
  runs := db.runs.insert (q.runningRow env stamp.now stamp.runId) stamp.fresh
  results := db.results
  owned := by
    intro row hrow
    obtain ⟨r, hr, hkey⟩ := Table.mem_keys.mp (db.owned row hrow)
    exact Table.mem_keys.mpr ⟨r, Table.mem_insert.mpr (Or.inl hr), hkey⟩

/-- The last transaction: all of it, or nothing. -/
def RunDb.finished (env : RunnerEnv) (q : RunCall) (db : RunDb) (finishedAt : Time) (r : EvalRun) :
    Option RunDb :=
  if hrun : r.id ∈ db.runs.keys then
    match hresults : insertResults db.results (r.outcomes.map (q.resultRow env.floats r.id)) with
    | none => none
    | some results => some
      { runs := completed env q finishedAt r db.runs
        results := results
        owned := by
          intro row hrow
          have hkeys : (completed env q finishedAt r db.runs).keys = db.runs.keys :=
            Table.keys_updateWhere _ _ _ _
          rw [hkeys]
          rw [rows_insertResults hresults, List.mem_append] at hrow
          rcases hrow with hold | hnew
          · exact db.owned row hold
          · obtain ⟨o, -, rfl⟩ := List.mem_map.mp hnew
            exact hrun }
  else none

inductive RunError where
  | raised (e : Raised)
  /-- A row that violates a constraint. -/
  | database

/-- What a run that raises has started stays. -/
def run (env : RunnerEnv) (q : RunCall) (db : RunDb) (stamp : RunStamp db) :
    RunDb × Except RunError EvalRun :=
  match runLoop env q 0 ⟨[], 0⟩ q.dataset.items with
  | .error e => (db.started env q stamp, .error (.raised e))
  | .ok p =>
    match (db.started env q stamp).finished env q stamp.finishedAt
        (evalRunOf env q stamp.runId stamp.elapsed p) with
    | some db => (db, .ok (evalRunOf env q stamp.runId stamp.elapsed p))
    | none => (db.started env q stamp, .error .database)

/-- The tables after a run that returns. -/
theorem run_ok {env : RunnerEnv} {q : RunCall} {db db' : RunDb} {stamp : RunStamp db} {r : EvalRun}
    (h : run env q db stamp = (db', .ok r)) :
    (∃ p, r = evalRunOf env q stamp.runId stamp.elapsed p) ∧
      db'.runs = completed env q stamp.finishedAt r (db.started env q stamp).runs ∧
      db'.results.rows = db.results.rows ++ r.outcomes.map (q.resultRow env.floats r.id) := by
  unfold run at h
  split at h
  · cases h
  · rename_i p hp
    split at h
    · rename_i db'' hfinished
      cases h
      refine ⟨⟨p, rfl⟩, ?_⟩
      unfold RunDb.finished at hfinished
      split at hfinished
      · split at hfinished
        · cases hfinished
        · rename_i hresults
          cases hfinished
          exact ⟨rfl, rows_insertResults hresults⟩
      · cases hfinished
    · cases h

/-- The row that a run starts with is the one of the golden sets' system. -/
theorem runningRow_eq_startedRun (env : RunnerEnv) {q : RunCall} {d : DatasetRow}
    (hdataset : d.dataset = q.dataset) (htenant : d.tenantId = q.tenantId) (now : Time)
    (runId : Uuid) :
    q.runningRow env now runId =
      startedRun now runId d env.release env.llmModelCheap q.cassetteSha := by
  simp only [RunCall.runningRow, startedRun, ← hdataset, ← htenant, DatasetRow.dataset]

end AgenticPlatform.Gates.Runner
