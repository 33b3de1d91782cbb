import AgenticPlatform.Foundation.Transition
import AgenticPlatform.Gates.Promotion

/-!
# Golden sets, their runs and their baselines

The steps are the transactions: a version is saved, an evaluation starts and finishes, a
promotion loads its run, is judged and moves the pointer, each in a transaction of its own
that others may come between, and the retention pass deletes old runs and old versions.
-/
namespace AgenticPlatform.Gates
open AgenticPlatform.Foundation AgenticPlatform.Identity AgenticPlatform.Db
  AgenticPlatform.Governance

structure EvalEnv where
  datasets : DatasetEnv
  gate : GateEnv

/-- Where a promotion stands. -/
inductive Promotion where
  | loaded (q : PromoteRequest) (candidate : EvalRun)
  /-- The gate let it pass, or is overridden. -/
  | judged (q : PromoteRequest) (decision : GateDecision)
deriving DecidableEq

structure EvalState where
  db : GoldenDb
  runs : EvalRunTable
  baselines : BaselineTable
  promotions : Nat → Option Promotion
  /-- The ids that were generated for runs. -/
  runIds : List Uuid
  /-- The items of the most recent save of a name. -/
  saved : Uuid × String → Option (List EvalItem)

def EvalState.initial : EvalState :=
  ⟨.empty, Table.empty, Table.empty, fun _ => none, [], fun _ => none⟩

inductive EvalAct where
  | save (g : SaveStamp) (q : SaveRequest)
  | startEval (now : Time) (runId datasetId : Uuid) (codeRev modelId : String)
    (cassetteSha : Option String)
  | finishEval (now : Time) (runId : Uuid) (passRate retrievalRecall : Option ℚ)
    (itemsRun itemsScoreable : Nat) (metrics : Json)
  | load (n : Nat) (q : PromoteRequest)
  | judge (n : Nat)
  | move (n : Nat) (now : Time)
  /-- With the row that the subquery returns for each version. -/
  | retention (now : Time) (days : Nat) (newest : DatasetRow → Uuid)

/-! ## Evaluations -/

/-- The INSERT of `runner.run`, with the column defaults. -/
def startedRun (now : Time) (runId : Uuid) (d : DatasetRow) (codeRev modelId : String)
    (cassetteSha : Option String) : EvalRunRow where
  id := runId
  tenantId := d.tenantId
  datasetId := d.id
  datasetSha := d.contentSha256
  codeRev := codeRev
  modelId := modelId
  cassetteSha := cassetteSha
  status := .running
  answerPassRate := none
  retrievalRecall := none
  itemsRun := 0
  itemsScoreable := 0
  metrics := .emptyObj
  startedAt := now
  finishedAt := none

/-- Its UPDATE at the end. -/
def finished (now : Time) (passRate retrievalRecall : Option ℚ) (itemsRun itemsScoreable : Nat)
    (metrics : Json) (r : EvalRunRow) : EvalRunRow :=
  { r with
    status := .completed
    finishedAt := some now
    answerPassRate := passRate
    retrievalRecall := retrievalRecall
    itemsRun := itemsRun
    itemsScoreable := itemsScoreable
    metrics := metrics }

/-! ## Retention -/

/-- `now() - make_interval(days => …)`. -/
def daysAgo (now : Time) (days : Nat) : Time := now - 86400 * days

def expiredRun (baselines : BaselineTable) (cutoff : Time) (r : EvalRunRow) : Prop :=
  (∃ at_, r.finishedAt = some at_ ∧ at_ < cutoff) ∧ ∀ b ∈ baselines.rows, b.evalRunId ≠ r.id

instance (baselines : BaselineTable) (cutoff : Time) :
    DecidablePred (expiredRun baselines cutoff) :=
  fun r => decidable_of_iff
    ((∃ at_ ∈ r.finishedAt, at_ < cutoff) ∧ ∀ b ∈ baselines.rows, b.evalRunId ≠ r.id)
    (by simp [expiredRun, Option.mem_def])

def expiredDataset (runs : EvalRunTable) (cutoff : Time) (newest : DatasetRow → Uuid)
    (d : DatasetRow) : Prop :=
  d.createdAt < cutoff ∧ (∀ r ∈ runs.rows, r.datasetId ≠ d.id) ∧ d.id ≠ newest d

instance (runs : EvalRunTable) (cutoff : Time) (newest : DatasetRow → Uuid) :
    DecidablePred (expiredDataset runs cutoff newest) :=
  fun _ => inferInstanceAs (Decidable (_ ∧ _ ∧ _))

/-- The subquery returns a row with the greatest `created_at` of the name. -/
def Newest (t : DatasetTable) (newest : DatasetRow → Uuid) : Prop :=
  ∀ d ∈ t.rows, ∃ r ∈ t.rows, Latest t d.tenantId d.name r ∧ r.id = newest d

instance (t : DatasetTable) (newest : DatasetRow → Uuid) : Decidable (Newest t newest) :=
  inferInstanceAs (Decidable (∀ d ∈ t.rows, ∃ r ∈ t.rows, _))

def enforceRetention (s : EvalState) (now : Time) (days : Nat) (newest : DatasetRow → Uuid) :
    EvalState :=
  let runs := s.runs.deleteWhere (expiredRun s.baselines (daysAgo now days))
  { s with
    runs := runs
    db := { s.db with
      datasets := s.db.datasets.deleteWhere (expiredDataset runs (daysAgo now days) newest) } }

/-! ## Steps -/

def evalStep (env : EvalEnv) (s : EvalState) : EvalAct → Option EvalState
  | .save g q =>
    match save env.datasets s.db g q with
    | .ok (db, d) =>
      some { s with db := db, saved := Function.update s.saved (q.tenantId, q.name) (some d.items) }
    | .error .idTaken => none
    | .error _ => some s
  | .startEval now runId datasetId codeRev modelId cassetteSha =>
    match s.db.datasets.get datasetId with
    | some d =>
      if runId ∉ s.runIds then
        (s.runs.tryInsert (startedRun now runId d codeRev modelId cassetteSha)).map
          (fun runs => { s with runs := runs, runIds := runId :: s.runIds })
      else none
    | none => none
  | .finishEval now runId passRate retrievalRecall itemsRun itemsScoreable metrics =>
    some { s with
      runs := s.runs.updateWhere (fun r => r.id = runId ∧ r.status = .running)
        (finished now passRate retrievalRecall itemsRun itemsScoreable metrics) (fun _ => rfl) }
  | .load n q =>
    if s.promotions n = none then
      (loadRun s.runs q.tenantId q.runId).map
        (fun candidate =>
          { s with promotions := Function.update s.promotions n (some (.loaded q candidate)) })
    else none
  | .judge n =>
    match s.promotions n with
    | some (.loaded q candidate) =>
      let decision :=
        evaluate env.gate q.tolerances candidate
          (baselineRun s.runs s.baselines q.tenantId q.dataset)
      let granted := capabilitiesOf q.principal .releasePromote && (decision.promoted || q.force)
      some { s with
        promotions :=
          Function.update s.promotions n (if granted then some (.judged q decision) else none) }
    | _ => none
  | .move n now =>
    match s.promotions n with
    | some (.judged q _) =>
      some { s with
        promotions := Function.update s.promotions n none
        baselines := (movePointer s.runs s.baselines now q).getD s.baselines }
    | _ => none
  | .retention now days newest =>
    if 1 ≤ days ∧ days ≤ 3650 ∧
      Newest s.db.datasets newest then some (enforceRetention s now days newest) else none

end AgenticPlatform.Gates
