import AgenticPlatform.Gates.Datasets
import AgenticPlatform.Identity.Capabilities

/-!
# The promotion gate

`evaluate` compares a candidate run with the run the baseline row of a dataset name points
to; `promote` moves the pointer where the gate lets it, or where it is told to force it.
The run is the one the caller loaded, by its id alone; the dataset name comes beside it.
The metrics are floats, each an exact rational; subtraction, rounding and formatting are
parameters.
-/
namespace AgenticPlatform.Gates
open AgenticPlatform.Foundation AgenticPlatform.Identity AgenticPlatform.Db

/-! ## The tables -/

inductive EvalStatus where
  | running | completed | failed
deriving DecidableEq

structure EvalRunRow where
  id : Uuid
  tenantId : Uuid
  datasetId : Uuid
  datasetSha : String
  codeRev : String
  modelId : String
  cassetteSha : Option String
  status : EvalStatus
  answerPassRate : Option ℚ
  retrievalRecall : Option ℚ
  itemsRun : Nat
  itemsScoreable : Nat
  metrics : Json
  startedAt : Time
  finishedAt : Option Time
deriving DecidableEq

abbrev EvalRunTable := Table EvalRunRow EvalRunRow.id

/-- A pointer, not a copy. -/
structure BaselineRow where
  tenantId : Uuid
  datasetName : String
  evalRunId : Uuid
  promotedBy : Option Uuid
  promotedAt : Time
  note : Option String
deriving DecidableEq

/-- The primary key. -/
def BaselineRow.key (b : BaselineRow) : Uuid × String := (b.tenantId, b.datasetName)

abbrev BaselineTable := Table BaselineRow BaselineRow.key

/-! ## Runs -/

/-- What a caller of the gate holds of a run. -/
structure EvalRun where
  id : Uuid
  datasetSha : String
  codeRev : String
  modelId : String
  answerPassRate : Option ℚ
  retrievalRecall : Option ℚ
  itemsRun : Nat
  itemsScoreable : Nat
deriving DecidableEq

def EvalRunRow.evalRun (r : EvalRunRow) : EvalRun :=
  ⟨r.id, r.datasetSha, r.codeRev, r.modelId, r.answerPassRate, r.retrievalRecall, r.itemsRun,
    r.itemsScoreable⟩

/-- `runner.load`. -/
def loadRun (runs : EvalRunTable) (tenantId runId : Uuid) : Option EvalRun :=
  ((runs.get runId).filter (fun r => r.tenantId = tenantId)).map EvalRunRow.evalRun

/-- The run the baseline of a dataset name points to. -/
def baselineRun (runs : EvalRunTable) (baselines : BaselineTable) (tenantId : Uuid)
    (datasetName : String) : Option EvalRun :=
  (baselines.get (tenantId, datasetName)).bind (fun b => loadRun runs tenantId b.evalRunId)

/-! ## The gate -/

structure GateEnv where
  /-- Subtraction of floats. -/
  sub : ℚ → ℚ → ℚ
  /-- `round(x, 4)`. -/
  round4 : ℚ → ℚ
  /-- `f"{x:.4f}"`. -/
  fixed4 : ℚ → String

structure Tolerances where
  recallTolerance : ℚ
  passRateTolerance : ℚ
deriving DecidableEq

/-- The double nearest to 0.02 lies above it. -/
def Tolerances.default : Tolerances :=
  ⟨5764607523034235 / 288230376151711744, 5764607523034235 / 288230376151711744⟩

structure GateDecision where
  promoted : Bool
  reasons : List String
  candidate : EvalRun
  baseline : Option EvalRun
  deltas : List (String × ℚ)
deriving DecidableEq

def noItems : String := "the candidate scored no items at all"

def unscoreable : String :=
  "the candidate produced no scoreable metric — an unscoreable run is not " ++ "a passing run"

def noBaseline : String := "no baseline for this dataset; promoting the first scoreable run"

/-- What is wrong with a candidate, whatever it is compared with. -/
def vacuous (candidate : EvalRun) : List String :=
  (if candidate.itemsRun = 0 then [noItems] else []) ++
  (if candidate.retrievalRecall = none ∧ candidate.answerPassRate = none then [unscoreable] else [])

def incomparable (baseline candidate : EvalRun) : String :=
  "baseline was scored on dataset " ++ (clip 12 baseline.datasetSha ++ ("… and the " ++
    ("candidate on " ++ (clip 12 candidate.datasetSha ++ ("… — these numbers are not " ++
      "comparable, so no regression can be ruled out")))))

def shrunken (baseline candidate : EvalRun) : String :=
  "the candidate scored " ++ (toString candidate.itemsScoreable ++ (" items against the " ++
    ("baseline's " ++ (toString baseline.itemsScoreable ++ (" — a smaller sample can beat a " ++
      "larger one on average while being worse")))))

def lostMetric (env : GateEnv) (metric : String) (base : ℚ) : String :=
  "the baseline has a " ++ (metric ++ (" of " ++ (env.fixed4 base ++ (" and the candidate has " ++
    "none — a metric that stopped being measurable is a regression, not a pass"))))

def fell (env : GateEnv) (metric : String) (tolerance base value : ℚ) : String :=
  metric ++ (" fell " ++ (env.fixed4 |env.sub value base| ++ (" (" ++ (env.fixed4 base ++ (" → " ++
    (env.fixed4 value ++ ("), " ++ ("beyond the " ++ (env.fixed4 tolerance ++ " tolerance")))))))))

/-- One round of the loop over the metrics: the reasons and the deltas it adds. -/
def compareMetric (env : GateEnv) (metric : String) (tolerance : ℚ) (base value : Option ℚ) :
    List String × List (String × ℚ) :=
  match base, value with
  | none, _ => ([], [])
  | some base, none => ([lostMetric env metric base], [])
  | some base, some value =>
    (if env.sub value base < -tolerance then [fell env metric tolerance base value] else [],
      [(metric, env.round4 (env.sub value base))])

/-- Whether the candidate may become the baseline. -/
def evaluate (env : GateEnv) (tolerances : Tolerances) (candidate : EvalRun)
    (baseline : Option EvalRun) : GateDecision :=
  match baseline with
  | none =>
    let reasons := if vacuous candidate = [] then [noBaseline] else vacuous candidate
    ⟨(reasons.getLast?).all (fun r => r.startsWith "no baseline"), reasons, candidate, none, []⟩
  | some base =>
    if base.datasetSha ≠ candidate.datasetSha then
      ⟨false, vacuous candidate ++ [incomparable base candidate], candidate, some base, []⟩
    else
      let smaller :=
        if candidate.itemsScoreable < base.itemsScoreable then [shrunken base candidate] else []
      let retrievalRecall := compareMetric env "retrieval_recall" tolerances.recallTolerance
        base.retrievalRecall candidate.retrievalRecall
      let passRate := compareMetric env "answer_pass_rate" tolerances.passRateTolerance
        base.answerPassRate candidate.answerPassRate
      let reasons := vacuous candidate ++ smaller ++ retrievalRecall.1 ++ passRate.1
      ⟨reasons = [], if reasons = [] then ["no regression beyond tolerance"] else reasons,
        candidate, some base, retrievalRecall.2 ++ passRate.2⟩

/-! ## Promotion -/

structure PromoteRequest where
  principal : Principal
  runId : Uuid
  dataset : String
  note : Option String
  force : Bool
  tolerances : Tolerances
deriving DecidableEq

def PromoteRequest.tenantId (q : PromoteRequest) : Uuid := q.principal.tenant.id

/-- `note or ("forced" if force else None)`. -/
def PromoteRequest.noteColumn (q : PromoteRequest) : Option String :=
  if q.note = none ∨ q.note = some "" then (if q.force then some "forced" else none) else q.note

/-- The row a promotion leaves. -/
def promotedRow (now : Time) (q : PromoteRequest) : BaselineRow :=
  ⟨q.tenantId, q.dataset, q.runId, some q.principal.id, now, q.noteColumn⟩

/-- The upsert that moves the pointer; `none` where the run is not there. -/
def movePointer (runs : EvalRunTable) (baselines : BaselineTable) (now : Time)
    (q : PromoteRequest) : Option BaselineTable :=
  let row := promotedRow now q
  if row.evalRunId ∈ runs.keys then
    if row.key ∈ baselines.keys then
      some (baselines.updateWhere (fun b => b.key = row.key)
        (fun b => { b with
          evalRunId := row.evalRunId
          promotedBy := row.promotedBy
          promotedAt := row.promotedAt
          note := row.note })
        (fun _ => rfl))
    else baselines.tryInsert row
  else none

/-! ## What a decision says -/

theorem loadRun_eq_some {runs : EvalRunTable} {tenantId runId : Uuid} {x : EvalRun} :
    loadRun runs tenantId runId = some x ↔ ∃ r ∈ runs.rows, r.id = runId ∧ r.tenantId = tenantId ∧
      r.evalRun = x := by
  simp only [loadRun, Option.map_eq_some_iff, Option.filter_eq_some_iff, Table.get_eq_some,
    decide_eq_true_eq, and_assoc]

theorem vacuous_eq_nil {candidate : EvalRun} :
    vacuous candidate = [] ↔ candidate.itemsRun ≠ 0 ∧
      ¬(candidate.retrievalRecall = none ∧ candidate.answerPassRate = none) := by
  unfold vacuous
  split <;> split <;> simp_all

/-- The gate asks nothing of the dataset where there is no baseline. -/
theorem promoted_first {env : GateEnv} {tolerances : Tolerances} {candidate : EvalRun}
    (h : vacuous candidate = []) : (evaluate env tolerances candidate none).promoted = true := by
  simp only [evaluate, h, if_true]
  decide +kernel

theorem vacuous_of_promoted {env : GateEnv} {tolerances : Tolerances} {candidate : EvalRun}
    {baseline : Option EvalRun} (h : (evaluate env tolerances candidate baseline).promoted = true) :
    vacuous candidate = [] := by
  cases baseline with
  | none =>
    by_contra hne
    simp only [evaluate, if_neg hne] at h
    unfold vacuous at h hne
    revert h
    split <;> split <;> simp_all <;> decide +kernel
  | some base =>
    simp only [evaluate] at h
    split at h
    · cases h
    · simp only [decide_eq_true_eq, List.append_eq_nil_iff, and_assoc] at h
      exact h.1

/-- A metric that passes has not fallen by more than the tolerance. -/
def Holds (env : GateEnv) (tolerance : ℚ) (base value : Option ℚ) : Prop :=
  ∀ b, base = some b → ∃ v, value = some v ∧ -tolerance ≤ env.sub v b

theorem compareMetric_eq_nil {env : GateEnv} {metric : String} {tolerance : ℚ}
    {base value : Option ℚ} :
    (compareMetric env metric tolerance base value).1 = [] ↔ Holds env tolerance base value := by
  unfold Holds
  cases base with
  | none => simp [compareMetric]
  | some base =>
    cases value with
    | none => simp [compareMetric]
    | some value =>
      simp only [compareMetric]
      constructor
      · intro h b hb
        cases hb
        refine ⟨value, rfl, ?_⟩
        by_contra hlt
        rw [if_pos (not_le.mp hlt)] at h
        cases h
      · intro h
        obtain ⟨v, hv, hle⟩ := h base rfl
        cases hv
        exact if_neg (not_lt.mpr hle)

/-- What a promotion against a baseline says of the two runs. -/
theorem promoted_iff {env : GateEnv} {tolerances : Tolerances} {candidate base : EvalRun} :
    (evaluate env tolerances candidate (some base)).promoted = true ↔
      base.datasetSha = candidate.datasetSha ∧ vacuous candidate = [] ∧
      base.itemsScoreable ≤ candidate.itemsScoreable ∧
      Holds env tolerances.recallTolerance base.retrievalRecall candidate.retrievalRecall ∧
      Holds env tolerances.passRateTolerance base.answerPassRate candidate.answerPassRate := by
  simp only [evaluate]
  split
  · rename_i hne
    simp only [Bool.false_eq_true, false_iff]
    exact fun h => hne h.1
  · rename_i heq
    have hsmaller :
        (if candidate.itemsScoreable < base.itemsScoreable then [shrunken base candidate] else []) =
        [] ↔
        base.itemsScoreable ≤ candidate.itemsScoreable := by
      split <;> simp_all
    simp only [decide_eq_true_eq, List.append_eq_nil_iff, compareMetric_eq_nil, hsmaller, and_assoc]
    simp only [ne_eq, not_not] at heq
    simp only [heq, true_and]

/-- After the upsert the row of the name is the promoted one, and the others are as before. -/
theorem mem_movePointer {runs : EvalRunTable} {baselines baselines' : BaselineTable} {now : Time}
    {q : PromoteRequest} (h : movePointer runs baselines now q = some baselines')
    {b : BaselineRow} :
    b ∈ baselines'.rows ↔ (b ∈ baselines.rows ∧ b.key ≠ (promotedRow now q).key) ∨
      b = promotedRow now q := by
  unfold movePointer at h
  simp only at h
  split at h
  · split at h
    · rename_i hthere
      cases h
      obtain ⟨old, hold, hkey⟩ := Table.mem_keys.mp hthere
      simp only [Table.updateWhere, Table.mem_update, Table.rewrite]
      constructor
      · rintro ⟨x, hx, rfl⟩
        split
        · rename_i hxkey
          right
          obtain ⟨htenant, hname⟩ := Prod.ext_iff.mp hxkey
          simp only [BaselineRow.key] at htenant hname
          simp only [htenant, hname]
        · exact Or.inl ⟨hx, ‹_›⟩
      · rintro (⟨hb, hne⟩ | rfl)
        · exact ⟨b, hb, if_neg hne⟩
        · refine ⟨old, hold, ?_⟩
          rw [if_pos hkey]
          obtain ⟨htenant, hname⟩ := Prod.ext_iff.mp hkey
          simp only [BaselineRow.key] at htenant hname
          simp only [htenant, hname]
    · obtain ⟨hfresh, hrows⟩ := Table.tryInsert_eq_some h
      rw [hrows, List.mem_append, List.mem_singleton]
      refine or_congr_left ?_
      constructor
      · intro hb
        exact ⟨hb, fun hkey => hfresh (hkey ▸ Table.key_mem_keys hb)⟩
      · exact And.left
  · cases h

theorem movePointer_eq_none {runs : EvalRunTable} {baselines : BaselineTable} {now : Time}
    {q : PromoteRequest} (h : movePointer runs baselines now q = none) : q.runId ∉ runs.keys := by
  unfold movePointer at h
  simp only at h
  split at h
  · split at h
    · cases h
    · rename_i hfresh
      simp only [Table.tryInsert, dif_pos hfresh] at h
      cases h
  · assumption

end AgenticPlatform.Gates
