import AgenticPlatform.Gates.PersistedRuns

/-!
# What the gate compares

The two metrics are averaged over different items. The gate refuses a candidate that scored
fewer items than the baseline; it does not ask how many of them were judged, so a candidate
whose judge was down for some items is compared as if it had not been.
-/
namespace AgenticPlatform.Gates.Runner
open AgenticPlatform.Foundation AgenticPlatform.Identity AgenticPlatform.Db

/-- A candidate that may replace the baseline. -/
structure LikeForLike (gate : GateEnv) (tolerances : Tolerances) (base candidate : EvalRun) :
    Prop where
  sameDataset : base.datasetSha = candidate.datasetSha
  measured : candidate.retrievalRecall ≠ none ∨ candidate.answerPassRate ≠ none
  recallHolds : Holds gate tolerances.recallTolerance base.retrievalRecall candidate.retrievalRecall
  passRateHolds :
    Holds gate tolerances.passRateTolerance base.answerPassRate candidate.answerPassRate
  recallItems : base.retrievalRecall ≠ none →
    (scoreable base.outcomes).length ≤ (scoreable candidate.outcomes).length
  passRateItems : base.answerPassRate ≠ none →
    (judged base.outcomes).length ≤ (judged candidate.outcomes).length

section
variable {env env' : RunnerEnv} {q q' : RunCall} {db db' : RunDb} {stamp : RunStamp db}
  {r : EvalRun}

theorem itemsScoreable_run (h : run env q db stamp = (db', .ok r)) :
    r.itemsScoreable = (scoreable r.outcomes).length := by
  obtain ⟨⟨p, rfl⟩, -, -⟩ := run_ok h
  rfl

/-- A run with a pass rate has judged something. -/
theorem itemsRun_ne_zero (h : run env q db stamp = (db', .ok r)) (hrate : r.answerPassRate ≠ none) :
    r.itemsRun ≠ 0 := by
  obtain ⟨⟨p, rfl⟩, -, -⟩ := run_ok h
  intro hzero
  have hnil : p.outcomes = [] := List.length_eq_zero_iff.mp hzero
  refine hrate ?_
  change passRateOf env.floats ((judged p.outcomes).filterMap ItemOutcome.passed) = none
  rw [hnil]
  rfl

/-- A run that is the baseline is what the gate reads of it. -/
theorem baselineRun_run (h : run env q db stamp = (db', .ok r)) {runs : EvalRunTable}
    {baselines : BaselineTable} {datasetName : String} (hrow : runs.get r.id = db'.runs.get r.id)
    (hpointer : (baselines.get (q.tenantId, datasetName)).map BaselineRow.evalRunId = some r.id) :
    baselineRun runs baselines q.tenantId datasetName = some r.toEvalRun := by
  obtain ⟨b, hb, hid⟩ := Option.map_eq_some_iff.mp hpointer
  have hloaded := load_toEvalRun db' q.tenantId r.id true
  rw [load_run h] at hloaded
  rw [baselineRun, hb, Option.bind_some, hid, loadRun, hrow]
  exact hloaded.symm

end

variable {env env' : RunnerEnv} {q q' : RunCall} {db db' dc dc' : RunDb} {stamp : RunStamp db}
  {stamp' : RunStamp dc} {base candidate : EvalRun} {runs : EvalRunTable}
  {baselines : BaselineTable} {datasetName : String}

/-- The gate promotes like for like exactly where a candidate that passes what it does look at
has judged as many items as the baseline. -/
theorem promoted_like_for_like_iff (gate : GateEnv) (tolerances : Tolerances)
    (hbase : run env q db stamp = (db', .ok base))
    (hcandidate : run env' q' dc stamp' = (dc', .ok candidate))
    (hrow : runs.get base.id = db'.runs.get base.id)
    (hpointer : (baselines.get (q.tenantId, datasetName)).map BaselineRow.evalRunId =
      some base.id) :
    ((evaluate gate tolerances candidate.toEvalRun
      (baselineRun runs baselines q.tenantId datasetName)).promoted = true →
      LikeForLike gate tolerances base candidate) ↔
      (base.datasetSha = candidate.datasetSha → base.itemsScoreable ≤ candidate.itemsScoreable →
        Holds gate tolerances.recallTolerance base.retrievalRecall candidate.retrievalRecall →
        Holds gate tolerances.passRateTolerance base.answerPassRate candidate.answerPassRate →
        base.answerPassRate ≠ none →
        (judged base.outcomes).length ≤ (judged candidate.outcomes).length) := by
  rw [baselineRun_run hbase hrow hpointer, promoted_iff]
  constructor
  · intro hlike hsha hitems hrecall hpass hrate
    have hmeasured : candidate.answerPassRate ≠ none := by
      obtain ⟨b, hb⟩ := Option.ne_none_iff_exists'.mp hrate
      obtain ⟨v, hv, -⟩ := hpass b hb
      rw [hv]
      exact Option.some_ne_none v
    have hvacuous : vacuous candidate.toEvalRun = [] :=
      vacuous_eq_nil.mpr ⟨itemsRun_ne_zero hcandidate hmeasured, fun hnone => hmeasured hnone.2⟩
    exact (hlike ⟨hsha, hvacuous, hitems, hrecall, hpass⟩).passRateItems hrate
  · rintro hjudged ⟨hsha, hvacuous, hitems, hrecall, hpass⟩
    refine ⟨hsha, ?_, hrecall, hpass, ?_, hjudged hsha hitems hrecall hpass⟩
    · have hsome := (vacuous_eq_nil.mp hvacuous).2
      rw [← not_and_or]
      exact hsome
    · intro _
      rw [← itemsScoreable_run hbase, ← itemsScoreable_run hcandidate]
      exact hitems

/-! Two items, each found and answered. The judge is there for the baseline, and for the
candidate it is down after the first item. -/

def judging (judge : Nat → Except Raised Judge.Verdict) : RunCall where
  tenantId := 1
  dataset := ⟨3, "pumps", "manuals", "sha1",
    [⟨"q1", "Which torque?", "5 Nm", ["c_0123ab"]⟩, ⟨"q2", "Which limit?", "6 Nm", ["c_0123ab"]⟩]⟩
  cancelled := fun _ => false
  retrieve := fun _ _ _ _ => .ok ["c_0123ab"]
  answer := some (fun _ _ item _ => .ok item.expectedAnswer)
  judge := some (fun n _ _ _ => judge n)
  evidence := none
  labels := fun _ => none
  topK := 5
  cassetteSha := none

def sameFacts : Judge.Verdict := ⟨true, "same facts", .none, false⟩

def judgeUp : RunCall := judging (fun _ => .ok sameFacts)

def judgeDown : RunCall :=
  judging (fun n => if n = 0 then .ok sameFacts else .error (.error "TimeoutError" ""))

def firstJudged : RunDb × Except RunError EvalRun := run releaseEnv judgeUp noRuns firstRun

def secondRun : RunStamp firstJudged.1 := ⟨30, 40, 0, 8, by decide +kernel⟩

def exactGate : GateEnv := ⟨fun a b => a - b, id, fun _ => ""⟩

/-- The pointer at the first run. -/
def firstPromoted : BaselineTable := ⟨[⟨1, "pumps", 7, some 5, 25, none⟩], by decide⟩

/-- What the gate holds of the first run. -/
def firstEvalRun : Gates.EvalRun := ⟨7, "sha1", "r1", "gpt-4o-mini", some 1, some 1, 2, 2⟩

theorem firstJudged_ok :
    ∃ base, firstJudged = (firstJudged.1, .ok base) ∧ base.toEvalRun = firstEvalRun ∧
      (judged base.outcomes).length = 2 := by
  have hfacts : firstJudged.2.toOption.map (fun r => (r.toEvalRun, (judged r.outcomes).length)) =
      some (firstEvalRun, 2) := by
    decide +kernel
  obtain ⟨base, hbase, hvalues⟩ := Option.map_eq_some_iff.mp hfacts
  exact ⟨base, Prod.ext rfl (toOption_eq_some.mp hbase), Prod.ext_iff.mp hvalues⟩

/-- The same run again is promoted, and is like for like. -/
theorem promoted_like_for_like_again :
    ∃ base dc' candidate, firstJudged = (firstJudged.1, .ok base) ∧
      run releaseEnv judgeUp firstJudged.1 secondRun = (dc', .ok candidate) ∧
      (evaluate exactGate .default candidate.toEvalRun
        (baselineRun dc'.runs firstPromoted judgeUp.tenantId "pumps")).promoted = true ∧
      LikeForLike exactGate .default base candidate := by
  obtain ⟨base, hbase, hgate, hjudged⟩ := firstJudged_ok
  have hfacts : (run releaseEnv judgeUp firstJudged.1 secondRun).2.toOption.map
      (fun r => (r.toEvalRun, (judged r.outcomes).length)) =
      some ({ firstEvalRun with id := 8 }, 2) := by decide +kernel
  obtain ⟨candidate, hcandidate, hvalues⟩ := Option.map_eq_some_iff.mp hfacts
  obtain ⟨hsame, hcount⟩ := Prod.ext_iff.mp hvalues
  simp only at hsame hcount
  have hrun : run releaseEnv judgeUp firstJudged.1 secondRun =
      ((run releaseEnv judgeUp firstJudged.1 secondRun).1, .ok candidate) :=
    Prod.ext rfl (toOption_eq_some.mp hcandidate)
  have hid : base.id = 7 := congrArg Gates.EvalRun.id hgate
  have hpromoted : (evaluate exactGate .default candidate.toEvalRun
      (baselineRun (run releaseEnv judgeUp firstJudged.1 secondRun).1.runs
        firstPromoted judgeUp.tenantId "pumps")).promoted =
      true := by
    rw [hsame]
    decide +kernel
  refine ⟨base, _, candidate, hbase, hrun, hpromoted, ?_⟩
  refine (promoted_like_for_like_iff exactGate .default hbase hrun ?_ ?_).mpr ?_ hpromoted
  · rw [hid]
    decide +kernel
  · rw [hid]
    decide +kernel
  · intro _ _ _ _ _
    rw [hjudged, hcount]

/-- The candidate has one verdict, the baseline two. -/
theorem judge_outage_promoted :
    ∃ base dc' candidate, firstJudged = (firstJudged.1, .ok base) ∧
      run releaseEnv judgeDown firstJudged.1 secondRun = (dc', .ok candidate) ∧
      judgeDown.dataset.name = judgeUp.dataset.name ∧
      baselineRun dc'.runs firstPromoted judgeDown.tenantId judgeDown.dataset.name =
      some base.toEvalRun ∧
      (evaluate exactGate .default candidate.toEvalRun
        (baselineRun dc'.runs firstPromoted judgeDown.tenantId judgeDown.dataset.name)).promoted =
      true ∧
      ¬ LikeForLike exactGate .default base candidate := by
  obtain ⟨base, hbase, hgate, hjudged⟩ := firstJudged_ok
  have hfacts : (run releaseEnv judgeDown firstJudged.1 secondRun).2.toOption.map
      (fun r => (r.toEvalRun, (judged r.outcomes).length)) =
      some ({ firstEvalRun with id := 8 }, 1) := by decide +kernel
  obtain ⟨candidate, hcandidate, hvalues⟩ := Option.map_eq_some_iff.mp hfacts
  obtain ⟨hsame, hcount⟩ := Prod.ext_iff.mp hvalues
  simp only at hsame hcount
  refine ⟨base, _, candidate, hbase, Prod.ext rfl (toOption_eq_some.mp hcandidate), rfl, ?_, ?_, ?_⟩
  · rw [hgate]
    decide +kernel
  · rw [hsame]
    decide +kernel
  · intro hlike
    have hrate : base.answerPassRate ≠ none := by
      rw [show base.answerPassRate = some 1 from congrArg Gates.EvalRun.answerPassRate hgate]
      exact Option.some_ne_none 1
    have hle := hlike.passRateItems hrate
    rw [hjudged, hcount] at hle
    omega

end AgenticPlatform.Gates.Runner
