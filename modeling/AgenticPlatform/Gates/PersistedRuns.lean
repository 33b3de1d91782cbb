import AgenticPlatform.Foundation.JsonValue
import AgenticPlatform.Gates.Aggregation

/-!
# Runs that are loaded again

`load` rebuilds a run from its row and its results. It reads the columns; of the two JSON
columns, in which the rest was written, it reads the elapsed time alone.
-/
namespace AgenticPlatform.Gates.Runner
open AgenticPlatform.Foundation AgenticPlatform.Identity AgenticPlatform.Db
open AgenticPlatform.Onboarding (falsy)

/-! ## Loading -/

/-- `float((row.metrics or {}).get("elapsed_s") or 0.0)`. -/
def elapsedIn : Json → ℚ
  | .obj fields =>
    match fields.lookup "elapsed_s" with
    | some (.num n) => n.value
    | _ => 0
  | _ => 0

def EvalResultRow.outcome (row : EvalResultRow) : ItemOutcome where
  itemId := row.itemId
  question := row.question
  mustCite := row.mustCite
  retrieved := row.retrieved
  retrievalRecall := row.retrievalRecall
  passed := row.passed
  answer := row.answer.getD ""
  detail := row.detail
  metrics := none
  fixSurface := none
  judgeUnavailable := false

/-- The results of a run, ORDER BY item_id. -/
def loadOutcomes (db : RunDb) (tenantId runId : Uuid) : List ItemOutcome :=
  (sortedBy EvalResultRow.itemId
    (db.results.rows.filter (fun row => row.tenantId = tenantId ∧ row.evalRunId = runId))).map
    EvalResultRow.outcome

/-- What is in no column that is read is left at its default. -/
def load (db : RunDb) (tenantId runId : Uuid) (withOutcomes : Bool) : Option EvalRun :=
  ((db.runs.get runId).filter (fun row => row.tenantId = tenantId)).map (fun row =>
    { row.evalRun with
      cassetteSha := row.cassetteSha
      outcomes := if withOutcomes then loadOutcomes db tenantId runId else []
      elapsedS := elapsedIn row.metrics
      quality := []
      judgeModel := none
      judgeUnavailable := 0
      itemsExcluded := 0 })

/-- What the gate holds of a loaded run is what it holds of the row. -/
theorem load_toEvalRun (db : RunDb) (tenantId runId : Uuid) (withOutcomes : Bool) :
    (load db tenantId runId withOutcomes).map EvalRun.toEvalRun =
      loadRun db.runs tenantId runId := by
  rw [load, loadRun, Option.map_map]
  rfl

/-! ## Loading what a run returned -/

/-- An outcome as it is read back. -/
def ItemOutcome.reread (floats : FloatEnv) (o : ItemOutcome) : ItemOutcome :=
  { o with
    detail := Dict.update o.detail
      [("metrics", (o.metrics.map (QualityMetrics.Score.toJson floats)).getD .emptyObj),
        ("fix_surface", (o.fixSurface.map (fun surface => Json.str surface.value)).getD .null),
        ("judge_unavailable", .bool o.judgeUnavailable)]
    metrics := none
    fixSurface := none
    judgeUnavailable := false }

variable {env : RunnerEnv} {q : RunCall} {db db' : RunDb} {stamp : RunStamp db} {r : EvalRun}

theorem get_run (h : run env q db stamp = (db', .ok r)) :
    db'.runs.get r.id =
      some (finished stamp.finishedAt r.answerPassRate r.retrievalRecall r.itemsRun r.itemsScoreable
        (metricsColumn env q r) (q.runningRow env stamp.now stamp.runId)) := by
  obtain ⟨⟨p, hp⟩, hruns, -⟩ := run_ok h
  have hid : r.id = stamp.runId := by
    rw [hp]
    rfl
  have hstarted : (db.started env q stamp).runs.get r.id =
      some (q.runningRow env stamp.now stamp.runId) := by
    exact (Table.get_insert db.runs (q.runningRow env stamp.now stamp.runId) stamp.fresh r.id).trans
      (if_pos hid.symm)
  rw [hruns, completed, Table.get_updateWhere, hstarted]
  exact congrArg some (if_pos hid.symm)

/-- The results of a run are the rows under its id. -/
theorem loadOutcomes_run (h : run env q db stamp = (db', .ok r)) :
    loadOutcomes db' q.tenantId r.id =
      (sortedBy ItemOutcome.itemId r.outcomes).map (ItemOutcome.reread env.floats) := by
  obtain ⟨⟨p, hp⟩, -, hresults⟩ := run_ok h
  have hid : r.id = stamp.runId := by
    rw [hp]
    rfl
  have hold : db.results.rows.filter (fun row => row.tenantId = q.tenantId ∧ row.evalRunId = r.id) =
      [] := by
    refine List.filter_eq_nil_iff.mpr (fun row hrow => ?_)
    have hother : row.evalRunId ≠ r.id := fun hsame => stamp.fresh (hid ▸ hsame ▸ db.owned row hrow)
    simp [hother]
  have hnew : (r.outcomes.map (q.resultRow env.floats r.id)).filter
      (fun row => row.tenantId = q.tenantId ∧ row.evalRunId = r.id) =
      r.outcomes.map (q.resultRow env.floats r.id) := by
    refine List.filter_eq_self.mpr (fun row hrow => ?_)
    obtain ⟨o, -, rfl⟩ := List.mem_map.mp hrow
    exact decide_eq_true ⟨rfl, rfl⟩
  rw [loadOutcomes, hresults, List.filter_append, hold, hnew, List.nil_append,
    ← map_sortedBy (fun o => (rfl : (q.resultRow env.floats r.id o).itemId = o.itemId)),
    List.map_map]
  rfl

/-- What loading a run gives back: the columns of the run, and of the outcomes, which are in the
order of their ids. -/
theorem load_run (h : run env q db stamp = (db', .ok r)) :
    load db' q.tenantId r.id true = some
      { r with
        outcomes := (sortedBy ItemOutcome.itemId r.outcomes).map (ItemOutcome.reread env.floats)
        elapsedS := elapsedIn (metricsColumn env q r)
        quality := []
        judgeModel := none
        judgeUnavailable := 0
        itemsExcluded := 0 } := by
  obtain ⟨⟨p, hp⟩, -, -⟩ := run_ok h
  unfold load
  rw [get_run h, loadOutcomes_run h]
  simp only [Option.filter, finished, RunCall.runningRow, decide_true, if_true, Option.map_some]
  subst hp
  rfl

/-! ## The round trip -/

/-- A loaded run that is the one that was returned, up to the order of the outcomes and the
elapsed time. -/
structure RoundTrip (r loaded : EvalRun) : Prop where
  gate : loaded.toEvalRun = r.toEvalRun
  cassetteSha : loaded.cassetteSha = r.cassetteSha
  itemsExcluded : loaded.itemsExcluded = r.itemsExcluded
  judgeUnavailable : loaded.judgeUnavailable = r.judgeUnavailable
  judgeModel : loaded.judgeModel = r.judgeModel
  quality : loaded.quality = r.quality
  outcomes : loaded.outcomes.Perm r.outcomes

/-- What `load` gives back has no quality metrics. -/
theorem quality_load {runId tenantId : Uuid} {withOutcomes : Bool} {loaded : EvalRun}
    (h : load db tenantId runId withOutcomes = some loaded) : loaded.quality = [] := by
  obtain ⟨row, -, rfl⟩ := Option.map_eq_some_iff.mp h
  rfl

/-- What `run` returns has them, if only to say that none was measured. -/
theorem quality_run (h : run env q db stamp = (db', .ok r)) : r.quality ≠ [] := by
  obtain ⟨⟨p, rfl⟩, -, -⟩ := run_ok h
  intro hquality
  have hkeys := QualityMetrics.keys_aggregate env.floats (p.outcomes.filterMap ItemOutcome.metrics)
  rw [show QualityMetrics.aggregate env.floats (p.outcomes.filterMap ItemOutcome.metrics) = [] from
    hquality] at hkeys
  cases hkeys

/-- A run that is loaded, then or later, agrees with the one that was returned on what the gate
reads, and is never the one that was returned. -/
theorem load_never_round_trips (h : run env q db stamp = (db', .ok r)) :
    (∃ loaded, load db' q.tenantId r.id true = some loaded ∧
      loaded.toEvalRun = r.toEvalRun ∧ loaded.cassetteSha = r.cassetteSha) ∧
      ∀ later loaded, load later q.tenantId r.id true = some loaded → ¬ RoundTrip r loaded := by
  refine ⟨⟨_, load_run h, rfl, rfl⟩, ?_⟩
  intro later loaded hloaded htrip
  exact quality_run h (htrip.quality.symm.trans (quality_load hloaded))

theorem load_never_round_trips_first :
    ∃ db' r, run releaseEnv (scoring (.ok ["c_0123ab"])) noRuns firstRun = (db', .ok r) ∧
      (∃ loaded, load db' 1 r.id true = some loaded ∧ loaded.toEvalRun = r.toEvalRun ∧
        loaded.cassetteSha = r.cassetteSha) ∧
      ∀ later loaded, load later 1 r.id true = some loaded → ¬ RoundTrip r loaded := by
  have hok : (run releaseEnv (scoring (.ok ["c_0123ab"])) noRuns firstRun).2.toOption.isSome =
      true := by decide +kernel
  obtain ⟨r, hr⟩ := Option.isSome_iff_exists.mp hok
  have hrun : run releaseEnv (scoring (.ok ["c_0123ab"])) noRuns firstRun = (_, .ok r) :=
    Prod.ext rfl (toOption_eq_some.mp hr)
  exact ⟨_, r, hrun, load_never_round_trips hrun⟩

/-- The run has eight entries of quality metrics; the loaded one has none. -/
theorem load_loses_quality :
    ∃ db' r loaded, run releaseEnv (scoring (.ok ["c_0123ab"])) noRuns firstRun = (db', .ok r) ∧
      load db' 1 r.id true = some loaded ∧ ¬ RoundTrip r loaded := by
  have hfacts : (run releaseEnv (scoring (.ok ["c_0123ab"])) noRuns firstRun).2.toOption.map
      (fun r => (r.id, r.quality.length)) = some (7, 8) := by decide +kernel
  have hloaded : (load (run releaseEnv (scoring (.ok ["c_0123ab"])) noRuns firstRun).1 1 7 true).map
      (fun r => r.quality.length) = some 0 := by decide +kernel
  obtain ⟨r, hr, hquality⟩ := Option.map_eq_some_iff.mp hfacts
  obtain ⟨loaded, hload, hnone⟩ := Option.map_eq_some_iff.mp hloaded
  obtain ⟨hid, hlength⟩ := Prod.ext_iff.mp hquality
  simp only at hid hlength
  refine ⟨_, r, loaded, Prod.ext rfl (toOption_eq_some.mp hr), hid ▸ hload, ?_⟩
  intro htrip
  rw [htrip.quality, hlength] at hnone
  cases hnone

end AgenticPlatform.Gates.Runner
