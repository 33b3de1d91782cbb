import AgenticPlatform.Gates.ReadYourWrites

/-!
# What the baselines point to

A promotion names a run and, beside it, a dataset; nothing compares the two. It reads the
baseline in one transaction and replaces it in another; nothing compares it again. So a
baseline belongs to its dataset exactly as long as every promotion that gets through names
the dataset of its run, and the gate has the last word as long as no promotion comes
between another one's reading of the baseline and its replacing it.
-/
namespace AgenticPlatform.Gates
open AgenticPlatform.Foundation AgenticPlatform.Identity AgenticPlatform.Db
  AgenticPlatform.Governance
open AgenticPlatform.Correctness (sampleTenant)

/-! ## Whose runs -/

/-- The run of an id was made on a version of this name. -/
def MadeOn (s : EvalState) (runId tenantId : Uuid) (name : String) : Prop :=
  ∃ r ∈ s.runs.rows, r.id = runId ∧ ∃ d ∈ s.db.datasets.rows, d.id = r.datasetId ∧
    d.isOf tenantId name

instance (s : EvalState) (runId tenantId : Uuid) (name : String) :
    Decidable (MadeOn s runId tenantId name) :=
  inferInstanceAs (Decidable (∃ r ∈ s.runs.rows, _))

/-- Every baseline is a run on a version of the name it stands under. -/
def BaselinesOwn (s : EvalState) : Prop :=
  ∀ b ∈ s.baselines.rows, MadeOn s b.evalRunId b.tenantId b.datasetName

/-- A pointer that is moved is moved to a run of the dataset the request names. -/
def namesOwnDataset (s : EvalState) : EvalAct → Prop
  | .move n _ =>
    match s.promotions n with
    | some (.judged q _) => q.runId ∈ s.runs.keys → MadeOn s q.runId q.tenantId q.dataset
    | _ => True
  | _ => True

instance (s : EvalState) : ∀ a : EvalAct, Decidable (namesOwnDataset s a)
  | .move n _ =>
    show Decidable (match s.promotions n with
      | some (.judged q _) => q.runId ∈ s.runs.keys → MadeOn s q.runId q.tenantId q.dataset
      | _ => True) from
    match s.promotions n with
    | some (.judged q _) =>
      inferInstanceAs (Decidable (q.runId ∈ s.runs.keys → MadeOn s q.runId q.tenantId q.dataset))
    | none | some (.loaded _ _) => isTrue trivial
  | .save _ _ | .startEval _ _ _ _ _ _ | .finishEval _ _ _ _ _ _ _ | .load _ _ | .judge _ |
      .retention _ _ _ =>
    isTrue trivial

/-- Runs and versions that are still there, whatever else has changed. -/
theorem madeOn_of_kept {s t : EvalState} {runId tenantId : Uuid} {name : String}
    (h : MadeOn s runId tenantId name)
    (hruns : ∀ r ∈ s.runs.rows, r.id = runId → ∃ r' ∈ t.runs.rows, r'.id = r.id ∧
      r'.datasetId = r.datasetId)
    (hdatasets : ∀ r ∈ s.runs.rows, r.id = runId → ∀ d ∈ s.db.datasets.rows, d.id = r.datasetId →
      ∃ d' ∈ t.db.datasets.rows, SameVersion d d') : MadeOn t runId tenantId name := by
  obtain ⟨r, hr, hid, d, hd, hdid, hof⟩ := h
  obtain ⟨r', hr', hrid, hrdataset⟩ := hruns r hr hid
  obtain ⟨d', hd', hsame⟩ := hdatasets r hr hid d hd hdid
  exact ⟨r', hr', hrid.trans hid, d', hd', hsame.id.symm.trans (hdid.trans hrdataset.symm),
    (hsame.isOf _ _).mp hof⟩

/-- A save keeps the versions that are there. -/
theorem sameVersion_of_save {env : DatasetEnv} {db db' : GoldenDb} {g : SaveStamp} {q : SaveRequest}
    {d : Dataset} (h : save env db g q = .ok (db', d)) :
    ∀ r ∈ db.datasets.rows, ∃ r' ∈ db'.datasets.rows, SameVersion r r' := by
  intro r hr
  rcases save_versions h with ⟨-, hsame⟩ | ⟨-, hrows⟩
  · exact hsame.forth r hr
  · exact ⟨r, hrows ▸ List.mem_append_left _ hr, .refl r⟩

/-- The pass keeps the runs that are baselines, and the versions that have runs. -/
theorem madeOn_retention {s : EvalState} {now : Time} {days : Nat} {newest : DatasetRow → Uuid}
    {b : BaselineRow} (hb : b ∈ s.baselines.rows)
    (h : MadeOn s b.evalRunId b.tenantId b.datasetName) :
    MadeOn (enforceRetention s now days newest) b.evalRunId b.tenantId b.datasetName := by
  have hrun : ∀ r ∈ s.runs.rows, r.id = b.evalRunId →
      r ∈ (enforceRetention s now days newest).runs.rows := by
    intro r hr hid
    refine Table.mem_deleteWhere.mpr ⟨hr, ?_⟩
    rintro ⟨-, hnone⟩
    exact hnone b hb hid.symm
  refine madeOn_of_kept h ?_ ?_
  · intro r hr hid
    exact ⟨r, hrun r hr hid, rfl, rfl⟩
  · intro r hr hid d hd hdid
    refine ⟨d, Table.mem_deleteWhere.mpr ⟨hd, ?_⟩, .refl d⟩
    rintro ⟨-, hnone, -⟩
    exact hnone r (hrun r hr hid) hdid.symm

/-- Steps that move no pointer, and lose no run and no version a baseline rests on. -/
theorem baselinesOwn_of_kept {s t : EvalState} (h : BaselinesOwn s)
    (hbaselines : t.baselines = s.baselines)
    (hkept : ∀ b ∈ s.baselines.rows, MadeOn s b.evalRunId b.tenantId b.datasetName →
      MadeOn t b.evalRunId b.tenantId b.datasetName) : BaselinesOwn t := by
  intro b hb
  rw [hbaselines] at hb
  exact hkept b hb (h b hb)

theorem baselinesOwn_step {env : EvalEnv} {s t : EvalState} {a : EvalAct} (h : BaselinesOwn s)
    (hstep : evalStep env s a = some t) : BaselinesOwn t ↔ namesOwnDataset s a := by
  cases a with
  | save g q =>
    refine iff_of_true ?_ trivial
    simp only [evalStep] at hstep
    split at hstep
    · rename_i db' d hsave
      cases hstep
      refine baselinesOwn_of_kept h rfl (fun b _ hmade => madeOn_of_kept hmade ?_ ?_)
      · exact fun r hr _ => ⟨r, hr, rfl, rfl⟩
      · exact fun _ _ _ d' hd' _ => sameVersion_of_save hsave d' hd'
    · cases hstep
    · cases hstep
      exact h
  | startEval now runId datasetId codeRev modelId cassetteSha =>
    refine iff_of_true ?_ trivial
    simp only [evalStep] at hstep
    split at hstep
    · split at hstep
      · obtain ⟨runs, hins, rfl⟩ := Option.map_eq_some_iff.mp hstep
        refine baselinesOwn_of_kept h rfl (fun b _ hmade => madeOn_of_kept hmade ?_ ?_)
        · exact fun r hr _ =>
            ⟨r, (Table.tryInsert_eq_some hins).2 ▸ List.mem_append_left _ hr, rfl, rfl⟩
        · exact fun _ _ _ d hd _ => ⟨d, hd, .refl d⟩
      · cases hstep
    · cases hstep
  | finishEval now runId passRate retrievalRecall itemsRun itemsScoreable metrics =>
    refine iff_of_true ?_ trivial
    cases hstep
    refine baselinesOwn_of_kept h rfl (fun b _ hmade => madeOn_of_kept hmade ?_ ?_)
    · intro r hr _
      refine ⟨_, List.mem_map_of_mem hr, ?_⟩
      unfold Table.rewrite
      split <;> exact ⟨rfl, rfl⟩
    · exact fun _ _ _ d hd _ => ⟨d, hd, .refl d⟩
  | load n q =>
    refine iff_of_true ?_ trivial
    simp only [evalStep] at hstep
    split at hstep
    · obtain ⟨candidate, -, rfl⟩ := Option.map_eq_some_iff.mp hstep
      exact h
    · cases hstep
  | judge n =>
    refine iff_of_true ?_ trivial
    simp only [evalStep] at hstep
    split at hstep
    · cases hstep
      exact h
    · cases hstep
  | move n now =>
    simp only [evalStep] at hstep
    split at hstep
    · rename_i q decision hn
      cases hstep
      simp only [namesOwnDataset, hn]
      cases hmove : movePointer s.runs s.baselines now q with
      | none =>
        -- the run is gone, and the pointer stays
        exact iff_of_true h (fun hthere => absurd hthere (movePointer_eq_none hmove))
      | some baselines' =>
        constructor
        · intro hown _
          exact hown (promotedRow now q) ((mem_movePointer hmove).mpr (Or.inr rfl))
        · intro hnamed b hb
          rcases (mem_movePointer hmove).mp hb with ⟨hb, -⟩ | rfl
          · exact h b hb
          · refine hnamed ?_
            by_contra hgone
            simp [movePointer, promotedRow, hgone] at hmove
    · cases hstep
  | retention now days newest =>
    refine iff_of_true ?_ trivial
    simp only [evalStep] at hstep
    split at hstep
    · cases hstep
      exact baselinesOwn_of_kept h rfl (fun b hb hmade => madeOn_retention hb hmade)
    · cases hstep

/-- Along a run of evaluations of any datasets and promotions of any runs under any names,
forced or not, every baseline belongs to its dataset exactly where every promotion that
moves a pointer names the dataset of its run. -/
theorem baselines_belong_iff {env : EvalEnv} {acts : List EvalAct} {s : EvalState}
    (h : Reaches (evalStep env) .initial acts s) :
    Throughout (evalStep env) BaselinesOwn .initial acts ↔
      Reaches (restrict namesOwnDataset (evalStep env)) .initial acts s := by
  have hstart : BaselinesOwn .initial := fun b hb => absurd hb List.not_mem_nil
  exact throughout_iff_restrict (fun _ _ _ hs ht => baselinesOwn_step hs ht) hstart h

def ownerAlice : Principal := ⟨3, sampleTenant, "alice", [.owner]⟩

/-- A promotion with the default tolerances and without force. -/
def promoteRun (runId : Uuid) (dataset : String) : PromoteRequest :=
  ⟨ownerAlice, runId, dataset, none, false, .default⟩

/-- All steps of one promotion. -/
def promoting (n : Nat) (now : Time) (runId : Uuid) (dataset : String) : List EvalAct :=
  [.load n (promoteRun runId dataset), .judge n, .move n now]

/-- A version of a name, with one item. -/
def saveNamed (now : Time) (id : Uuid) (name : String) : EvalAct :=
  .save ⟨now, id, id⟩ ⟨1, 3, name, "manuals", [(voltageItem "230 V").toDict]⟩

/-- An evaluation of ten items, with this recall. -/
def evaluated (runId datasetId : Uuid) (retrievalRecall : ℚ) : List EvalAct :=
  [.startEval 1 runId datasetId "r1" "m1" none,
    .finishEval 2 runId none (some retrievalRecall) 10 10 .emptyObj]

/-- Two names, a run on the first, and its promotion under its own name. -/
def promotedAtHome : List EvalAct :=
  [saveNamed 0 1 "safety", saveNamed 0 2 "wiring"] ++ evaluated 50 1 (9 / 10) ++
    promoting 0 3 50 "safety"

theorem promotedAtHome_run :
    (promotedAtHome.foldlM (restrict namesOwnDataset (evalStep voltageEnv)) .initial).map
      (fun s => s.baselines.rows.map BaselineRow.evalRunId) = some [50] := by
  decide +kernel

/-- The result at that run. -/
theorem baselines_belong_promotedAtHome :
    ∃ s, Reaches (evalStep voltageEnv) .initial promotedAtHome s ∧
      s.baselines.rows.map BaselineRow.evalRunId = [50] ∧
      Throughout (evalStep voltageEnv) BaselinesOwn .initial promotedAtHome := by
  obtain ⟨s, hrun, hrows⟩ := Option.map_eq_some_iff.mp promotedAtHome_run
  have hreach : Reaches (evalStep voltageEnv) .initial promotedAtHome s := Reaches.of_restrict hrun
  exact ⟨s, hreach, hrows, (baselines_belong_iff hreach).mpr hrun⟩

/-- The same run promoted under the other name. -/
def promotedElsewhere : List EvalAct :=
  [saveNamed 0 1 "safety", saveNamed 0 2 "wiring"] ++ evaluated 50 1 (9 / 10) ++
    promoting 0 3 50 "wiring"

theorem promotedElsewhere_run :
    (promotedElsewhere.foldlM (evalStep voltageEnv) .initial).map (fun s =>
      (s.baselines.rows.map (fun b => (b.datasetName, b.evalRunId)),
          decide (∀ b ∈ s.baselines.rows, MadeOn s b.evalRunId b.tenantId b.datasetName))) =
          some ([("wiring", 50)], false) := by
  decide +kernel

theorem baseline_of_another_dataset :
    ∃ s, Reaches (evalStep voltageEnv) .initial promotedElsewhere s ∧
      s.baselines.rows.map (fun b => (b.datasetName, b.evalRunId)) = [("wiring", 50)] ∧
      ¬ BaselinesOwn s := by
  obtain ⟨s, hrun, hfacts⟩ := Option.map_eq_some_iff.mp promotedElsewhere_run
  obtain ⟨hrows, hown⟩ := Prod.ext_iff.mp hfacts
  refine ⟨s, hrun, hrows, ?_⟩
  unfold BaselinesOwn
  exact of_decide_eq_false hown

/-! ## What a pointer is moved past -/

/-- A pointer goes from one run to another only where the gate, asked about these two with
the tolerances of the request, lets it; so that no metric falls by more than that. -/
def MovesOnPass (env : EvalEnv) (s : EvalState) (a : EvalAct) (t : EvalState) : Prop :=
  ∀ tenantId name b c, baselineRun s.runs s.baselines tenantId name = some b →
    baselineRun t.runs t.baselines tenantId name = some c → b.id ≠ c.id →
    ∃ n now q decision, a = .move n now ∧ s.promotions n = some (.judged q decision) ∧
      (evaluate env.gate q.tolerances c (some b)).promoted = true ∧
      Holds env.gate q.tolerances.recallTolerance b.retrievalRecall c.retrievalRecall ∧
      Holds env.gate q.tolerances.passRateTolerance b.answerPassRate c.answerPassRate

/-- Promotions are unforced, and the baseline is the one the promotion was judged against
when the pointer is moved. -/
def baselineAsJudged (s : EvalState) : EvalAct → Prop
  | .load _ q => q.force = false
  | .move n _ =>
    match s.promotions n with
    | some (.judged q decision) =>
      baselineRun s.runs s.baselines q.tenantId q.dataset = decision.baseline
    | _ => True
  | _ => True

instance (s : EvalState) : ∀ a : EvalAct, Decidable (baselineAsJudged s a)
  | .load _ q => inferInstanceAs (Decidable (q.force = false))
  | .move n _ =>
    show Decidable (match s.promotions n with
      | some (.judged q decision) =>
        baselineRun s.runs s.baselines q.tenantId q.dataset = decision.baseline
      | _ => True) from
    match s.promotions n with
    | some (.judged q decision) =>
      inferInstanceAs
        (Decidable (baselineRun s.runs s.baselines q.tenantId q.dataset = decision.baseline))
    | none | some (.loaded _ _) => isTrue trivial
  | .save _ _ | .startEval _ _ _ _ _ _ | .finishEval _ _ _ _ _ _ _ | .judge _ | .retention _ _ _ =>
    isTrue trivial

/-- What a promotion under way holds: the run is as it was loaded, unless it had no results. -/
def CandidateOk (s : EvalState) (q : PromoteRequest) (candidate : EvalRun) : Prop :=
  q.force = false ∧ q.runId ∈ s.runIds ∧
    ∀ r ∈ s.runs.rows, r.id = q.runId → r.evalRun = candidate ∨ candidate.itemsRun = 0

structure PromotionInv (env : EvalEnv) (s : EvalState) : Prop where
  issued : ∀ r ∈ s.runs.rows, r.id ∈ s.runIds
  running : ∀ r ∈ s.runs.rows, r.status = .running → r.itemsRun = 0
  loaded : ∀ n q candidate, s.promotions n = some (.loaded q candidate) → CandidateOk s q candidate
  judged : ∀ n q decision, s.promotions n = some (.judged q decision) →
    ∃ candidate, CandidateOk s q candidate ∧
    decision = evaluate env.gate q.tolerances candidate decision.baseline ∧ decision.promoted = true

theorem promotionInv_initial (env : EvalEnv) : PromotionInv env .initial where
  issued _ hr := absurd hr List.not_mem_nil
  running _ hr := absurd hr List.not_mem_nil
  loaded _ _ _ h := by cases h
  judged _ _ _ h := by cases h

/-- A candidate stays what it is where runs with results are left as they are. -/
theorem CandidateOk.of_rows {s t : EvalState} {q : PromoteRequest} {candidate : EvalRun}
    (h : CandidateOk s q candidate) (hissued : ∀ id ∈ s.runIds, id ∈ t.runIds)
    (hrows : ∀ r' ∈ t.runs.rows, r'.id ∈ s.runIds → ∃ r ∈ s.runs.rows, r.id = r'.id ∧
      (r'.evalRun = r.evalRun ∨ r.itemsRun = 0)) : CandidateOk t q candidate := by
  obtain ⟨hforce, hid, hsame⟩ := h
  refine ⟨hforce, hissued _ hid, ?_⟩
  intro r' hr' hrid
  obtain ⟨r, hr, hrr, hrun⟩ := hrows r' hr' (hrid ▸ hid)
  rcases hsame r hr (hrr.trans hrid) with rfl | hzero
  · exact hrun
  · exact Or.inr hzero

theorem promotionInv_of_rows {env : EvalEnv} {s t : EvalState} (h : PromotionInv env s)
    (hpromotions : t.promotions = s.promotions) (hissued : ∀ id ∈ s.runIds, id ∈ t.runIds)
    (hrows : ∀ r' ∈ t.runs.rows, r'.id ∈ s.runIds → ∃ r ∈ s.runs.rows, r.id = r'.id ∧
      (r'.evalRun = r.evalRun ∨ r.itemsRun = 0))
    (hids : ∀ r ∈ t.runs.rows, r.id ∈ t.runIds)
    (hrunning : ∀ r ∈ t.runs.rows, r.status = .running → r.itemsRun = 0) : PromotionInv env t where
  issued := hids
  running := hrunning
  loaded n q candidate hn := (h.loaded n q candidate (hpromotions ▸ hn)).of_rows hissued hrows
  judged n q decision hn := by
    obtain ⟨candidate, hok, hrest⟩ := h.judged n q decision (hpromotions ▸ hn)
    exact ⟨candidate, hok.of_rows hissued hrows, hrest⟩

/-- Steps that leave the runs to themselves: what a promotion holds may change. -/
theorem promotionInv_setPromotion {env : EvalEnv} {s : EvalState} {n : Nat} {x : Option Promotion}
    (h : PromotionInv env s) {baselines : BaselineTable}
    (hloaded : ∀ q candidate, x = some (.loaded q candidate) → CandidateOk s q candidate)
    (hjudged : ∀ q decision, x = some (.judged q decision) →
      ∃ candidate, CandidateOk s q candidate ∧
      decision = evaluate env.gate q.tolerances candidate decision.baseline ∧
      decision.promoted = true) :
    PromotionInv env
      { s with promotions := Function.update s.promotions n x, baselines := baselines } where
  issued := h.issued
  running := h.running
  loaded m q candidate hm := by
    rcases update_cases hm with ⟨-, hx⟩ | ⟨-, hm⟩
    · exact hloaded q candidate hx
    · exact h.loaded m q candidate hm
  judged m q decision hm := by
    rcases update_cases hm with ⟨-, hx⟩ | ⟨-, hm⟩
    · exact hjudged q decision hx
    · exact h.judged m q decision hm

theorem evaluate_baseline (env : GateEnv) (tolerances : Tolerances) (candidate : EvalRun)
    (baseline : Option EvalRun) :
    (evaluate env tolerances candidate baseline).baseline = baseline := by
  cases baseline with
  | none => rfl
  | some base =>
    simp only [evaluate]
    split <;> rfl

theorem promotionInv_startEval {env : EvalEnv} {s : EvalState} {now : Time} {runId : Uuid}
    {d : DatasetRow} {codeRev modelId : String} {cassetteSha : Option String} {runs : EvalRunTable}
    (h : PromotionInv env s) (hfresh : runId ∉ s.runIds)
    (hins : s.runs.tryInsert (startedRun now runId d codeRev modelId cassetteSha) = some runs) :
    PromotionInv env { s with runs := runs, runIds := runId :: s.runIds } := by
  have hmem : ∀ r ∈ runs.rows, r ∈ s.runs.rows ∨
      r = startedRun now runId d codeRev modelId cassetteSha := by
    intro r hr
    rw [(Table.tryInsert_eq_some hins).2, List.mem_append, List.mem_singleton] at hr
    exact hr
  refine promotionInv_of_rows h rfl (fun id hid => List.mem_cons_of_mem runId hid) ?_ ?_ ?_
  · intro r hr hid
    rcases hmem r hr with hr | rfl
    · exact ⟨r, hr, rfl, Or.inl rfl⟩
    · exact absurd hid hfresh
  · intro r hr
    rcases hmem r hr with hr | rfl
    · exact List.mem_cons_of_mem runId (h.issued r hr)
    · exact List.mem_cons_self
  · intro r hr hstatus
    rcases hmem r hr with hr | rfl
    · exact h.running r hr hstatus
    · rfl

theorem promotionInv_finishEval {env : EvalEnv} {s : EvalState} {now : Time} {runId : Uuid}
    {passRate retrievalRecall : Option ℚ} {itemsRun itemsScoreable : Nat} {metrics : Json}
    (h : PromotionInv env s) : PromotionInv env { s with
      runs := s.runs.updateWhere (fun r => r.id = runId ∧ r.status = .running)
          (finished now passRate retrievalRecall itemsRun itemsScoreable metrics)
          (fun _ => rfl) } := by
  have hkey : ∀ r : EvalRunRow,
      (finished now passRate retrievalRecall itemsRun itemsScoreable metrics r).id = r.id :=
    fun _ => rfl
  refine promotionInv_of_rows h rfl (fun id hid => hid) ?_ ?_ ?_
  · intro r' hr' _
    rcases Table.mem_updateWhere hkey hr' with ⟨hr, -⟩ | ⟨r, hr, hp, rfl⟩
    · exact ⟨r', hr, rfl, Or.inl rfl⟩
    · -- a run has no results until it finishes
      exact ⟨r, hr, rfl, Or.inr (h.running r hr hp.2)⟩
  · intro r' hr'
    rcases Table.mem_updateWhere hkey hr' with ⟨hr, -⟩ | ⟨r, hr, -, rfl⟩
    · exact h.issued r' hr
    · exact h.issued r hr
  · intro r' hr' hstatus
    rcases Table.mem_updateWhere hkey hr' with ⟨hr, -⟩ | ⟨r, hr, -, rfl⟩
    · exact h.running r' hr hstatus
    · cases hstatus

theorem promotionInv_step {env : EvalEnv} {s t : EvalState} {a : EvalAct} (h : PromotionInv env s)
    (hcond : baselineAsJudged s a) (hstep : evalStep env s a = some t) : PromotionInv env t := by
  cases a with
  | save g q =>
    simp only [evalStep] at hstep
    split at hstep
    · cases hstep
      exact ⟨h.issued, h.running, h.loaded, h.judged⟩
    · cases hstep
    · cases hstep
      exact h
  | startEval now runId datasetId codeRev modelId cassetteSha =>
    simp only [evalStep] at hstep
    split at hstep
    · split at hstep
      · obtain ⟨runs, hins, rfl⟩ := Option.map_eq_some_iff.mp hstep
        exact promotionInv_startEval h ‹_› hins
      · cases hstep
    · cases hstep
  | finishEval now runId passRate retrievalRecall itemsRun itemsScoreable metrics =>
    cases hstep
    exact promotionInv_finishEval h
  | load n q =>
    simp only [evalStep] at hstep
    split at hstep
    · obtain ⟨candidate, hload, rfl⟩ := Option.map_eq_some_iff.mp hstep
      obtain ⟨r, hr, hid, -, rfl⟩ := loadRun_eq_some.mp hload
      refine promotionInv_setPromotion h ?_ (fun _ _ he => by cases he)
      intro q' candidate' he
      cases he
      refine ⟨hcond, hid ▸ h.issued r hr, ?_⟩
      intro r' hr' hid'
      rw [Table.eq_of_key hr' hr (hid'.trans hid.symm)]
      exact Or.inl rfl
    · cases hstep
  | judge n =>
    simp only [evalStep] at hstep
    split at hstep
    · rename_i q candidate hn
      cases hstep
      have hok := h.loaded n q candidate hn
      refine promotionInv_setPromotion h ?_ ?_
      · intro q' candidate' he
        split at he <;> cases he
      · intro q' decision he
        split at he
        · rename_i hgranted
          cases he
          refine ⟨candidate, hok, by rw [evaluate_baseline], ?_⟩
          simp only [hok.1, Bool.or_false, Bool.and_eq_true] at hgranted
          exact hgranted.2
        · cases he
    · cases hstep
  | move n now =>
    simp only [evalStep] at hstep
    split at hstep
    · cases hstep
      exact promotionInv_setPromotion h (fun _ _ he => by cases he) (fun _ _ he => by cases he)
    · cases hstep
  | retention now days newest =>
    simp only [evalStep] at hstep
    split at hstep
    · cases hstep
      have hsub : ∀ r ∈ (enforceRetention s now days newest).runs.rows, r ∈ s.runs.rows :=
        fun r hr => (Table.mem_deleteWhere.mp hr).1
      exact promotionInv_of_rows h rfl (fun id hid => hid)
        (fun r hr _ => ⟨r, hsub r hr, rfl, Or.inl rfl⟩)
        (fun r hr => h.issued r (hsub r hr)) (fun r hr => h.running r (hsub r hr))
    · cases hstep

theorem baselineRun_eq_some {runs : EvalRunTable} {baselines : BaselineTable} {tenantId : Uuid}
    {name : String} {x : EvalRun} :
    baselineRun runs baselines tenantId name = some x ↔
      ∃ b ∈ baselines.rows, b.key = (tenantId, name) ∧
      loadRun runs tenantId b.evalRunId = some x := by
  simp only [baselineRun, Option.bind_eq_some_iff, Table.get_eq_some, and_assoc]

theorem id_of_loadRun {runs : EvalRunTable} {tenantId runId : Uuid} {x : EvalRun}
    (h : loadRun runs tenantId runId = some x) : x.id = runId := by
  obtain ⟨r, -, hid, -, rfl⟩ := loadRun_eq_some.mp h
  exact hid

/-- Where the rows of a name are the same, the pointer has not moved. -/
theorem id_of_same_pointer {runs runs' : EvalRunTable} {baselines baselines' : BaselineTable}
    {tenantId : Uuid} {name : String} {b c : EvalRun}
    (hb : baselineRun runs baselines tenantId name = some b)
    (hc : baselineRun runs' baselines' tenantId name = some c)
    (hsame : ∀ row ∈ baselines'.rows, row.key = (tenantId, name) → row ∈ baselines.rows) :
    b.id = c.id := by
  obtain ⟨row, hrow, hkey, hload⟩ := baselineRun_eq_some.mp hb
  obtain ⟨row', hrow', hkey', hload'⟩ := baselineRun_eq_some.mp hc
  have he := Table.eq_of_key hrow (hsame row' hrow' hkey') (hkey.trans hkey'.symm)
  rw [id_of_loadRun hload, id_of_loadRun hload', he]

theorem movesOnPass_of_kept {env : EvalEnv} {s t : EvalState} {a : EvalAct}
    (h : t.baselines = s.baselines) : MovesOnPass env s a t := by
  intro tenantId name b c hb hc hne
  exact absurd (id_of_same_pointer hb hc (fun row hrow _ => h ▸ hrow)) hne

theorem movesOnPass_step {env : EvalEnv} {s t : EvalState} {a : EvalAct} (h : PromotionInv env s)
    (hcond : baselineAsJudged s a) (hstep : evalStep env s a = some t) : MovesOnPass env s a t := by
  cases a with
  | move n now =>
    simp only [evalStep] at hstep
    split at hstep
    · rename_i q decision hn
      cases hstep
      cases hmove : movePointer s.runs s.baselines now q with
      | none => exact movesOnPass_of_kept rfl
      | some baselines' =>
        intro tenantId name b c hb hc hne
        by_cases hname : (promotedRow now q).key = (tenantId, name)
        · cases hname
          obtain ⟨row, hrow, hkey, hload⟩ := baselineRun_eq_some.mp hc
          -- the row of this name is the one just written
          have hwritten : row = promotedRow now q := by
            rcases (mem_movePointer hmove).mp hrow with ⟨-, hother⟩ | hwritten
            · exact absurd hkey hother
            · exact hwritten
          rw [hwritten] at hload
          obtain ⟨r, hr, hid, -, rfl⟩ := loadRun_eq_some.mp hload
          obtain ⟨candidate, ⟨hforce, -, hsame⟩, hdecision, hpromoted⟩ := h.judged n q decision hn
          have hjudged : baselineRun s.runs s.baselines q.tenantId q.dataset =
              decision.baseline := by
            simpa only [baselineAsJudged, hn] using hcond
          have hpass : (evaluate env.gate q.tolerances candidate (some b)).promoted = true := by
            have hb' : baselineRun s.runs s.baselines q.tenantId q.dataset = some b := hb
            rw [← hb', hjudged, ← hdecision]
            exact hpromoted
          have hcandidate : r.evalRun = candidate := by
            rcases hsame r hr hid with he | hzero
            · exact he
            · exact absurd hzero (vacuous_eq_nil.mp (vacuous_of_promoted hpass)).1
          rw [hcandidate]
          obtain ⟨-, -, -, hrecall, hpassRate⟩ := promoted_iff.mp hpass
          exact ⟨n, now, q, decision, rfl, hn, hpass, hrecall, hpassRate⟩
        · refine absurd (id_of_same_pointer hb hc ?_) hne
          intro row hrow hkey
          rcases (mem_movePointer hmove).mp hrow with ⟨hold, -⟩ | rfl
          · exact hold
          · exact absurd hkey hname
    · cases hstep
  | save g q =>
    simp only [evalStep] at hstep
    split at hstep <;> cases hstep <;> exact movesOnPass_of_kept rfl
  | startEval now runId datasetId codeRev modelId cassetteSha =>
    simp only [evalStep] at hstep
    split at hstep
    · split at hstep
      · obtain ⟨runs, -, rfl⟩ := Option.map_eq_some_iff.mp hstep
        exact movesOnPass_of_kept rfl
      · cases hstep
    · cases hstep
  | finishEval now runId passRate retrievalRecall itemsRun itemsScoreable metrics =>
    cases hstep
    exact movesOnPass_of_kept rfl
  | load n q =>
    simp only [evalStep] at hstep
    split at hstep
    · obtain ⟨candidate, -, rfl⟩ := Option.map_eq_some_iff.mp hstep
      exact movesOnPass_of_kept rfl
    · cases hstep
  | judge n =>
    simp only [evalStep] at hstep
    split at hstep <;> cases hstep
    exact movesOnPass_of_kept rfl
  | retention now days newest =>
    simp only [evalStep] at hstep
    split at hstep <;> cases hstep
    exact movesOnPass_of_kept rfl

/-- Along a run of unforced promotions, other transactions in between, in which no pointer
has moved since the promotion that moves it was judged, every move passes the gate. -/
theorem moves_pass_of_baselineAsJudged {env : EvalEnv} {acts : List EvalAct} {s : EvalState}
    (h : Reaches (restrict baselineAsJudged (evalStep env)) .initial acts s) :
    EveryStep (evalStep env) (MovesOnPass env) .initial acts := by
  have hinv : ∀ s a t, PromotionInv env s → baselineAsJudged s a → evalStep env s a = some t →
      PromotionInv env t :=
    fun _ _ _ => promotionInv_step
  exact h.everyStep hinv (fun _ _ _ => movesOnPass_step) (promotionInv_initial env)

/-- A baseline of recall 0.8, and two runs to be promoted after it. -/
def twoCandidates : List EvalAct :=
  saveNamed 0 1 "safety" :: (evaluated 50 1 (8 / 10) ++ promoting 0 3 50 "safety") ++
    (evaluated 51 1 (95 / 100) ++ evaluated 52 1 (79 / 100))

/-- The better one is promoted after the other one. -/
def oneAfterAnother : List EvalAct :=
  twoCandidates ++ (promoting 1 4 52 "safety" ++ promoting 2 5 51 "safety")

theorem oneAfterAnother_run :
    (oneAfterAnother.foldlM (restrict baselineAsJudged (evalStep voltageEnv)) .initial).map
      (fun s => s.baselines.rows.map BaselineRow.evalRunId) = some [51] := by
  decide +kernel

/-- The result at that run, which moves the pointer three times. -/
theorem moves_pass_oneAfterAnother :
    ∃ s, Reaches (evalStep voltageEnv) .initial oneAfterAnother s ∧
      s.baselines.rows.map BaselineRow.evalRunId = [51] ∧
      EveryStep (evalStep voltageEnv) (MovesOnPass voltageEnv) .initial oneAfterAnother := by
  obtain ⟨s, hrun, hrows⟩ := Option.map_eq_some_iff.mp oneAfterAnother_run
  exact ⟨s, Reaches.of_restrict hrun, hrows, moves_pass_of_baselineAsJudged hrun⟩

/-- Both are judged against the baseline of 0.8, and the better one moves the pointer first. -/
def bothJudged : List EvalAct :=
  twoCandidates ++ [.load 1 (promoteRun 51 "safety"), .load 2 (promoteRun 52 "safety"), .judge 1,
    .judge 2, .move 1 4]

/-- And the other one after it. -/
def lateMove : List EvalAct := bothJudged ++ [.move 2 5]

theorem bothJudged_run : (bothJudged.foldlM (evalStep voltageEnv) .initial).isSome = true := by
  decide +kernel

theorem lateMove_run : (lateMove.foldlM (evalStep voltageEnv) .initial).isSome = true := by
  decide +kernel

/-- The state before the late move, and the one after it. -/
def beforeLateMove : EvalState :=
  (bothJudged.foldlM (evalStep voltageEnv) .initial).get bothJudged_run

def afterLateMove : EvalState := (lateMove.foldlM (evalStep voltageEnv) .initial).get lateMove_run

/-- What a promotion under way tolerates. -/
def Promotion.tolerances : Promotion → Tolerances
  | .loaded q _ => q.tolerances
  | .judged q _ => q.tolerances

theorem pointer_moved_past_gate :
    Reaches (evalStep voltageEnv) .initial lateMove afterLateMove ∧
      ¬ EveryStep (evalStep voltageEnv) (MovesOnPass voltageEnv) .initial lateMove := by
  have hbefore : Reaches (evalStep voltageEnv) .initial bothJudged beforeLateMove :=
    reaches_get bothJudged_run
  have hafter : Reaches (evalStep voltageEnv) .initial lateMove afterLateMove :=
    reaches_get lateMove_run
  refine ⟨hafter, ?_⟩
  intro hevery
  obtain ⟨m, hpre, hmove⟩ := reaches_snoc.mp hafter
  cases hpre.unique hbefore
  have hpasses := hevery bothJudged (.move 2 5) [] beforeLateMove afterLateMove rfl hbefore hmove
  -- the pointer goes from 0.95 to 0.79
  have hb : (baselineRun beforeLateMove.runs beforeLateMove.baselines 1 "safety").map
      (fun x => (x.id, x.retrievalRecall)) = some (51, some (95 / 100)) := by decide +kernel
  have hc : (baselineRun afterLateMove.runs afterLateMove.baselines 1 "safety").map
      (fun x => (x.id, x.retrievalRecall)) = some (52, some (79 / 100)) := by decide +kernel
  have htolerances : (beforeLateMove.promotions 2).map Promotion.tolerances = some .default := by
    decide +kernel
  obtain ⟨b, hb, hbaseline⟩ := Option.map_eq_some_iff.mp hb
  obtain ⟨c, hc, hcandidate⟩ := Option.map_eq_some_iff.mp hc
  obtain ⟨hbid, hbrecall⟩ := Prod.ext_iff.mp hbaseline
  obtain ⟨hcid, hcrecall⟩ := Prod.ext_iff.mp hcandidate
  have hne : b.id ≠ c.id := by
    intro he
    exact absurd (hbid.symm.trans (he.trans hcid)) (by decide)
  obtain ⟨n, now, q, decision, ha, hn, -, hrecall, -⟩ := hpasses 1 "safety" b c hb hc hne
  cases ha
  rw [hn] at htolerances
  simp only [Option.map_some, Option.some.injEq, Promotion.tolerances] at htolerances
  rw [htolerances] at hrecall
  obtain ⟨v, hv, hle⟩ := hrecall _ hbrecall
  cases hcrecall.symm.trans hv
  revert hle
  decide +kernel

end AgenticPlatform.Gates
