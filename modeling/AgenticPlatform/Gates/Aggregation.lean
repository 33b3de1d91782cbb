import AgenticPlatform.Foundation.Traversal
import AgenticPlatform.Gates.Runner

/-!
# What a run adds up

Every item is graded but those a reviewer has flagged. What each callable does for an item
decides what its outcome says; the aggregates are over the items that were to be scored,
and over those the judge has graded. Two things stand in the way: a lookup of evidence that
raises ends the run, and an item whose retrieval failed is counted as one that was judged.
-/
namespace AgenticPlatform.Gates.Runner
open AgenticPlatform.Foundation AgenticPlatform.Identity AgenticPlatform.Db

/-! ## What the callables do -/

/-- The items that are not flagged, with their positions. -/
def RunCall.gradedFrom (q : RunCall) (n : Nat) (items : List EvalItem) : List (EvalItem × Nat) :=
  (items.zipIdx n).filter (fun x => !q.unusable x.1)

def RunCall.graded (q : RunCall) : List (EvalItem × Nat) := q.gradedFrom 0 q.dataset.items

/-- The recall of an item with evidence to find. -/
def RunCall.recallAt (floats : FloatEnv) (q : RunCall) (x : EvalItem × Nat) : Option ℚ :=
  if x.1.mustCite = [] then none
  else
    match q.retrieved x.2 x.1 with
    | .ok retrieved => some (floats.div (found x.1 retrieved).length x.1.mustCite.dedup.length)
    | .error _ => some 0

/-- The verdict that the judge returned on an item, and could produce. -/
def RunCall.verdictAt (q : RunCall) (x : EvalItem × Nat) : Option Judge.Verdict :=
  match q.retrieved x.2 x.1, q.answer, q.judge with
  | .ok retrieved, some answer, some judge =>
    let actual := match answer x.2 q.dataset.collection x.1 retrieved with
      | .ok actual => actual
      | .error _ => ""
    match judge x.2 x.1 actual retrieved with
    | .ok v => if v.judgeUnavailable then none else some v
    | .error _ => none
  | _, _, _ => none

/-- Nothing raises `RunCancelled`. -/
structure RunCall.Uncancelled (q : RunCall) : Prop where
  points : ∀ n, q.cancelled n = false
  retrieve : ∀ n item, q.retrieved n item ≠ .error .runCancelled
  answer : ∀ answer ∈ q.answer, ∀ n collection item retrieved,
    answer n collection item retrieved ≠ .error .runCancelled
  judge : ∀ judge ∈ q.judge, ∀ n item actual retrieved,
    judge n item actual retrieved ≠ .error .runCancelled
  evidence : ∀ evidence ∈ q.evidence, ∀ n retrieved, evidence n retrieved ≠ .error .runCancelled

/-- What a run should come to. -/
structure Aggregated (env : RunnerEnv) (q : RunCall) (r : EvalRun) : Prop where
  outcomes : r.outcomes.map (fun o => (o.itemId, o.question, o.mustCite)) =
    q.graded.map (fun x => (x.1.id, x.1.question, x.1.mustCite))
  itemsRun : r.itemsRun = q.graded.length
  excluded : r.itemsExcluded + q.graded.length = q.dataset.items.length
  retrieval : r.retrievalRecall = recallOf env.floats (q.graded.filterMap (q.recallAt env.floats))
  scoreable : (scoreable r.outcomes).map ItemOutcome.itemId =
    (q.graded.filter (fun x => x.1.mustCite ≠ [])).map (fun x => x.1.id)
  passRate : r.answerPassRate =
    passRateOf env.floats ((q.graded.filterMap q.verdictAt).map Judge.Verdict.passed)
  judged : (judged r.outcomes).map ItemOutcome.itemId =
    (q.graded.filter (fun x => (q.verdictAt x).isSome)).map (fun x => x.1.id)
  unjudged : (q.judge = none ∨ ∀ x ∈ q.graded, q.verdictAt x = none) → r.answerPassRate = none

/-- What the outcome of an item depends on is there, and its row fits. -/
structure RunCall.Clean (q : RunCall) : Prop where
  retrieve : ∀ x ∈ q.graded, ∃ retrieved, q.retrieved x.2 x.1 = .ok retrieved
  evidence : ∀ evidence ∈ q.evidence, q.answer ≠ none → ∀ x ∈ q.graded, ∀ retrieved,
    q.retrieved x.2 x.1 = .ok retrieved → ∃ texts, evidence x.2 retrieved = .ok texts
  distinct : (q.graded.map (fun x => x.1.id)).Nodup
  short : ∀ x ∈ q.graded, x.1.id.length ≤ 64

variable {env : RunnerEnv} {q : RunCall} {n : Nat} {item : EvalItem} {o : ItemOutcome}

/-! ## One item -/

theorem answered_ok (hquiet : q.Uncancelled) (n : Nat) (item : EvalItem) (retrieved : List String) :
    ∃ a, answered q n item retrieved = .ok a ∧ ∀ answer, q.answer = some answer →
      a.1 =
        match answer n q.dataset.collection item retrieved with
        | .ok actual => actual
        | .error _ => "" := by
  unfold answered
  cases hanswer : q.answer with
  | none => exact ⟨_, rfl, fun _ h => (by cases h)⟩
  | some answer =>
    simp only [Option.some.injEq, forall_eq']
    cases hcall : answer n q.dataset.collection item retrieved with
    | ok actual => exact ⟨_, rfl, rfl⟩
    | error e =>
      cases e with
      | runCancelled => exact absurd hcall (hquiet.answer answer hanswer _ _ _ _)
      | error name message => exact ⟨_, rfl, rfl⟩

/-- An outcome counts as judged where the judge's verdict is available, and then has passed as
it says. -/
theorem judgement_ok (hquiet : q.Uncancelled) (n : Nat) (item : EvalItem) (actual : String)
    (retrieved : List String) :
    ∃ j, judgement q n item actual retrieved = .ok j ∧ (if j.judgeDown then none else j.passed) =
        match q.answer, q.judge with
        | some _, some judge =>
          match judge n item actual retrieved with
          | .ok v => if v.judgeUnavailable then none else some v.passed
          | .error _ => none
        | _, _ => none := by
  unfold judgement
  cases hjudge : q.judge with
  | none => cases q.answer with
    | none => exact ⟨_, rfl, rfl⟩
    | some answer => exact ⟨_, rfl, rfl⟩
  | some judge =>
    cases q.answer with
    | none => exact ⟨_, rfl, rfl⟩
    | some answer =>
      simp only
      cases hcall : judge n item actual retrieved with
      | ok v => exact ⟨_, rfl, rfl⟩
      | error e =>
        cases e with
        | runCancelled => exact absurd hcall (hquiet.judge judge hjudge _ _ _ _)
        | error name message => exact ⟨_, rfl, rfl⟩

theorem itemMetrics_ok_iff (env : RunnerEnv) (actual : String) (retrieved : List String) :
    (∃ m, itemMetrics env q n item actual retrieved = .ok m) ↔
      ∀ evidence ∈ q.evidence, q.answer ≠ none → ∃ texts, evidence n retrieved = .ok texts := by
  unfold itemMetrics
  cases q.evidence with
  | none => simp
  | some evidence =>
    cases q.answer with
    | none => simp
    | some answer =>
      simp only [Option.mem_some_iff, forall_eq']
      cases evidence n retrieved with
      | ok texts => exact iff_of_true ⟨_, rfl⟩ (fun _ => ⟨_, rfl⟩)
      | error e =>
        refine iff_of_false ?_ ?_
        · rintro ⟨m, hm⟩
          cases hm
        · intro h
          obtain ⟨texts, htexts⟩ := h (Option.some_ne_none answer)
          cases htexts

/-- The verdict of an outcome, where the judge was there to give one. -/
def ItemOutcome.verdict (o : ItemOutcome) : Option Bool :=
  if o.judgeUnavailable then none else o.passed

/-- What the outcome of an item says. A retrieval that failed is a verdict of its own. -/
structure OutcomeOf (env : RunnerEnv) (q : RunCall) (x : EvalItem × Nat) (o : ItemOutcome) :
    Prop where
  item : (o.itemId, o.question, o.mustCite) = (x.1.id, x.1.question, x.1.mustCite)
  retrieval : o.retrievalRecall = q.recallAt env.floats x
  graded : ∀ retrieved, q.retrieved x.2 x.1 = .ok retrieved →
    o.verdict = (q.verdictAt x).map Judge.Verdict.passed
  failed : ∀ e, q.retrieved x.2 x.1 = .error e → o.verdict = some false

theorem outcomeOf {x : EvalItem × Nat} (hquiet : q.Uncancelled)
    (h : outcomeAt env q x.2 x.1 = .ok o) : OutcomeOf env q x o := by
  unfold outcomeAt at h
  cases hretrieved : q.retrieved x.2 x.1 with
  | error e =>
    rw [hretrieved] at h
    cases e with
    | runCancelled => exact absurd hretrieved (hquiet.retrieve _ _)
    | error name message =>
      cases h
      exact ⟨rfl, by simp only [failed, RunCall.recallAt, hretrieved],
        fun _ hok => (by rw [hretrieved] at hok; cases hok), fun _ _ => rfl⟩
  | ok retrieved =>
    rw [hretrieved] at h
    obtain ⟨a, ha, hactual⟩ := answered_ok hquiet x.2 x.1 retrieved
    obtain ⟨j, hj, hverdict⟩ := judgement_ok hquiet x.2 x.1 a.1 retrieved
    obtain ⟨a', ha', hrest⟩ := bind_eq_ok h
    rw [ha] at ha'
    cases ha'
    obtain ⟨j', hj', hmap⟩ := bind_eq_ok hrest
    rw [hj] at hj'
    cases hj'
    obtain ⟨m, -, rfl⟩ := map_eq_ok hmap
    refine ⟨rfl, by simp only [RunCall.recallAt, hretrieved], ?_,
      fun _ herror => (by rw [hretrieved] at herror; cases herror)⟩
    rintro _ -
    refine hverdict.trans ?_
    unfold RunCall.verdictAt
    rw [hretrieved]
    cases hanswer : q.answer with
    | none => rfl
    | some answer =>
      cases q.judge with
      | none => rfl
      | some judge =>
        simp only [← hactual answer hanswer]
        cases judge x.2 x.1 a.1 retrieved with
        | error e => rfl
        | ok v => cases hdown : v.judgeUnavailable <;> simp [hdown]

/-- There is an outcome unless the lookup of the evidence raises. -/
theorem outcomeAt_ok_iff (env : RunnerEnv) {x : EvalItem × Nat} (hquiet : q.Uncancelled) :
    (∃ o, outcomeAt env q x.2 x.1 = .ok o) ↔
      ∀ evidence ∈ q.evidence, q.answer ≠ none → ∀ retrieved, q.retrieved x.2 x.1 = .ok retrieved →
        ∃ texts, evidence x.2 retrieved = .ok texts := by
  unfold outcomeAt
  cases hretrieved : q.retrieved x.2 x.1 with
  | error e =>
    cases e with
    | runCancelled => exact absurd hretrieved (hquiet.retrieve _ _)
    | error name message => simp
  | ok retrieved =>
    obtain ⟨a, ha, -⟩ := answered_ok hquiet x.2 x.1 retrieved
    obtain ⟨j, hj, -⟩ := judgement_ok hquiet x.2 x.1 a.1 retrieved
    simp only [ha, hj, Except.bind, Except.ok.injEq, forall_eq']
    rw [← itemMetrics_ok_iff env a.1 retrieved]
    constructor
    · rintro ⟨o, ho⟩
      obtain ⟨m, hm, -⟩ := map_eq_ok ho
      exact ⟨m, hm⟩
    · rintro ⟨m, hm⟩
      rw [hm]
      exact ⟨_, rfl⟩

/-! ## All items -/

theorem runLoop_eq (hquiet : q.Uncancelled) (n : Nat) (p : Progress) (items : List EvalItem) :
    runLoop env q n p items =
      ((q.gradedFrom n items).mapM (fun x => outcomeAt env q x.2 x.1)).map (fun os =>
        ⟨p.outcomes ++ os, p.excluded + (items.filter q.unusable).length⟩) := by
  induction items generalizing n p with
  | nil => simp [runLoop, RunCall.gradedFrom, Except.map, pure, Except.pure]
  | cons item items ih =>
    have hgraded : q.gradedFrom n (item :: items) =
        (if q.unusable item then [] else [(item, n)]) ++ q.gradedFrom (n + 1) items := by
      unfold RunCall.gradedFrom
      rw [List.zipIdx_cons, List.filter_cons]
      cases q.unusable item <;> rfl
    unfold runLoop
    rw [if_neg (by simp [hquiet.points n]), hgraded, List.filter_cons]
    cases hunusable : q.unusable item with
    | true =>
      simp only [if_true, List.nil_append, List.length_cons]
      rw [ih]
      simp only [Nat.add_assoc, Nat.add_comm 1]
    | false =>
      simp only [Bool.false_eq_true, if_false, List.singleton_append, List.mapM_cons]
      cases outcomeAt env q n item with
      | error e => rfl
      | ok o =>
        simp only [ih, List.append_assoc, List.singleton_append]
        cases (q.gradedFrom (n + 1) items).mapM (fun x => outcomeAt env q x.2 x.1) with
        | error e => rfl
        | ok os => rfl

theorem verdicts_judged (os : List ItemOutcome) :
    (judged os).filterMap ItemOutcome.passed = os.filterMap ItemOutcome.verdict := by
  rw [judged, List.filterMap_filter]
  refine List.filterMap_congr (fun o _ => ?_)
  unfold ItemOutcome.verdict
  cases o.judgeUnavailable <;> cases o.passed <;> rfl

theorem judged_eq (os : List ItemOutcome) : judged os = os.filter (fun o => o.verdict.isSome) := by
  refine List.filter_congr (fun o _ => ?_)
  unfold ItemOutcome.verdict
  cases o.judgeUnavailable <;> cases o.passed <;> rfl

theorem recalls_scoreable (os : List ItemOutcome) :
    (scoreable os).filterMap ItemOutcome.retrievalRecall =
      os.filterMap ItemOutcome.retrievalRecall := by
  rw [scoreable, List.filterMap_filter]
  refine List.filterMap_congr (fun o _ => ?_)
  cases o.retrievalRecall <;> rfl

/-! ## The rows -/

variable {db db' : RunDb} {r : EvalRun} {stamp : RunStamp db}

/-- The outcomes of a run that has just been started can be stored unless two are of one id or
an id is too long for its column. -/
theorem finished_isSome_iff (hid : r.id = stamp.runId) (finishedAt : Time) :
    (∃ db', (db.started env q stamp).finished env q finishedAt r = some db') ↔
      (r.outcomes.map ItemOutcome.itemId).Nodup ∧ ∀ o ∈ r.outcomes, o.itemId.length ≤ 64 := by
  have hrun : r.id ∈ (db.started env q stamp).runs.keys :=
    Table.mem_keys.mpr ⟨q.runningRow env stamp.now stamp.runId,
      Table.mem_insert (h := stamp.fresh).mpr (Or.inr rfl), hid.symm⟩
  have hkeys : (r.outcomes.map (q.resultRow env.floats r.id)).map EvalResultRow.key =
      (r.outcomes.map ItemOutcome.itemId).map (Prod.mk r.id) := by
    rw [List.map_map, List.map_map]
    rfl
  have hnodup : ((db.results.rows ++ r.outcomes.map (q.resultRow env.floats r.id)).map
      EvalResultRow.key).Nodup ↔
      (r.outcomes.map ItemOutcome.itemId).Nodup := by
    rw [List.map_append, List.nodup_append, hkeys,
      List.nodup_map_iff (Prod.mk_right_injective r.id)]
    constructor
    · exact fun h => h.2.1
    · refine fun h => ⟨db.results.nodup, h, ?_⟩
      -- the rows there are belong to other runs
      rintro _ hold _ hnew rfl
      obtain ⟨row, hrow, hkey⟩ := List.mem_map.mp hold
      obtain ⟨id, -, rfl⟩ := List.mem_map.mp hnew
      have hsame : row.evalRunId = stamp.runId := (congrArg Prod.fst hkey).trans hid
      exact stamp.fresh (hsame ▸ db.owned row hrow)
  have hinsert :
      (∃ t, insertResults db.results (r.outcomes.map (q.resultRow env.floats r.id)) = some t) ↔
      (r.outcomes.map ItemOutcome.itemId).Nodup ∧ ∀ o ∈ r.outcomes, o.itemId.length ≤ 64 := by
    unfold insertResults Table.tryInsertAll
    simp only [List.forall_mem_map, RunCall.resultRow]
    split
    · rename_i hshort
      rw [and_iff_left hshort, ← hnodup]
      split
      · rename_i h
        exact iff_of_true ⟨_, rfl⟩ h
      · rename_i h
        exact iff_of_false (by simp) h
    · rename_i hlong
      exact iff_of_false (by simp) (fun h => hlong h.2)
  rw [← hinsert]
  unfold RunDb.finished
  rw [dif_pos hrun]
  constructor
  · rintro ⟨db', h⟩
    split at h
    · cases h
    · exact ⟨_, ‹_›⟩
  · rintro ⟨t, ht⟩
    split
    · rename_i hnone
      exact absurd (hnone.symm.trans ht) (by simp)
    · exact ⟨_, rfl⟩

/-- A run returns where every item gets its outcome and the outcomes can be stored. -/
theorem run_eq_ok_iff :
    (∃ db', run env q db stamp = (db', .ok r)) ↔
      ∃ p, runLoop env q 0 ⟨[], 0⟩ q.dataset.items = .ok p ∧
      r = evalRunOf env q stamp.runId stamp.elapsed p ∧ (p.outcomes.map ItemOutcome.itemId).Nodup ∧
      ∀ o ∈ p.outcomes, o.itemId.length ≤ 64 := by
  unfold run
  cases hloop : runLoop env q 0 ⟨[], 0⟩ q.dataset.items with
  | error e => simp
  | ok p =>
    have hfinish : (∃ db', (db.started env q stamp).finished env q stamp.finishedAt
        (evalRunOf env q stamp.runId stamp.elapsed p) =
        some db') ↔
        (p.outcomes.map ItemOutcome.itemId).Nodup ∧ ∀ o ∈ p.outcomes, o.itemId.length ≤ 64 :=
      finished_isSome_iff rfl stamp.finishedAt
    simp only [Except.ok.injEq, exists_eq_left']
    rw [← hfinish]
    cases (db.started env q stamp).finished env q stamp.finishedAt
        (evalRunOf env q stamp.runId stamp.elapsed p) with
    | none => simp
    | some db' => simp [eq_comm]

/-! ## The aggregates -/

theorem length_gradedFrom (q : RunCall) (n : Nat) (items : List EvalItem) :
    (items.filter q.unusable).length + (q.gradedFrom n items).length = items.length := by
  induction items generalizing n with
  | nil => rfl
  | cons item items ih =>
    have hrest := ih (n + 1)
    unfold RunCall.gradedFrom at hrest ⊢
    rw [List.zipIdx_cons, List.filter_cons, List.filter_cons, List.length_cons]
    cases q.unusable item with
    | true =>
      simp only [if_true, Bool.not_true, Bool.false_eq_true, if_false, List.length_cons]
      omega
    | false =>
      simp only [Bool.false_eq_true, if_false, Bool.not_false, if_true, List.length_cons]
      omega

variable {os : List ItemOutcome}

/-- Where no retrieval fails, the outcomes add up. -/
theorem aggregated_of_outcomes (hos : List.Forall₂ (OutcomeOf env q) q.graded os) (runId : Uuid)
    (elapsed : ℚ) (hretrieve : ∀ x ∈ q.graded, ∃ retrieved, q.retrieved x.2 x.1 = .ok retrieved) :
    Aggregated env q
      (evalRunOf env q runId elapsed ⟨os, (q.dataset.items.filter q.unusable).length⟩) := by
  have hrecalls : os.filterMap ItemOutcome.retrievalRecall =
      q.graded.filterMap (q.recallAt env.floats) :=
    filterMap_of_forall₂ hos (fun _ _ _ ho => ho.retrieval)
  have hverdict : ∀ x ∈ q.graded, ∀ o, OutcomeOf env q x o →
      o.verdict = (q.verdictAt x).map Judge.Verdict.passed := by
    intro x hx o ho
    obtain ⟨retrieved, hretrieved⟩ := hretrieve x hx
    exact ho.graded retrieved hretrieved
  have hid : ∀ x ∈ q.graded, ∀ o, OutcomeOf env q x o → o.itemId = x.1.id :=
    fun _ _ _ ho => congrArg Prod.fst ho.item
  have hpass : passRateOf env.floats ((judged os).filterMap ItemOutcome.passed) =
      passRateOf env.floats ((q.graded.filterMap q.verdictAt).map Judge.Verdict.passed) := by
    rw [verdicts_judged, List.map_filterMap]
    exact congrArg _ (filterMap_of_forall₂ hos hverdict)
  refine ⟨map_of_forall₂ hos (fun _ _ _ ho => ho.item), hos.length_eq.symm,
    length_gradedFrom q 0 q.dataset.items, ?_, ?_, hpass, ?_, ?_⟩
  · exact congrArg (recallOf env.floats) ((recalls_scoreable os).trans hrecalls)
  · refine filter_map_of_forall₂ hos ?_ hid
    intro x _ o ho
    rw [ho.retrieval]
    unfold RunCall.recallAt
    split
    · simp [*]
    · split <;> simp [*]
  · change (judged os).map ItemOutcome.itemId = _
    rw [judged_eq]
    refine filter_map_of_forall₂ hos ?_ hid
    intro x hx o ho
    rw [hverdict x hx o ho, Option.isSome_map]
  · intro hunjudged
    have hnone : q.graded.filterMap q.verdictAt = [] := by
      refine List.filterMap_eq_nil_iff.mpr (fun x hx => ?_)
      rcases hunjudged with hjudge | hall
      · unfold RunCall.verdictAt
        rw [hjudge]
        split
        · rename_i h
          cases h
        · rfl
      · exact hall x hx
    refine hpass.trans ?_
    rw [hnone]
    rfl

/-- An item whose retrieval failed is among those that count as judged. -/
theorem retrieved_of_aggregated (hos : List.Forall₂ (OutcomeOf env q) q.graded os)
    (hjudged : (judged os).map ItemOutcome.itemId =
      (q.graded.filter (fun x => (q.verdictAt x).isSome)).map (fun x => x.1.id)) :
    ∀ x ∈ q.graded, ∃ retrieved, q.retrieved x.2 x.1 = .ok retrieved := by
  have hcounted : (judged os).map ItemOutcome.itemId =
      (q.graded.filter (fun x => (q.verdictAt x).isSome || !(q.retrieved x.2 x.1).isOk)).map
      (fun x => x.1.id) := by
    rw [judged_eq]
    refine filter_map_of_forall₂ hos ?_ (fun _ _ _ ho => congrArg Prod.fst ho.item)
    intro x _ o ho
    cases hretrieved : q.retrieved x.2 x.1 with
    | ok retrieved => simp [ho.graded retrieved hretrieved, Except.isOk, Except.toBool]
    | error e => simp [ho.failed e hretrieved, Except.isOk, Except.toBool]
  have hsublist :=
    List.monotone_filter_right q.graded (p := fun x => (q.verdictAt x).isSome)
      (q := fun x => (q.verdictAt x).isSome || !(q.retrieved x.2 x.1).isOk)
      (fun x hx => (by simp [hx]))
  have heq := hsublist.eq_of_length (by
    have hlength := congrArg List.length (hjudged.symm.trans hcounted)
    simpa using hlength)
  intro x hx
  cases hretrieved : q.retrieved x.2 x.1 with
  | ok retrieved => exact ⟨retrieved, rfl⟩
  | error e =>
    have hmem : x ∈
        q.graded.filter (fun x => (q.verdictAt x).isSome || !(q.retrieved x.2 x.1).isOk) :=
      List.mem_filter.mpr ⟨hx, by simp [hretrieved, Except.isOk, Except.toBool]⟩
    rw [← heq] at hmem
    have hsome := (List.mem_filter.mp hmem).2
    simp [RunCall.verdictAt, hretrieved] at hsome

/-- The floats of these runs are 0 and 1. -/
def wholeFloats : FloatEnv where
  div := fun a b => (a : ℚ) / b
  mean := fun values => values.sum / values.length
  round4 := id
  round2 := id
  number := fun x => if x = 0 then ⟨"0.0", by decide⟩ else ⟨"1.0", by decide⟩

def wordEnv : QualityMetrics.TokenEnv := ⟨Char.isAlphanum, lower⟩

def releaseEnv : RunnerEnv := ⟨wholeFloats, wordEnv, "r1", "gpt-4o-mini", "gpt-4o"⟩

def noRuns : RunDb := ⟨Table.empty, Table.empty, fun _ h => absurd h List.not_mem_nil⟩

def firstRun : RunStamp noRuns := ⟨10, 20, 0, 7, by decide⟩

/-- Retrieval alone. -/
def scoring (retrieve : Except Raised (List String)) : RunCall where
  tenantId := 1
  dataset := ⟨3, "pumps", "manuals", "sha1", [⟨"q1", "Which torque?", "5 Nm", ["c_0123ab"]⟩]⟩
  cancelled := fun _ => false
  retrieve := fun _ _ _ _ => retrieve
  answer := none
  judge := none
  evidence := none
  labels := fun _ => none
  topK := 5
  cassetteSha := none

theorem scoring_uncancelled {retrieve : Except Raised (List String)}
    (h : retrieve ≠ .error .runCancelled) : (scoring retrieve).Uncancelled :=
  ⟨fun _ => rfl, fun _ _ => h, fun _ h => (by cases h), fun _ h => (by cases h),
    fun _ h => (by cases h)⟩

end AgenticPlatform.Gates.Runner
