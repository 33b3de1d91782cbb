import AgenticPlatform.Foundation.Percentile
import AgenticPlatform.Release.Canary

/-!
# The samples a promotion rests on

A candidate is judged against the revision it replaces. Too small a sample of the candidate
holds it; the sample of the baseline is not looked at, and a baseline without observations
has rates and latencies of zero. What Postgres rounds in its aggregates is a parameter.
-/
namespace AgenticPlatform.Release
open AgenticPlatform.Foundation AgenticPlatform.Db

/-! ## Observations in Postgres -/

inductive ObservedOutcome where
  | success | error
deriving DecidableEq

/-- A row of `release_observation`. -/
structure ReleaseObservation where
  revision : String
  outcome : ObservedOutcome
  latencyMs : ℚ
  observedAt : Time

/-- WHERE revision = :rev AND at >= now() - :window. -/
def inWindow (rows : List ReleaseObservation) (now window : Time) (revision : String) :
    List ReleaseObservation :=
  rows.filter (fun o => o.revision = revision ∧ now - window ≤ o.observedAt)

/-- The aggregates of the query, as floats. -/
structure AggregateEnv where
  /-- `avg` of ones and zeros: how many ones, among how many. -/
  rate : Nat → Nat → ℚ
  /-- `percentile_cont(0.95)`. -/
  p95 : List ℚ → Option ℚ

/-- An ordered-set aggregate has no value over no rows, and interpolates between two of them
otherwise. -/
structure AggregateEnv.Faithful (agg : AggregateEnv) : Prop where
  p95_nil : agg.p95 [] = none
  p95_between : ∀ xs, xs ≠ [] → ∃ v, agg.p95 xs = some v ∧
    ∃ low ∈ xs, ∃ high ∈ xs, low ≤ v ∧ v ≤ high

/-- `PostgresMetrics.stats`, the aggregates of an empty sample coalesced to zero. -/
def postgresStats (agg : AggregateEnv) (rows : List ReleaseObservation) (now window : Time)
    (revision : String) : RevisionStats :=
  let sample := inWindow rows now window revision
  { revision := revision
    observations := sample.length
    errorRate :=
      if sample = [] then 0
      else agg.rate (sample.filter (fun o => o.outcome = .error)).length sample.length
    p95LatencyMs := (agg.p95 (sample.map ReleaseObservation.latencyMs)).getD 0 }

section
variable {agg : AggregateEnv} {rows : List ReleaseObservation} {now window : Time}
  {revision : String}

/-- A revision nobody called looks faultless and instant. -/
theorem postgresStats_unobserved (hagg : agg.Faithful)
    (h : inWindow rows now window revision = []) :
    postgresStats agg rows now window revision = ⟨revision, 0, 0, 0⟩ := by
  simp [postgresStats, h, hagg.p95_nil]

theorem p95_pos (hagg : agg.Faithful) (hpos : ∀ o ∈ rows, 0 < o.latencyMs)
    (hsome : inWindow rows now window revision ≠ []) :
    0 < (postgresStats agg rows now window revision).p95LatencyMs := by
  have hmap : (inWindow rows now window revision).map ReleaseObservation.latencyMs ≠ [] := by
    intro hnil
    exact hsome (List.map_eq_nil_iff.mp hnil)
  obtain ⟨v, hv, low, hlow, -, -, hle, -⟩ := hagg.p95_between _ hmap
  obtain ⟨o, ho, rfl⟩ := List.mem_map.mp hlow
  simp only [postgresStats, hv, Option.getD_some]
  exact (hpos o (List.mem_filter.mp ho).1).trans_le hle

/-- Aggregates that round nothing. -/
def exactAggregates : AggregateEnv := ⟨fun errors n => errors / n, percentileCont (95 / 100)⟩

theorem exactAggregates_faithful : exactAggregates.Faithful where
  p95_nil := percentileCont_nil (95 / 100)
  p95_between _ hxs := percentileCont_between (by decide +kernel) hxs

end

/-! ## Verdicts -/

/-- A latency is at most so many times another one: their quotient tells where there is one. -/
def CanaryEnv.AtMostTimes (env : CanaryEnv) (times latency base : ℚ) : Prop :=
  if 0 < base then env.div latency base ≤ times else latency ≤ times * base

/-- What a promotion should rest on. -/
structure Backed (env : CanaryEnv) (th : Thresholds) (candidate baseline : RevisionStats) :
    Prop where
  candidateSample : th.minObservations ≤ candidate.observations
  baselineSample : th.minObservations ≤ baseline.observations
  errorRate : env.sub candidate.errorRate baseline.errorRate ≤ th.errorRateTolerance
  latency : env.AtMostTimes th.latencyTolerance candidate.p95LatencyMs baseline.p95LatencyMs

/-- A candidate is promoted only on such samples, and held where one of them is too small. -/
def NotVacuous (env : CanaryEnv) (t : ReleaseTable) (now : Time) (stats : String → RevisionStats)
    (th : Thresholds) (candidate baseline : String) : Prop :=
  let verdict := evaluateCanary env stats th candidate baseline
  (verdict.action = .promote → Backed env th (stats candidate) (stats baseline)) ∧
    (¬ (th.minObservations ≤ (stats candidate).observations ∧
      th.minObservations ≤ (stats baseline).observations) →
      verdict.action = .hold ∧ supervise env t now candidate verdict = .ok t)

/-- The candidate's sample is too small, or the baseline's is large enough and its latency
is compared, unless the error rate decides alone or the comparison would pass. -/
def JudgedOnBoth (env : CanaryEnv) (th : Thresholds) (candidate baseline : RevisionStats) : Prop :=
  candidate.observations < th.minObservations ∨
    (th.minObservations ≤ baseline.observations ∧
      (0 < baseline.p95LatencyMs ∨
      th.errorRateTolerance < env.sub candidate.errorRate baseline.errorRate ∨
      candidate.p95LatencyMs ≤ th.latencyTolerance * baseline.p95LatencyMs))

section
variable {env : CanaryEnv} {th : Thresholds} {candidate baseline : RevisionStats}

theorem CanaryEnv.atMostTimes_of_pos {times latency base : ℚ} (h : 0 < base) :
    env.AtMostTimes times latency base ↔ env.div latency base ≤ times := by
  rw [CanaryEnv.AtMostTimes, if_pos h]

theorem CanaryEnv.atMostTimes_of_not_pos {times latency base : ℚ} (h : ¬ 0 < base) :
    env.AtMostTimes times latency base ↔ latency ≤ times * base := by
  rw [CanaryEnv.AtMostTimes, if_neg h]

theorem breaches_eq_nil_iff : breaches env th candidate baseline = [] ↔
    env.sub candidate.errorRate baseline.errorRate ≤ th.errorRateTolerance ∧
      (0 < baseline.p95LatencyMs →
        env.AtMostTimes th.latencyTolerance candidate.p95LatencyMs baseline.p95LatencyMs) := by
  have hlatency : ¬ (0 < baseline.p95LatencyMs ∧
        th.latencyTolerance < env.div candidate.p95LatencyMs baseline.p95LatencyMs) ↔
      (0 < baseline.p95LatencyMs →
        env.AtMostTimes th.latencyTolerance candidate.p95LatencyMs baseline.p95LatencyMs) := by
    rw [not_and]
    refine forall_congr' fun hpos => ?_
    rw [not_lt, CanaryEnv.atMostTimes_of_pos hpos]
  rw [breaches, List.append_eq_nil_iff, ite_eq_right_iff, ite_eq_right_iff, ← hlatency, ← not_lt]
  simp only [List.cons_ne_nil, imp_false]

end

section
variable {env : CanaryEnv} {stats : String → RevisionStats} {th : Thresholds}
  {candidate baseline : String}

theorem evaluateCanary_hold_iff : (evaluateCanary env stats th candidate baseline).action = .hold ↔
    (stats candidate).observations < th.minObservations := by
  by_cases hsmall : (stats candidate).observations < th.minObservations
  · rw [evaluateCanary, if_pos hsmall]
    exact iff_of_true rfl hsmall
  · rw [evaluateCanary, if_neg hsmall]
    cases breaches env th (stats candidate) (stats baseline) <;> simp [hsmall]

theorem evaluateCanary_promote_iff :
    (evaluateCanary env stats th candidate baseline).action = .promote ↔
      th.minObservations ≤ (stats candidate).observations ∧
      breaches env th (stats candidate) (stats baseline) = [] := by
  by_cases hsmall : (stats candidate).observations < th.minObservations
  · rw [evaluateCanary, if_pos hsmall]
    exact iff_of_false (by nofun) (fun h => absurd h.1 (not_le.mpr hsmall))
  · rw [evaluateCanary, if_neg hsmall]
    cases breaches env th (stats candidate) (stats baseline) <;> simp [not_lt.mp hsmall]

/-- A verdict to hold leaves the table alone. -/
theorem supervise_hold {t : ReleaseTable} {now : Time} {verdict : CanaryVerdict}
    (h : verdict.action = .hold) : supervise env t now candidate verdict = .ok t := by
  rw [supervise, h]

end

/-- Promotion is not vacuous exactly where the candidate is judged on both samples. -/
theorem promotion_not_vacuous_iff (env : CanaryEnv) (t : ReleaseTable) (now : Time)
    (stats : String → RevisionStats) (th : Thresholds) (candidate baseline : String) :
    NotVacuous env t now stats th candidate baseline ↔
      JudgedOnBoth env th (stats candidate) (stats baseline) := by
  rw [NotVacuous, evaluateCanary_promote_iff, evaluateCanary_hold_iff, breaches_eq_nil_iff,
    JudgedOnBoth]
  constructor
  · rintro ⟨hpromote, hhold⟩
    rcases Nat.lt_or_ge (stats candidate).observations th.minObservations with hsmall | hlarge
    · exact Or.inl hsmall
    · refine Or.inr ⟨?_, ?_⟩
      · by_contra hbaseline
        exact absurd (hhold (fun h => hbaseline h.2)).1 (not_lt.mpr hlarge)
      · by_contra hskipped
        simp only [not_or, not_lt, not_le] at hskipped
        obtain ⟨hzero, herror, hlatency⟩ := hskipped
        have hbacked := hpromote ⟨hlarge, herror, fun hpos => absurd hpos (not_lt.mpr hzero)⟩
        have hmultiple := (CanaryEnv.atMostTimes_of_not_pos (not_lt.mpr hzero)).mp hbacked.latency
        exact absurd hmultiple (not_le.mpr hlatency)
  · intro h
    refine ⟨?_, ?_⟩
    · rintro ⟨hlarge, herror, hlatency⟩
      obtain ⟨hbaseline, hcompared⟩ := h.resolve_left (not_lt.mpr hlarge)
      refine ⟨hlarge, hbaseline, herror, ?_⟩
      by_cases hpos : 0 < (stats baseline).p95LatencyMs
      · exact hlatency hpos
      · rcases hcompared with hpos' | hrose | hle
        · exact absurd hpos' hpos
        · exact absurd hrose (not_lt.mpr herror)
        · exact (CanaryEnv.atMostTimes_of_not_pos hpos).mpr hle
    · intro hsample
      have hsmall : (stats candidate).observations < th.minObservations := by
        rcases h with hsmall | ⟨hbaseline, -⟩
        · exact hsmall
        · exact not_le.mp (fun hlarge => hsample ⟨hlarge, hbaseline⟩)
      exact ⟨hsmall, supervise_hold (evaluateCanary_hold_iff.mpr hsmall)⟩

/-- With latencies above zero it is the sample of the baseline alone that is missing. -/
theorem postgres_judgedOnBoth_iff {env : CanaryEnv} {agg : AggregateEnv}
    {rows : List ReleaseObservation} {now window : Time} {th : Thresholds}
    (candidate baseline : String) (hagg : agg.Faithful) (hpos : ∀ o ∈ rows, 0 < o.latencyMs)
    (hmin : 0 < th.minObservations) :
    JudgedOnBoth env th (postgresStats agg rows now window candidate)
      (postgresStats agg rows now window baseline) ↔
      (inWindow rows now window candidate).length < th.minObservations ∨
      th.minObservations ≤ (inWindow rows now window baseline).length := by
  refine or_congr_right ?_
  constructor
  · exact fun h => h.1
  · intro hlarge
    have hsome : inWindow rows now window baseline ≠ [] :=
      List.length_pos_iff.mp (hmin.trans_le hlarge)
    exact ⟨hlarge, Or.inl (p95_pos hagg hpos hsome)⟩

/-! Twenty slow answers of the candidate, and none of the baseline. -/

def slowCandidate : List ReleaseObservation := List.replicate 20 ⟨"v2", .success, 9000, 0⟩

def firstAndCanary : ReleaseTable :=
  ⟨[{ newRelease 0 "v1" "app:1" "0023" with
    status := .active, trafficWeight := 90, weight_range := by decide },
    { newRelease 1 "v2" "app:2" "0023" with
      status := .canary, trafficWeight := 10, weight_range := by decide }],
    by decide⟩

/-- They get it all the traffic. -/
theorem unobserved_baseline_promotes :
    let stats := postgresStats exactAggregates slowCandidate 1 600
    (evaluateCanary (.exact "breach") stats .default "v2" "v1").action = .promote ∧
        (supervise (.exact "breach") firstAndCanary 1 "v2"
          (evaluateCanary (.exact "breach") stats .default "v2" "v1")).map
        trafficSplit = .ok [("v2", 100)] ∧
        ¬ NotVacuous (.exact "breach") firstAndCanary 1 stats .default "v2" "v1" := by
  refine ⟨by decide +kernel, by decide +kernel, ?_⟩
  intro h
  have hbacked := (h.1 (by decide +kernel)).baselineSample
  exact absurd hbacked (by decide +kernel)

end AgenticPlatform.Release
