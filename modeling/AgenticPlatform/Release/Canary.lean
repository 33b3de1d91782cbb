import AgenticPlatform.Db.Models
import Mathlib.Algebra.BigOperators.Group.List.Basic

/-!
# Releases and the traffic they get

A revision is registered without traffic, gets a slice of it as a canary, and is then
rolled back or promoted. Every call is one transaction against the `release` table and
rewrites the row it names and the row that is active. The number formats of the reasons
are a parameter, and so are the subtraction and the division of floats; a float that is a
number is the rational it stands for.
-/
namespace AgenticPlatform.Release
open AgenticPlatform.Foundation AgenticPlatform.Db

inductive ReleaseStatus where
  | candidate | canary | active | rolledBack | retired
deriving DecidableEq

/-- A row of `release`; the last field is its CHECK constraint. -/
structure ReleaseRow where
  revision : String
  imageTag : String
  schemaVersion : String
  status : ReleaseStatus
  trafficWeight : Int
  promotedAt : Option Time
  rolledBackAt : Option Time
  rollbackReason : Option String
  createdAt : Time
  weight_range : 0 ≤ trafficWeight ∧ trafficWeight ≤ 100
deriving DecidableEq

abbrev ReleaseTable := Table ReleaseRow ReleaseRow.revision

inductive CanaryError where
  /-- More than one row where a query expects at most one. -/
  | multipleResultsFound
  | noActiveRevision
  /-- The CHECK constraint on the weight. -/
  | weightOutOfRange
  /-- A text longer than its column. -/
  | valueTooLong
deriving DecidableEq

/-- SELECT … WHERE status = 'active', at most one row. -/
def activeRow (t : ReleaseTable) : Except CanaryError (Option ReleaseRow) :=
  match t.rows.filter (fun r => r.status = .active) with
  | [] => .ok none
  | [r] => .ok (some r)
  | _ => .error .multipleResultsFound

/-! ## The actions -/

def newRelease (now : Time) (revision imageTag schemaVersion : String) : ReleaseRow where
  revision := revision
  imageTag := imageTag
  schemaVersion := schemaVersion
  status := .candidate
  trafficWeight := 0
  promotedAt := none
  rolledBackAt := none
  rollbackReason := none
  createdAt := now
  weight_range := by decide

/-- ON CONFLICT (revision) DO NOTHING. -/
def register (t : ReleaseTable) (now : Time) (revision imageTag schemaVersion : String) :
    Except CanaryError ReleaseTable :=
  if revision.length ≤ 64 ∧ imageTag.length ≤ 128 ∧ schemaVersion.length ≤ 32 then
    .ok (t.insertMissing [newRelease now revision imageTag schemaVersion])
  else .error .valueTooLong

/-- UPDATE release SET … WHERE revision = :rev. -/
def setRevision (t : ReleaseTable) (revision : String) (set : ReleaseRow → ReleaseRow)
    (hset : ∀ r, (set r).revision = r.revision) : ReleaseTable :=
  t.updateWhere (fun r => r.revision = revision) set hset

def weighed (weight : Int) (h : 0 ≤ weight ∧ weight ≤ 100) (r : ReleaseRow) : ReleaseRow :=
  { r with trafficWeight := weight, weight_range := h }

def asCanary (weight : Int) (h : 0 ≤ weight ∧ weight ≤ 100) (r : ReleaseRow) : ReleaseRow :=
  { r with status := .canary, trafficWeight := weight, weight_range := h }

theorem rest_range {weight : Int} (h : 0 ≤ weight ∧ weight ≤ 100) :
    0 ≤ 100 - weight ∧ 100 - weight ≤ 100 := by
  omega

def startCanary (t : ReleaseTable) (candidate : String) (weight : Int) :
    Except CanaryError ReleaseTable :=
  match activeRow t with
  | .error e => .error e
  | .ok none => .error .noActiveRevision
  | .ok (some active) =>
    -- Outside the range at least the active row breaks the constraint.
    if h : 0 ≤ weight ∧ weight ≤ 100 then
      .ok (setRevision (setRevision t candidate (asCanary weight h) (fun _ => rfl)) active.revision
        (weighed (100 - weight) (rest_range h)) (fun _ => rfl))
    else .error .weightOutOfRange

def asRolledBack (now : Time) (reason : String) (r : ReleaseRow) : ReleaseRow :=
  { r with
    status := .rolledBack
    trafficWeight := 0
    rolledBackAt := some now
    rollbackReason := some (clip 2000 reason)
    weight_range := by decide }

structure RollbackResult where
  rolledBack : String
  trafficRestoredTo : Option String
  reason : String
  schemaRollbackRequired : Bool
  candidateSchema : Option String
  activeSchema : Option String
deriving DecidableEq

def rollbackResult (candidate reason : String) (active candidateRow : Option ReleaseRow) :
    RollbackResult where
  rolledBack := candidate
  trafficRestoredTo := active.map ReleaseRow.revision
  reason := reason
  schemaRollbackRequired := (active.bind (fun a => candidateRow.map (fun c =>
    decide (c.schemaVersion ≠ a.schemaVersion)))).getD false
  candidateSchema := candidateRow.map ReleaseRow.schemaVersion
  activeSchema := active.map ReleaseRow.schemaVersion

def rollback (t : ReleaseTable) (now : Time) (candidate reason : String) :
    Except CanaryError (ReleaseTable × RollbackResult) :=
  match activeRow t with
  | .error e => .error e
  | .ok active =>
    let back := setRevision t candidate (asRolledBack now reason) (fun _ => rfl)
    let restored := match active with
      | none => back
      | some a => setRevision back a.revision (weighed 100 (by decide)) (fun _ => rfl)
    .ok (restored, rollbackResult candidate reason active (t.get candidate))

def asRetired (r : ReleaseRow) : ReleaseRow :=
  { r with status := .retired, trafficWeight := 0, weight_range := by decide }

def asActive (now : Time) (r : ReleaseRow) : ReleaseRow :=
  { r with
    status := .active, trafficWeight := 100, promotedAt := some now, weight_range := by decide }

structure PromoteResult where
  promoted : String
  retired : Option String
deriving DecidableEq

def promote (t : ReleaseTable) (now : Time) (candidate : String) :
    Except CanaryError (ReleaseTable × PromoteResult) :=
  match activeRow t with
  | .error e => .error e
  | .ok active =>
    let retired := match active with
      | none => t
      -- The name is tested for truth, and the empty one is false.
      | some a => if a.revision = "" then t else setRevision t a.revision asRetired (fun _ => rfl)
    .ok (setRevision retired candidate (asActive now) (fun _ => rfl),
      ⟨candidate, active.map ReleaseRow.revision⟩)

/-- What the router should be doing. -/
def trafficSplit (t : ReleaseTable) : List (String × Int) :=
  (t.rows.filter (fun r => (r.status = .active ∨ r.status = .canary) ∧ 0 < r.trafficWeight)).map
    (fun r => (r.revision, r.trafficWeight))

/-! ## Judging a canary -/

structure RevisionStats where
  revision : String
  observations : Nat
  errorRate : ℚ
  p95LatencyMs : ℚ
deriving DecidableEq

structure Thresholds where
  errorRateTolerance : ℚ
  latencyTolerance : ℚ
  minObservations : Nat

/-- The double nearest to 0.05 lies above it. -/
def Thresholds.default : Thresholds := ⟨3602879701896397 / 72057594037927936, 3 / 2, 20⟩

inductive CanaryAction where
  | promote | hold | rollback
deriving DecidableEq

inductive CanaryReason where
  | insufficientSample (observations minObservations : Nat)
  | errorRateRose (delta baseline candidate tolerance : ℚ)
  | latencyRose (ratio baseline candidate tolerance : ℚ)
  | noBreach (observations : Nat)
deriving DecidableEq

structure CanaryVerdict where
  action : CanaryAction
  reasons : List CanaryReason
  candidate : RevisionStats
  baseline : RevisionStats
deriving DecidableEq

structure CanaryEnv where
  /-- Subtraction of floats. -/
  sub : ℚ → ℚ → ℚ
  /-- Division of floats. -/
  div : ℚ → ℚ → ℚ
  /-- The text of a reason. -/
  reasonText : CanaryReason → String

/-- Floats that round nothing, and one text for every reason. -/
def CanaryEnv.exact (text : String) : CanaryEnv := ⟨(· - ·), (· / ·), fun _ => text⟩

def breaches (env : CanaryEnv) (th : Thresholds) (candidate baseline : RevisionStats) :
    List CanaryReason :=
  let delta := env.sub candidate.errorRate baseline.errorRate
  let ratio := env.div candidate.p95LatencyMs baseline.p95LatencyMs
  (if th.errorRateTolerance < delta then
    [.errorRateRose delta baseline.errorRate candidate.errorRate th.errorRateTolerance] else []) ++
  (if 0 < baseline.p95LatencyMs ∧ th.latencyTolerance < ratio then
    [.latencyRose ratio baseline.p95LatencyMs candidate.p95LatencyMs th.latencyTolerance] else [])

def evaluateCanary (env : CanaryEnv) (stats : String → RevisionStats) (th : Thresholds)
    (candidate baseline : String) : CanaryVerdict :=
  let c := stats candidate
  let b := stats baseline
  if c.observations < th.minObservations then
    ⟨.hold, [.insufficientSample c.observations th.minObservations], c, b⟩
  else
    match breaches env th c b with
    | [] => ⟨.promote, [.noBreach c.observations], c, b⟩
    | reasons => ⟨.rollback, reasons, c, b⟩

/-! ## Sequences of calls -/

inductive CanaryCall where
  | register (now : Time) (revision imageTag schemaVersion : String)
  | startCanary (candidate : String) (weight : Int)
  | rollback (now : Time) (candidate reason : String)
  | promote (now : Time) (candidate : String)
  | supervise (now : Time) (candidate baseline : String) (stats : String → RevisionStats)
    (th : Thresholds)

/-- Evaluate and act. -/
def supervise (env : CanaryEnv) (t : ReleaseTable) (now : Time) (candidate : String)
    (verdict : CanaryVerdict) : Except CanaryError ReleaseTable :=
  match verdict.action with
  | .hold => .ok t
  | .rollback =>
    (rollback t now candidate ("; ".intercalate (verdict.reasons.map env.reasonText))).map Prod.fst
  | .promote => (promote t now candidate).map Prod.fst

def CanaryCall.execute (env : CanaryEnv) (t : ReleaseTable) :
    CanaryCall → Except CanaryError ReleaseTable
  | .register now revision imageTag schemaVersion =>
    Release.register t now revision imageTag schemaVersion
  | .startCanary candidate weight => Release.startCanary t candidate weight
  | .rollback now candidate reason => (Release.rollback t now candidate reason).map Prod.fst
  | .promote now candidate => (Release.promote t now candidate).map Prod.fst
  | .supervise now candidate baseline stats th =>
    Release.supervise env t now candidate (evaluateCanary env stats th candidate baseline)

/-- A call that raises rolls its transaction back. -/
def canaryStep (env : CanaryEnv) (t : ReleaseTable) (call : CanaryCall) : Option ReleaseTable :=
  match call.execute env t with
  | .ok t' => some t'
  | .error _ => some t

end AgenticPlatform.Release
