import AgenticPlatform.Db.Models
import AgenticPlatform.Foundation.Transition
import Mathlib.Logic.Function.Basic

/-!
# Side effects performed once: the statements and the calls

`perform_once` runs in phases: a cancellation point, the claim transaction, the
effect body outside any transaction, and one final UPDATE. The rows are kept by
their unique key (run_id, step). The SELECT … FOR UPDATE of the claim holds the row
until its transaction ends, so the read and the branch it takes are one step; where
it finds no row nothing is locked and the INSERT is a step of its own.

A context names a run of its own tenant, so row-level security hides no row here,
and a context without a run id is refused before the first statement.
-/
namespace AgenticPlatform.Correctness
open AgenticPlatform.Foundation AgenticPlatform.Identity AgenticPlatform.Db

inductive RetryPolicy where
  | safeToRepeat | needsReconciliation
deriving DecidableEq

inductive EffectStatus where
  | started | completed | failed
deriving DecidableEq

structure EffectRow where
  status : EffectStatus
  attempt : Nat
  result : Option Json
  error : Option String
  claimedBy : Option String
  claimExpiresAt : Option Time
  startedAt : Time
  completedAt : Option Time
deriving DecidableEq

/-- The unique key: (run_id, step). -/
abbrev EffectKey := Uuid × String

/-- The arguments of `perform_once`, with the claimant it computes. -/
structure EffectRequest where
  runId : Uuid
  step : String
  retryPolicy : RetryPolicy
  claimTtl : Time
  claimant : String
deriving DecidableEq

def EffectRequest.key (q : EffectRequest) : EffectKey := (q.runId, q.step)

/-- `claim_expires_at IS NOT NULL AND claim_expires_at > now()`. -/
def claimLive (now : Time) (r : EffectRow) : Prop := ∃ d ∈ r.claimExpiresAt, now < d

instance (now : Time) (r : EffectRow) : Decidable (claimLive now r) :=
  inferInstanceAs (Decidable (∃ d ∈ r.claimExpiresAt, now < d))

/-- The row the claiming INSERT adds. -/
def newEffect (now : Time) (q : EffectRequest) : EffectRow where
  status := .started
  attempt := 1
  result := none
  error := none
  claimedBy := some q.claimant
  claimExpiresAt := some (now + q.claimTtl)
  startedAt := now
  completedAt := none

/-- The SET list of both takeovers: of an abandoned claim and of a failed row. -/
def takeOver (now : Time) (q : EffectRequest) (r : EffectRow) : EffectRow :=
  { r with
    status := .started
    attempt := r.attempt + 1
    startedAt := now
    error := none
    claimedBy := some q.claimant
    claimExpiresAt := some (now + q.claimTtl) }

def completeEffect (now : Time) (result : Json) (r : EffectRow) : EffectRow :=
  { r with
    status := .completed
    completedAt := some now
    result := some result
    claimExpiresAt := none }

def failEffect (error : String) (r : EffectRow) : EffectRow :=
  { r with status := .failed, error := some (clip 2000 error), claimExpiresAt := none }

/-- The reaper's second UPDATE, on the rows of the runs it reaped. -/
def releaseClaim (r : EffectRow) : EffectRow :=
  if r.status = .started then { r with claimExpiresAt := none } else r

/-! ## One call -/

structure EffectOutcome where
  result : Option Json
  repeated : Bool
  attempt : Nat
deriving DecidableEq

/-- How a call ends. `died` is a killed process or an exception no handler catches. -/
inductive Ending where
  | returned (outcome : EffectOutcome)
  | effectAlreadyRunning
  | needsReconciliation (attempt : Nat)
  | runCancelled
  | raised (error : String)
  | died
deriving DecidableEq

/-- Where a call stands. `absent` is inside the claim transaction, after a SELECT that
found no row; `returned` and `raised` are before the final UPDATE. -/
inductive Phase where
  | entered
  | absent
  | claimed (attempt : Nat)
  | running (attempt : Nat)
  | returned (attempt : Nat) (result : Json)
  | raised (error : String)
  | done (e : Ending)
deriving DecidableEq

/-- The call holds a claim it has not let go of yet. -/
def Phase.claiming : Phase → Bool
  | .claimed _ | .running _ | .returned .. | .raised _ => true
  | .entered | .absent | .done _ => false

structure EffectCall where
  req : EffectRequest
  phase : Phase
deriving DecidableEq

/-- The claim transaction where the SELECT finds a row. -/
def claim (now : Time) (q : EffectRequest) (r : EffectRow) : EffectRow × Phase :=
  match r.status with
  | .completed => (r, .done (.returned ⟨r.result, true, r.attempt⟩))
  | .started =>
    if claimLive now r then (r, .done .effectAlreadyRunning)
    else if q.retryPolicy = .needsReconciliation then (r, .done (.needsReconciliation r.attempt))
    else (takeOver now q r, .claimed (r.attempt + 1))
  | .failed => (takeOver now q r, .claimed (r.attempt + 1))

def runCancelledError (runId : Uuid) : String :=
  "RunCancelled: run " ++ toString runId ++ " was cancelled"

/-- What can happen next to a call. -/
inductive CallAct where
  | claim (now : Time)
  | insert (now : Time)
  | start
  | startError (error : String)
  | settle (outcome : Except String Json)
  | finish (now : Time)
  | die

/-- One step of a call on the row of its own key. `cancelled` is what the cancellation
point reads; a raising one is handled like a raising effect. -/
def callStep (row : Option EffectRow) (cancelled : Bool) (c : EffectCall) :
    CallAct → Option (Option EffectRow × Phase)
  | .claim now =>
    match c.phase, row with
    | .entered, none => some (none, .absent)
    | .entered, some r => some (some (claim now c.req r).1, (claim now c.req r).2)
    | _, _ => none
  | .insert now =>
    match c.phase, row with
    | .absent, none => some (some (newEffect now c.req), .claimed 1)
    | .absent, some r => some (some r, .done .effectAlreadyRunning)
    | _, _ => none
  | .start =>
    match c.phase with
    | .claimed n =>
      some (row, if cancelled then .raised (runCancelledError c.req.runId) else .running n)
    | _ => none
  | .startError error =>
    match c.phase with
    | .claimed _ => some (row, .raised error)
    | _ => none
  | .settle outcome =>
    match c.phase, outcome with
    | .running n, .ok result => some (row, .returned n result)
    | .running _, .error error => some (row, .raised error)
    | _, _ => none
  | .finish now =>
    match c.phase with
    | .returned n result =>
      some (row.map (completeEffect now result), .done (.returned ⟨some result, false, n⟩))
    | .raised error => some (row.map (failEffect error), .done (.raised error))
    | _ => none
  | .die =>
    match c.phase with
    | .done _ => none
    | _ => some (row, .done .died)

/-! ## All calls together -/

structure EffectState where
  rows : EffectKey → Option EffectRow
  cancelled : Uuid → Bool
  calls : Nat → Option EffectCall
  /-- The effect bodies started so far: the call and its key. -/
  starts : List (Nat × EffectKey)

def EffectState.initial : EffectState := ⟨fun _ => none, fun _ => false, fun _ => none, []⟩

inductive EffectAct where
  | begin (k : Nat) (q : EffectRequest)
  | call (k : Nat) (a : CallAct)
  | reap (runIds : List Uuid)
  | requestCancel (runId : Uuid)

/-- The body starts when a claimed call passes its second cancellation point. -/
def startedBy (k : Nat) (c : EffectCall) (phase : Phase) : List (Nat × EffectKey) :=
  match c.phase, phase with
  | .claimed _, .running _ => [(k, c.req.key)]
  | _, _ => []

def effectStep (s : EffectState) : EffectAct → Option EffectState
  | .begin k q =>
    if s.calls k = none then
      some { s with
        calls := Function.update s.calls k
          (some ⟨q, if s.cancelled q.runId then .done .runCancelled else .entered⟩) }
    else none
  | .call k a => do
    let c ← s.calls k
    let (row, phase) ← callStep (s.rows c.req.key) (s.cancelled c.req.runId) c a
    some { s with
      rows := Function.update s.rows c.req.key row
      calls := Function.update s.calls k (some ⟨c.req, phase⟩)
      starts := s.starts ++ startedBy k c phase }
  | .reap runIds =>
    some { s with rows := fun x => if x.1 ∈ runIds then (s.rows x).map releaseClaim else s.rows x }
  | .requestCancel runId => some { s with cancelled := Function.update s.cancelled runId true }

/-! ## What a step does -/

theorem claim_completed {now : Time} {q : EffectRequest} {r : EffectRow}
    (h : r.status = .completed) :
    claim now q r = (r, .done (.returned ⟨r.result, true, r.attempt⟩)) := by
  simp only [claim, h]

theorem claim_failed {now : Time} {q : EffectRequest} {r : EffectRow} (h : r.status = .failed) :
    claim now q r = (takeOver now q r, .claimed (r.attempt + 1)) := by
  simp only [claim, h]

/-- Under the reconciliation policy a started row is never taken over. -/
theorem claim_started (now : Time) {q : EffectRequest} {r : EffectRow} (h : r.status = .started)
    (hq : q.retryPolicy = .needsReconciliation) :
    (claim now q r).1 = r ∧ ((claim now q r).2 = .done .effectAlreadyRunning ∨
      (claim now q r).2 = .done (.needsReconciliation r.attempt)) := by
  simp only [claim, h, hq, if_true]
  split
  · exact ⟨rfl, Or.inl rfl⟩
  · exact ⟨rfl, Or.inr rfl⟩

/-- Everything one step of a call can do to the row of its key and to its phase. -/
inductive CallMove (q : EffectRequest) :
    Option EffectRow → Phase → CallAct → Option EffectRow → Phase → Prop where
  | look (now : Time) : CallMove q none .entered (.claim now) none .absent
  | claim (now : Time) (r : EffectRow) :
    CallMove q (some r) .entered (.claim now) (some (claim now q r).1) (claim now q r).2
  | insert (now : Time) :
    CallMove q none .absent (.insert now) (some (newEffect now q)) (.claimed 1)
  | lose (now : Time) (r : EffectRow) :
    CallMove q (some r) .absent (.insert now) (some r) (.done .effectAlreadyRunning)
  | start (row : Option EffectRow) (n : Nat) : CallMove q row (.claimed n) .start row (.running n)
  | stop (row : Option EffectRow) (n : Nat) (error : String) :
    CallMove q row (.claimed n) .start row (.raised error)
  | stopError (row : Option EffectRow) (n : Nat) (error : String) :
    CallMove q row (.claimed n) (.startError error) row (.raised error)
  | settle (row : Option EffectRow) (n : Nat) (result : Json) :
    CallMove q row (.running n) (.settle (.ok result)) row (.returned n result)
  | throw (row : Option EffectRow) (n : Nat) (error : String) :
    CallMove q row (.running n) (.settle (.error error)) row (.raised error)
  | complete (row : Option EffectRow) (now : Time) (n : Nat) (result : Json) :
    CallMove q row (.returned n result) (.finish now) (row.map (completeEffect now result))
      (.done (.returned ⟨some result, false, n⟩))
  | fail (row : Option EffectRow) (now : Time) (error : String) :
    CallMove q row (.raised error) (.finish now) (row.map (failEffect error))
      (.done (.raised error))
  | die (row : Option EffectRow) (p : Phase) (h : ∀ e, p ≠ .done e) :
    CallMove q row p .die row (.done .died)

theorem callStep_move {row row' : Option EffectRow} {cancelled : Bool} {q : EffectRequest}
    {p p' : Phase} {a : CallAct} (h : callStep row cancelled ⟨q, p⟩ a = some (row', p')) :
    CallMove q row p a row' p' := by
  cases a with
  | claim now => cases p <;> cases row <;> cases h <;> constructor
  | insert now => cases p <;> cases row <;> cases h <;> constructor
  | start =>
    cases p with
    | claimed n =>
      cases cancelled with
      | false =>
        cases h
        exact .start row n
      | true =>
        cases h
        exact .stop row n _
    | _ => cases h
  | startError error => cases p <;> cases h; constructor
  | settle outcome => cases p <;> cases outcome <;> cases h <;> constructor
  | finish now => cases p <;> cases h <;> constructor
  | die =>
    cases p <;> cases h <;> exact .die _ _ nofun

theorem effectStep_begin {s t : EffectState} {k : Nat} {q : EffectRequest}
    (h : effectStep s (.begin k q) = some t) :
    s.calls k = none ∧ ∃ p, (p = .entered ∨ p = .done .runCancelled) ∧
      t = { s with calls := Function.update s.calls k (some ⟨q, p⟩) } := by
  simp only [effectStep] at h
  split at h
  · cases h
    refine ⟨‹_›, _, ?_, rfl⟩
    split
    · exact Or.inr rfl
    · exact Or.inl rfl
  · cases h

theorem effectStep_call {s t : EffectState} {k : Nat} {a : CallAct}
    (h : effectStep s (.call k a) = some t) :
    ∃ q p row p', s.calls k = some ⟨q, p⟩ ∧ CallMove q (s.rows q.key) p a row p' ∧
      t = { s with
        rows := Function.update s.rows q.key row
        calls := Function.update s.calls k (some ⟨q, p'⟩)
        starts := s.starts ++ startedBy k ⟨q, p⟩ p' } := by
  obtain ⟨⟨q, p⟩, hc, h⟩ := Option.bind_eq_some_iff.mp h
  obtain ⟨⟨row, p'⟩, hcall, hs⟩ := Option.bind_eq_some_iff.mp h
  exact ⟨q, p, row, p', hc, callStep_move hcall, (Option.some.inj hs).symm⟩

/-- A call keeps its request. -/
theorem effectStep_calls {s t : EffectState} {a : EffectAct} (h : effectStep s a = some t) {k : Nat}
    {q : EffectRequest} {p : Phase} (hk : s.calls k = some ⟨q, p⟩) :
    ∃ p', t.calls k = some ⟨q, p'⟩ := by
  cases a with
  | begin k' q' =>
    obtain ⟨hnone, p', -, rfl⟩ := effectStep_begin h
    have hne : k ≠ k' := by
      intro he
      rw [he, hnone] at hk
      cases hk
    exact ⟨p, by simp [Function.update_of_ne hne, hk]⟩
  | call k' a =>
    obtain ⟨q', p', row, p'', hc, -, rfl⟩ := effectStep_call h
    by_cases he : k = k'
    · subst he
      rw [hk] at hc
      cases hc
      exact ⟨p'', by simp⟩
    · exact ⟨p, by simp [Function.update_of_ne he, hk]⟩
  | reap runIds =>
    cases h
    exact ⟨p, hk⟩
  | requestCancel runId =>
    cases h
    exact ⟨p, hk⟩

/-- Every body on record was started by a call that is there. -/
def StartsRecorded (s : EffectState) : Prop := ∀ k x, (k, x) ∈ s.starts → s.calls k ≠ none

theorem mem_startedBy {k k' : Nat} {c : EffectCall} {p : Phase} {x : EffectKey}
    (h : (k', x) ∈ startedBy k c p) : k' = k ∧ x = c.req.key ∧ ∃ n, c.phase = .claimed n := by
  unfold startedBy at h
  split at h
  · rw [List.mem_singleton, Prod.mk.injEq] at h
    exact ⟨h.1, h.2, _, ‹_›⟩
  · cases h

theorem startsRecorded_step {s t : EffectState} {a : EffectAct} (hs : StartsRecorded s)
    (h : effectStep s a = some t) : StartsRecorded t := by
  intro k x hmem
  have hold : s.calls k ≠ none → t.calls k ≠ none := by
    intro hne
    obtain ⟨⟨q, p⟩, hc⟩ := Option.ne_none_iff_exists'.mp hne
    obtain ⟨p', hp'⟩ := effectStep_calls h hc
    simp [hp']
  cases a with
  | begin k' q =>
    obtain ⟨-, p, -, rfl⟩ := effectStep_begin h
    exact hold (hs k x hmem)
  | call k' a =>
    obtain ⟨q, p, row, p', hc, -, rfl⟩ := effectStep_call h
    rcases List.mem_append.mp hmem with hmem | hmem
    · exact hold (hs k x hmem)
    · obtain ⟨rfl, -, -⟩ := mem_startedBy hmem
      simp
  | reap runIds =>
    cases h
    exact hs k x hmem
  | requestCancel runId =>
    cases h
    exact hs k x hmem

theorem startsRecorded_reaches {acts : List EffectAct} {s : EffectState}
    (h : Reaches effectStep EffectState.initial acts s) : StartsRecorded s :=
  h.invariant (fun _ _ _ hs ht => startsRecorded_step hs ht)
    (fun _ _ hmem => absurd hmem List.not_mem_nil)

end AgenticPlatform.Correctness
