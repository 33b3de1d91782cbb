import AgenticPlatform.Correctness.LeaseSystem
import AgenticPlatform.Correctness.Relay

/-!
# The sweeper and the broker

A pointer is published by a relay pass or by a sweep and then travels through the
broker, which may deliver it, deliver it again, or lose it. `sweep` reaps, selects the
stranded runs, and for each of them publishes a pointer and marks the run in a
transaction of its own, so that anything may happen between the two. Single statements
run at the reading of the clock; a relay pass keeps the reading of its begin.
-/
namespace AgenticPlatform.Correctness
open AgenticPlatform.Foundation AgenticPlatform.Identity AgenticPlatform.Db

/-! ## The query of the sweep -/

def lostPointerAfter : Time := 45

/-- LIMIT of the query. -/
def sweepLimit : Nat := 100

/-- The WHERE clause of the `ranked` CTE. -/
def stranded (now : Time) (r : RunRow) : Prop :=
  r.status = .pending ∧ r.attempt < r.maxAttempts ∧
    r.availableAt ≤ now ∧ r.cancelRequestedAt = none ∧
    (r.lastEnqueuedAt = none ∨
      (r.attempt = 0 ∧ ∃ t ∈ r.lastEnqueuedAt, t < now - lostPointerAfter) ∨
      (0 < r.attempt ∧ ∃ t ∈ r.lastEnqueuedAt, t < r.availableAt))

instance (now : Time) (r : RunRow) : Decidable (stranded now r) :=
  inferInstanceAs (Decidable (_ ∧ _))

/-- `row_number()` of a run among the rows of its tenant, in serving order. -/
def tenantPosition (rows : List RunRow) (r : RunRow) : Nat :=
  ((rows.filter (fun x => x.tenantId = r.tenantId)).insertionSort servedBefore).idxOf r + 1

/-- ORDER BY tenant_position, available_at. -/
def sweptBefore (rows : List RunRow) (a b : RunRow) : Prop :=
  tenantPosition rows a < tenantPosition rows b ∨
    (tenantPosition rows a = tenantPosition rows b ∧ a.availableAt ≤ b.availableAt)

instance (rows : List RunRow) : DecidableRel (sweptBefore rows) :=
  fun _ _ => inferInstanceAs (Decidable (_ ∨ _))

/-- The stranded runs in the order the sweep takes them. -/
def sweepOrder (run : RunTable) (now : Time) : List RunRow :=
  let rows := run.rows.filter (fun r => stranded now r)
  rows.insertionSort (sweptBefore rows)

def strandedRuns (run : RunTable) (now : Time) (limit : Nat) : List RunRow :=
  (sweepOrder run now).take limit

theorem mem_sweepOrder {run : RunTable} {now : Time} {r : RunRow} :
    r ∈ sweepOrder run now ↔ r ∈ run.rows ∧ stranded now r := by
  rw [sweepOrder, List.mem_insertionSort, List.mem_filter, decide_eq_true_eq]

/-- A stranded run is selected by every sweep whose limit reaches its place. -/
theorem stranded_is_selected {run : RunTable} {now : Time} {r : RunRow} (hr : r ∈ run.rows)
    (h : stranded now r) : ∃ place, ∀ limit, place < limit → r ∈ strandedRuns run now limit := by
  obtain ⟨place, hlt, hget⟩ := List.getElem_of_mem (mem_sweepOrder.mpr ⟨hr, h⟩)
  refine ⟨place, ?_⟩
  intro limit hlimit
  rw [strandedRuns, List.mem_take_iff_getElem]
  exact ⟨place, by omega, hget⟩

/-! ## The machine -/

/-- What the broker carries: the run to execute and its tenant. -/
structure Pointer where
  runId : Uuid
  tenantId : Uuid
deriving DecidableEq

def RunRow.pointer (r : RunRow) : Pointer := ⟨r.id, r.tenantId⟩

def OutboxRow.pointer (o : OutboxRow) : Pointer := ⟨o.runId, o.tenantId⟩

/-- Where a sweep stands: before its query, or with the selected runs still to be
published, one of them possibly published and not yet marked. -/
inductive SweeperState where
  | idle
  | reaped
  | sending (todo : List Pointer)
  | marking (p : Pointer) (todo : List Pointer)
  | crashed
deriving DecidableEq

structure SweepState where
  now : Time
  relay : RelayState
  sweepers : Nat → SweeperState
  /-- The pointers the broker still holds. -/
  flight : List Pointer
  /-- When the most recent pointer of a run was published. -/
  lastPublished : Uuid → Option Time

def SweepState.initial : SweepState :=
  ⟨0, RelayState.initial Store.empty, fun _ => .idle, [], fun _ => none⟩

abbrev SweepState.run (s : SweepState) : RunTable := s.relay.db.run

def SweepState.setRun (s : SweepState) (run : RunTable) : SweepState :=
  { s with relay := { s.relay with db := { s.relay.db with run := run } } }

def SweepState.setSweeper (s : SweepState) (k : Nat) (st : SweeperState) : SweepState :=
  { s with sweepers := Function.update s.sweepers k st }

/-- A publish that returned: the broker holds one more pointer. -/
def SweepState.send (s : SweepState) (p : Pointer) : SweepState :=
  { s with
    flight := s.flight ++ [p]
    lastPublished := Function.update s.lastPublished p.runId (some s.now) }

inductive SweepAct where
  | tick (now : Time)
  | exec (op : LeaseOp)
  | relay (a : RelayAct)
  | sweep (k : Nat) (draw : Uuid → Draw)
  | query (k : Nat)
  | republish (k : Nat) (error : Option String)
  | mark (k : Nat) (error : Option String)
  | crash (k : Nat)
  | deliver (p : Pointer) (slug : String) (worker : String) (lease : Time) (acked : Bool)
  | lose (p : Pointer)

/-- A pass begins at the reading of the clock. -/
def beginsAt (now : Time) : RelayAct → Prop
  | .begin _ t _ => t = now
  | _ => True

instance (now : Time) : (a : RelayAct) → Decidable (beginsAt now a)
  | .begin _ t _ => inferInstanceAs (Decidable (t = now))
  | .lock _ | .publish _ _ | .commit _ | .crash _ => isTrue trivial

/-- The row a relay step hands to the broker. -/
def handed (s : RelayState) : RelayAct → Option OutboxRow
  | .publish k none =>
    match s.passes k with
    | .active p => p.locked.head?
    | _ => none
  | _ => none

/-- The UPDATE of the sweep's second transaction. -/
def markPublished (run : RunTable) (now : Time) (runId : Uuid) : RunTable :=
  run.updateWhere (fun r => r.id = runId) (markRun now) (fun _ => rfl)

def sweepStep (c : RetrySettings) (s : SweepState) : SweepAct → Option SweepState
  | .tick now => if s.now ≤ now then some { s with now := now } else none
  | .exec op =>
    (exec c s.relay.db s.now op).map
      (fun (db', _) => { s with relay := { s.relay with db := db' } })
  | .relay a =>
    if beginsAt s.now a then
      (relayStep s.relay a).map (fun relay' =>
        (handed s.relay a).elim { s with relay := relay' }
          (fun o => SweepState.send { s with relay := relay' } (OutboxRow.pointer o)))
    else none
  | .sweep k draw =>
    match s.sweepers k with
    | .idle => some ((s.setRun (reapExpired c s.run s.now 0 draw).1).setSweeper k .reaped)
    | _ => none
  | .query k =>
    match s.sweepers k with
    | .reaped =>
      some (s.setSweeper k (.sending ((strandedRuns s.run s.now sweepLimit).map RunRow.pointer)))
    | _ => none
  | .republish k error =>
    match s.sweepers k with
    | .sending (p :: todo) =>
      some (error.elim ((s.send p).setSweeper k (.marking p todo))
        (fun _ => s.setSweeper k (.sending todo)))
    | _ => none
  | .mark k error =>
    match s.sweepers k with
    | .marking p todo =>
      some ((error.elim (s.setRun (markPublished s.run s.now p.runId)) (fun _ => s)).setSweeper k
        (.sending todo))
    | _ => none
  | .crash k => some (s.setSweeper k .crashed)
  | .deliver p slug worker lease acked =>
    if p ∈ s.flight then
      let (run', _) := acquireSpecific s.run s.now ⟨p.tenantId, slug⟩ p.runId worker lease
      some { s.setRun run' with flight := if acked then s.flight.erase p else s.flight }
    else none
  | .lose p => if p ∈ s.flight then some { s with flight := s.flight.erase p } else none

/-! ## What should hold -/

def inFlight (flight : List Pointer) (runId : Uuid) : Prop := ∃ p ∈ flight, p.runId = runId

instance (flight : List Pointer) (runId : Uuid) : Decidable (inFlight flight runId) :=
  inferInstanceAs (Decidable (∃ p ∈ flight, _))

/-- A run that could execute, whose outbox row is published and whose most recent
pointer has been gone for longer than the sweep waits. -/
structure LostPointer (s : SweepState) (r : RunRow) : Prop where
  pending : r.status = .pending
  due : r.availableAt ≤ s.now
  uncancelled : r.cancelRequestedAt = none
  attempts : r.attempt < r.maxAttempts
  published : ∃ o ∈ s.relay.db.outbox.rows, o.runId = r.id ∧ o.publishedAt ≠ none
  aged : ∃ t ∈ s.lastPublished r.id, t < s.now - lostPointerAfter
  gone : ¬ inFlight s.flight r.id

instance (s : SweepState) (r : RunRow) : Decidable (LostPointer s r) :=
  decidable_of_iff (r.status = .pending ∧ r.availableAt ≤ s.now ∧
    r.cancelRequestedAt = none ∧ r.attempt < r.maxAttempts ∧
    (∃ o ∈ s.relay.db.outbox.rows, o.runId = r.id ∧ o.publishedAt ≠ none) ∧
    (∃ t ∈ s.lastPublished r.id, t < s.now - lostPointerAfter) ∧ ¬ inFlight s.flight r.id)
    ⟨fun ⟨h1, h2, h3, h4, h5, h6, h7⟩ => ⟨h1, h2, h3, h4, h5, h6, h7⟩,
      fun h => ⟨h.pending, h.due, h.uncancelled, h.attempts, h.published, h.aged, h.gone⟩⟩

/-- Every such run is seen by the query of a sweep made now, and republished by it
when its place is within the limit. -/
def NoStrandedRun (s : SweepState) : Prop :=
  ∀ r ∈ s.run.rows, LostPointer s r →
    stranded s.now r ∧ ∃ place, ∀ limit, place < limit → r ∈ strandedRuns s.run s.now limit

end AgenticPlatform.Correctness
