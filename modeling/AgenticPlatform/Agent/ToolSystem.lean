import AgenticPlatform.Agent.Tools
import AgenticPlatform.Foundation.Transition
import Mathlib.Logic.Function.Basic

/-!
# Calls, decisions and the two tables

Any number of `invoke` calls and decisions of one tenant, interleaved statement by
statement. `_start_execution` is a transaction of two writes: what it has written so
far stays with the call until it commits, and is dropped when it does not. An INSERT
under a key that another open transaction has inserted waits for that one to end, and
so does an UPDATE of an approval another one is consuming. A process may die at any
point, which drops its open transaction.
-/
namespace AgenticPlatform.Agent
open AgenticPlatform.Foundation AgenticPlatform.Identity AgenticPlatform.Db

/-- Where a call stands. The last but one is a committed receipt whose handler has not
been started, the last one a handler under way. -/
inductive CallState where
  | unused
  | prepared (p : Prepared)
  | requesting (p : Prepared)
  | asking (p : Prepared) (now : Time)
  | ready (p : Prepared)
  | inserted (p : Prepared) (now : Time) (row : ExecutionRow)
  | consumed (p : Prepared) (now : Time) (row : ExecutionRow) (approval : ApprovalRow)
  | ended (r : ToolResult)
  | running (p : Prepared) (executionId : Uuid)
  | executing (p : Prepared) (executionId : Uuid)

inductive DecisionState where
  | unused
  | checked (q : DecideRequest) (now : Time) (requestedBy : Uuid)
  | ended (r : Except DecideError ApprovalStatus)

/-- A committed `_start_execution`: the call, its receipt, the approval as it was when
the transaction consumed it, and the transaction's `now()`. -/
structure Commit where
  call : Nat
  executionId : Uuid
  prepared : Prepared
  approval : Option ApprovalRow
  now : Time

structure Start where
  call : Nat
  executionId : Uuid
  prepared : Prepared

inductive ToolEvent where
  | committed (c : Commit)
  | started (st : Start)
  | finished (executionId : Uuid) (outcome : HandlerOutcome)

structure ToolState where
  runs : List Uuid
  approvals : ApprovalTable
  executions : ExecutionTable
  calls : Nat → CallState
  decisions : Nat → DecisionState
  /-- The call whose open transaction has inserted a receipt under this key. -/
  keyLocks : String → Option Nat
  /-- The call whose open transaction has consumed this approval. -/
  approvalLocks : Uuid → Option Nat
  log : List ToolEvent

def ToolState.initial : ToolState :=
  ⟨[], Table.empty, Table.empty, fun _ => .unused, fun _ => .unused, fun _ => none,
    fun _ => none, []⟩

def ToolState.setCall (s : ToolState) (n : Nat) (st : CallState) : ToolState :=
  { s with calls := Function.update s.calls n st }

/-- The end of a call's transaction: its locks go. -/
def ToolState.unlock (s : ToolState) (n : Nat) : ToolState :=
  { s with
    keyLocks := fun key => (s.keyLocks key).filter (fun m => m ≠ n)
    approvalLocks := fun id => (s.approvalLocks id).filter (fun m => m ≠ n) }

def ToolState.record (s : ToolState) (e : ToolEvent) : ToolState := { s with log := s.log ++ [e] }

inductive ToolAct where
  | addRun (id : Uuid)
  | invoke (n : Nat) (q : InvokeRequest) (cancelled hasGrant : Bool)
  | lookup (n : Nat)
  | findApproval (n : Nat) (now : Time)
  | insertApproval (n : Nat) (approvalId : Uuid)
  | insertReceipt (n : Nat) (now : Time) (executionId : Uuid) (elsewhere : Bool)
  | consume (n : Nat)
  | commit (n : Nat)
  | abort (n : Nat)
  | startHandler (n : Nat) (stopped : Option String) (now : Time) (written : Bool)
  | finish (n : Nat) (outcome : HandlerOutcome) (now : Time) (written : Bool)
  | checkDecision (d : Nat) (q : DecideRequest) (now : Time)
  | writeDecision (d : Nat) (audited : Bool)

/-- The approval a receipt refers to must be a row, of this tenant or of another. -/
def refersToRow (approvals : ApprovalTable) (p : Prepared) (elsewhere : Bool) : Bool :=
  p.approvalId.elim true (fun id => id ∈ approvals.keys ∨ elsewhere)

/-- A call that is over, its result the receipt found under its key. -/
def ToolState.resolve (s : ToolState) (n : Nat) (p : Prepared) (row : ExecutionRow) : ToolState :=
  s.setCall n (.ended (resolveExisting row p.spec.name p.argumentsSha))

def runNotFound : ToolError := .conflict "run not found"

/-- The INSERT of `_start_execution` and, where it inserts nothing, the SELECT after it. -/
def insertReceipt (env : ToolEnv) (s : ToolState) (n : Nat) (p : Prepared) (now : Time)
    (executionId : Uuid) (elsewhere : Bool) : Option ToolState :=
  match existing s.executions (p.key env) with
  | some row => some (s.resolve n p row)
  | none =>
    if p.runId ∉ s.runs then some (s.setCall n (.ended (.error runNotFound)))
    else if s.keyLocks (p.key env) ≠ none then none
    else if refersToRow s.approvals p elsewhere then
      some { s.setCall n (.inserted p now (newReceipt env now p executionId)) with
        keyLocks := Function.update s.keyLocks (p.key env) (some n) }
    else some (s.setCall n (.ended (.error .database)))

/-- The UPDATE that consumes the approval; a call whose UPDATE matches nothing raises
and takes its receipt back. -/
def consumeApproval (s : ToolState) (n : Nat) (p : Prepared) (now : Time) (row : ExecutionRow) :
    Option ToolState :=
  match consumableApproval s.approvals now p with
  | none => some ((s.unlock n).setCall n (.ended (.error .approvalInvalid)))
  | some a =>
    if s.approvalLocks a.id ≠ none then none
    else
      some { s.setCall n (.consumed p now row a) with
        approvalLocks := Function.update s.approvalLocks a.id (some n) }

/-- COMMIT of `_start_execution`. -/
def commitExecution (s : ToolState) (n : Nat) (p : Prepared) (now : Time) (row : ExecutionRow)
    (approval : Option ApprovalRow) : Option ToolState :=
  (s.executions.tryInsert row).map (fun executions' =>
    (({ s.unlock n with
        executions := executions'
        approvals := s.approvals.updateWhere (fun a => approval.map ApprovalRow.id = some a.id)
          (consumeRow now) (fun _ => rfl) }).setCall
          n
          (.running p row.id)).record
      (.committed ⟨n, row.id, p, approval, now⟩))

/-- The end of a call: the receipt UPDATE, which the database may refuse. -/
def finishCall (env : ToolEnv) (s : ToolState) (n : Nat) (p : Prepared) (executionId : Uuid)
    (outcome : HandlerOutcome) (now : Time) (written : Bool) : ToolState :=
  let w := finishWrite env p.spec outcome
  { s with
    executions := if written then finishReceipt env s.executions now executionId w else s.executions
    calls := Function.update s.calls n
      (.ended (w.result p.spec executionId (w.saved s.executions executionId written))) }

def toolStep (env : ToolEnv) (s : ToolState) : ToolAct → Option ToolState
  | .addRun id => some { s with runs := id :: s.runs }
  | .invoke n q cancelled hasGrant =>
    match s.calls n with
    | .unused =>
      if q.ctx.tenant = env.tenant then
        match prepare env q cancelled hasGrant with
        | .ok p => some (s.setCall n (.prepared p))
        | .error e => some (s.setCall n (.ended (.error e)))
      else none
    | _ => none
  | .lookup n =>
    match s.calls n with
    | .prepared p =>
      match existing s.executions (p.key env) with
      | some row => some (s.resolve n p row)
      | none =>
        if p.spec.requiresApproval ∧ p.approvalId = none then some (s.setCall n (.requesting p))
        else some (s.setCall n (.ready p))
    | _ => none
  | .findApproval n now =>
    match s.calls n with
    | .requesting p =>
      if p.runId ∉ s.runs then some (s.setCall n (.ended (.error runNotFound)))
      else
        match reusableApproval s.approvals now p with
        | some a => some (s.setCall n (.ended (.error (.approvalRequired a.id))))
        | none => some (s.setCall n (.asking p now))
    | _ => none
  | .insertApproval n approvalId =>
    match s.calls n with
    | .asking p now =>
      (s.approvals.tryInsert (newApproval env now p approvalId)).map (fun approvals' =>
        { s.setCall n (.ended (.error (.approvalRequired approvalId))) with
          approvals := approvals' })
    | _ => none
  | .insertReceipt n now executionId elsewhere =>
    match s.calls n with
    | .ready p => insertReceipt env s n p now executionId elsewhere
    | _ => none
  | .consume n =>
    match s.calls n with
    | .inserted p now row => if p.spec.requiresApproval then consumeApproval s n p now row else none
    | _ => none
  | .commit n =>
    match s.calls n with
    | .inserted p now row => if p.spec.requiresApproval then none
      else commitExecution s n p now row none
    | .consumed p now row a => commitExecution s n p now row (some a)
    | _ => none
  | .abort n =>
    match s.calls n with
    | .unused | .ended _ => none
    | _ => some ((s.unlock n).setCall n (.ended (.error .database)))
  | .startHandler n stopped now written =>
    match s.calls n with
    | .running p executionId =>
      -- the cancellation point raises before the handler is submitted
      match stopped with
      | some text => some (finishCall env s n p executionId (.raised text) now written)
      | none => some ((s.setCall n (.executing p executionId)).record
        (.started ⟨n, executionId, p⟩))
    | _ => none
  | .finish n outcome now written =>
    match s.calls n with
    | .executing p executionId =>
      some ((finishCall env s n p executionId outcome now written).record
        (.finished executionId outcome))
    | _ => none
  | .checkDecision d q now =>
    match s.decisions d with
    | .unused =>
      if q.ctx.tenant = env.tenant then
        match decideCheck s.approvals q with
        | .ok requestedBy =>
          some { s with decisions := Function.update s.decisions d (.checked q now requestedBy) }
        | .error e => some { s with decisions := Function.update s.decisions d (.ended (.error e)) }
      else none
    | _ => none
  | .writeDecision d audited =>
    match s.decisions d with
    | .checked q now _ =>
      match decideUpdate s.approvals now q with
      | (_, none) =>
        some { s with
          decisions := Function.update s.decisions d (.ended (.error .expiredOrDecided)) }
      | (approvals', some a) =>
        -- the CHECK constraint, and the audit row that commits with the decision
        if a.decidedBy = some a.requestedBy ∨ audited = false then
          some { s with decisions := Function.update s.decisions d (.ended (.error .rolledBack)) }
        else
          some { s with
            approvals := approvals'
            decisions := Function.update s.decisions d (.ended (.ok a.status)) }
    | _ => none

/-! ## What a step can do -/

/-- The call has no lock and no receipt yet. -/
def CallState.early : CallState → Prop
  | .unused | .prepared _ | .requesting _ | .asking .. | .ready _ => True
  | _ => False

/-- Whatever a step does to the calls, the decisions and the tables. -/
inductive ToolMove (env : ToolEnv) (s : ToolState) : ToolAct → ToolState → Prop
  | addRun (id : Uuid) : ToolMove env s (.addRun id) { s with runs := id :: s.runs }
  /-- A call goes on, or ends, before it has written anything. -/
  | early {a : ToolAct} {n : Nat} {st : CallState} (hn : (s.calls n).early)
    (hst : st.early ∨ ∃ r, st = .ended r) : ToolMove env s a (s.setCall n st)
  | asked {n : Nat} {p : Prepared} {now : Time} {approvalId : Uuid} {approvals : ApprovalTable}
    (hn : s.calls n = .asking p now)
    (hins : s.approvals.tryInsert (newApproval env now p approvalId) = some approvals) :
    ToolMove env s (.insertApproval n approvalId)
      { s.setCall n (.ended (.error (.approvalRequired approvalId))) with approvals := approvals }
  | inserted {n : Nat} {p : Prepared} {now : Time} {executionId : Uuid} {elsewhere : Bool}
    (hn : s.calls n = .ready p) (hunused : existing s.executions (p.key env) = none)
    (hrun : p.runId ∈ s.runs) (hlock : s.keyLocks (p.key env) = none)
    (hrefers : refersToRow s.approvals p elsewhere = true) :
    ToolMove env s (.insertReceipt n now executionId elsewhere)
      { s.setCall n (.inserted p now (newReceipt env now p executionId)) with
          keyLocks := Function.update s.keyLocks (p.key env) (some n) }
  | unapproved {n : Nat} {p : Prepared} {now : Time} {row : ExecutionRow}
    (hn : s.calls n = .inserted p now row) (hnone : consumableApproval s.approvals now p = none) :
    ToolMove env s (.consume n) ((s.unlock n).setCall n (.ended (.error .approvalInvalid)))
  | consumed {n : Nat} {p : Prepared} {now : Time} {row : ExecutionRow} {a : ApprovalRow}
    (hn : s.calls n = .inserted p now row) (ha : consumableApproval s.approvals now p = some a)
    (hlock : s.approvalLocks a.id = none) :
    ToolMove env s (.consume n) { s.setCall n (.consumed p now row a) with
      approvalLocks := Function.update s.approvalLocks a.id (some n) }
  /-- COMMIT of `_start_execution`, with the approval it has consumed where one is needed. -/
  | committed {n : Nat} {p : Prepared} {now : Time} {row : ExecutionRow}
    {approval : Option ApprovalRow} {t : ToolState}
    (hn : (s.calls n = .inserted p now row ∧ p.spec.requiresApproval = false ∧ approval = none) ∨
      ∃ a, s.calls n = .consumed p now row a ∧ approval = some a)
    (ht : commitExecution s n p now row approval = some t) : ToolMove env s (.commit n) t
  | aborted (n : Nat) :
    ToolMove env s (.abort n) ((s.unlock n).setCall n (.ended (.error .database)))
  | stopped {n : Nat} {p : Prepared} {executionId : Uuid} {text : String} {now : Time}
    {written : Bool} (hn : s.calls n = .running p executionId) :
    ToolMove env s (.startHandler n (some text) now written)
      (finishCall env s n p executionId (.raised text) now written)
  | started {n : Nat} {p : Prepared} {executionId : Uuid} {now : Time} {written : Bool}
    (hn : s.calls n = .running p executionId) :
    ToolMove env s (.startHandler n none now written)
      ((s.setCall n (.executing p executionId)).record (.started ⟨n, executionId, p⟩))
  | finished {n : Nat} {p : Prepared} {executionId : Uuid} {outcome : HandlerOutcome} {now : Time}
    {written : Bool} (hn : s.calls n = .executing p executionId) :
    ToolMove env s (.finish n outcome now written)
      ((finishCall env s n p executionId outcome now written).record
        (.finished executionId outcome))
  | checked {d : Nat} {q : DecideRequest} {now : Time} {requestedBy : Uuid}
    (hcheck : decideCheck s.approvals q = .ok requestedBy) :
    ToolMove env s (.checkDecision d q now)
      { s with decisions := Function.update s.decisions d (.checked q now requestedBy) }
  | undecided {a : ToolAct} {d : Nat} (e : DecideError) :
    ToolMove env s a { s with decisions := Function.update s.decisions d (.ended (.error e)) }
  | decided {d : Nat} {audited : Bool} {q : DecideRequest} {now : Time} {requestedBy : Uuid}
    {approvals : ApprovalTable} {a : ApprovalRow} (hd : s.decisions d = .checked q now requestedBy)
    (hupdate : decideUpdate s.approvals now q = (approvals, some a))
    (hother : a.decidedBy ≠ some a.requestedBy) :
    ToolMove env s (.writeDecision d audited)
      { s with
        approvals := approvals, decisions := Function.update s.decisions d (.ended (.ok a.status)) }

section
variable {env : ToolEnv} {s t : ToolState} {a : ToolAct}

theorem insertReceipt_move {n : Nat} {p : Prepared} {now : Time} {executionId : Uuid}
    {elsewhere : Bool} (hn : s.calls n = .ready p)
    (ht : insertReceipt env s n p now executionId elsewhere = some t) :
    ToolMove env s (.insertReceipt n now executionId elsewhere) t := by
  have hearly : (s.calls n).early := by
    rw [hn]
    trivial
  unfold insertReceipt at ht
  split at ht
  · cases ht
    exact .early hearly (Or.inr ⟨_, rfl⟩)
  · rename_i hunused
    split at ht
    · cases ht
      exact .early hearly (Or.inr ⟨_, rfl⟩)
    · rename_i hrun
      split at ht
      · cases ht
      · rename_i hlock
        split at ht
        · rename_i hrefers
          cases ht
          exact .inserted hn hunused (not_not.mp hrun) (not_not.mp hlock) hrefers
        · cases ht
          exact .early hearly (Or.inr ⟨_, rfl⟩)

theorem consumeApproval_move {n : Nat} {p : Prepared} {now : Time} {row : ExecutionRow}
    (hn : s.calls n = .inserted p now row) (ht : consumeApproval s n p now row = some t) :
    ToolMove env s (.consume n) t := by
  unfold consumeApproval at ht
  split at ht
  · rename_i hnone
    cases ht
    exact .unapproved hn hnone
  · rename_i a ha
    split at ht
    · cases ht
    · rename_i hlock
      cases ht
      exact .consumed hn ha (not_not.mp hlock)

theorem toolStep_move (h : toolStep env s a = some t) : ToolMove env s a t := by
  cases a with
  | addRun id =>
    cases h
    exact .addRun id
  | invoke n q cancelled hasGrant =>
    simp only [toolStep] at h
    split at h
    · rename_i hn
      have hearly : (s.calls n).early := hn ▸ trivial
      split at h
      · split at h
        · cases h
          exact .early hearly (Or.inl trivial)
        · cases h
          exact .early hearly (Or.inr ⟨_, rfl⟩)
      · cases h
    · cases h
  | lookup n =>
    simp only [toolStep] at h
    split at h
    · rename_i p hn
      have hearly : (s.calls n).early := hn ▸ trivial
      split at h
      · cases h
        exact .early hearly (Or.inr ⟨_, rfl⟩)
      · split at h
        · cases h
          exact .early hearly (Or.inl trivial)
        · cases h
          exact .early hearly (Or.inl trivial)
    · cases h
  | findApproval n now =>
    simp only [toolStep] at h
    split at h
    · rename_i p hn
      have hearly : (s.calls n).early := hn ▸ trivial
      split at h
      · cases h
        exact .early hearly (Or.inr ⟨_, rfl⟩)
      · split at h
        · cases h
          exact .early hearly (Or.inr ⟨_, rfl⟩)
        · cases h
          exact .early hearly (Or.inl trivial)
    · cases h
  | insertApproval n approvalId =>
    simp only [toolStep] at h
    split at h
    · rename_i p now hn
      obtain ⟨approvals, hins, rfl⟩ := Option.map_eq_some_iff.mp h
      exact .asked hn hins
    · cases h
  | insertReceipt n now executionId elsewhere =>
    simp only [toolStep] at h
    split at h
    · rename_i p hn
      exact insertReceipt_move hn h
    · cases h
  | consume n =>
    simp only [toolStep] at h
    split at h
    · rename_i p now row hn
      split at h
      · exact consumeApproval_move hn h
      · cases h
    · cases h
  | commit n =>
    simp only [toolStep] at h
    split at h
    · rename_i p now row hn
      split at h
      · cases h
      · rename_i hgate
        exact .committed (Or.inl ⟨hn, by simpa using hgate, rfl⟩) h
    · rename_i p now row a hn
      exact .committed (Or.inr ⟨a, hn, rfl⟩) h
    · cases h
  | abort n =>
    simp only [toolStep] at h
    split at h
    · cases h
    · cases h
    · cases h
      exact .aborted n
  | startHandler n stopped now written =>
    simp only [toolStep] at h
    split at h
    · rename_i p executionId hn
      split at h
      · cases h
        exact .stopped hn
      · cases h
        exact .started hn
    · cases h
  | finish n outcome now written =>
    simp only [toolStep] at h
    split at h
    · rename_i p executionId hn
      cases h
      exact .finished hn
    · cases h
  | checkDecision d q now =>
    simp only [toolStep] at h
    split at h
    · split at h
      · split at h
        · cases h
          exact .checked ‹_›
        · cases h
          exact .undecided _
      · cases h
    · cases h
  | writeDecision d audited =>
    simp only [toolStep] at h
    split at h
    · rename_i q now requestedBy hd
      split at h
      · cases h
        exact .undecided _
      · rename_i approvals a hupdate
        split at h
        · cases h
          exact .undecided _
        · rename_i hwritten
          cases h
          exact .decided hd hupdate (fun hself => hwritten (Or.inl hself))
    · cases h

end

end AgenticPlatform.Agent
