import AgenticPlatform.Agent.ToolSystem

/-!
# The approval protocol

Every start of a gated handler was paid for: the transaction that created its receipt
consumed an approval that was approved by somebody else, not yet consumed and not yet
expired, for the same run, tool and arguments. Receipts and consumptions are exactly
those of committed transactions, so a refused call leaves neither.
-/
namespace AgenticPlatform.Agent
open AgenticPlatform.Foundation AgenticPlatform.Identity AgenticPlatform.Db

/-! ## What the log says -/

def ToolEvent.commit? : ToolEvent → Option Commit
  | .committed c => some c
  | .started _ | .finished .. => none

def ToolEvent.start? : ToolEvent → Option Start
  | .started st => some st
  | .committed _ | .finished .. => none

def commits (log : List ToolEvent) : List Commit := log.filterMap ToolEvent.commit?

def starts (log : List ToolEvent) : List Start := log.filterMap ToolEvent.start?

def Commit.start (c : Commit) : Start := ⟨c.call, c.executionId, c.prepared⟩

def Commit.approvalId (c : Commit) : Option Uuid := c.approval.map ApprovalRow.id

/-- The approval lets the call start: it matches the WHERE clause of the consumption
and was decided by somebody other than its requester. -/
def Approves (now : Time) (p : Prepared) (a : ApprovalRow) : Prop :=
  consumable now p a ∧ ∃ by_, a.decidedBy = some by_ ∧ by_ ≠ a.requestedBy

/-- A result `_start_execution` can raise. -/
def Refused (r : ToolResult) : Prop :=
  r = .error .approvalInvalid ∨ ∃ text, r = .error (.conflict text)

/-- A call that has got past `_start_execution`. -/
def Past : CallState → Prop
  | .running .. | .executing .. => True
  | .ended r => ¬ Refused r
  | _ => False

/-- The receipts, as far as no finishing UPDATE changes them. -/
def receiptKeys (executions : ExecutionTable) : List (Uuid × String) :=
  executions.rows.map (fun e => (e.id, e.idempotencyKey))

/-- What an open `_start_execution` has written, and the locks it holds for it. -/
structure Writing (env : ToolEnv) (s : ToolState) (n : Nat) (p : Prepared) (now : Time)
    (row : ExecutionRow) : Prop where
  receipt : row = newReceipt env now p row.id
  locked : s.keyLocks (p.key env) = some n
  unused : existing s.executions (p.key env) = none

structure Consuming (s : ToolState) (n : Nat) (p : Prepared) (now : Time) (a : ApprovalRow) :
    Prop where
  consumable : consumable now p a
  current : a ∈ s.approvals.rows
  locked : s.approvalLocks a.id = some n

/-- A committed receipt whose handler has not been started. -/
structure Waiting (s : ToolState) (n : Nat) (p : Prepared) (executionId : Uuid) : Prop where
  committed : ∃ c ∈ commits s.log, c.start = ⟨n, executionId, p⟩
  fresh : executionId ∉ (starts s.log).map Start.executionId

/-- What a call's state promises about the tables, the locks and the log. -/
def CallOk (env : ToolEnv) (s : ToolState) (n : Nat) : CallState → Prop
  | .inserted p now row => Writing env s n p now row
  | .consumed p now row a => Writing env s n p now row ∧ Consuming s n p now a
  | .running p executionId => Waiting s n p executionId
  | _ => True

/-- A decision that passed its checks is made by somebody other than the requester. -/
def DecisionOk (approvals : ApprovalTable) : DecisionState → Prop
  | .checked q _ requestedBy =>
    q.ctx.principal.id ≠ requestedBy ∧ ∃ a ∈ approvals.rows, a.id = q.approvalId ∧
      a.requestedBy = requestedBy
  | _ => True

/-- The committed tables are what the committed transactions wrote. -/
structure CommitInv (env : ToolEnv) (approvals : ApprovalTable) (executions : ExecutionTable)
    (cs : List Commit) : Prop where
  keys : ((receiptKeys executions).map Prod.snd).Nodup
  receipts : receiptKeys executions = cs.map (fun c => (c.executionId, c.prepared.key env))
  decided : ∀ a ∈ approvals.rows, a.status = .approved → ∃ by_, a.decidedBy = some by_ ∧
    by_ ≠ a.requestedBy
  paid : ∀ c ∈ cs, c.prepared.spec.requiresApproval = true →
    ∃ a, c.approval = some a ∧ Approves c.now c.prepared a
  consumptions : ∀ a ∈ approvals.rows, ∀ now, a.consumedAt = some now ↔
    ∃ c ∈ cs, c.approvalId = some a.id ∧ c.now = now
  known : ∀ c ∈ cs, ∀ id ∈ c.approvalId, id ∈ approvals.keys
  consumedOnce : (cs.filterMap Commit.approvalId).Nodup

/-- Every start comes after the commit it belongs to, and no receipt is started twice. -/
structure StartInv (log : List ToolEvent) : Prop where
  preceded : ∀ pre post st, log = pre ++ .started st :: post → ∃ c ∈ commits pre, c.start = st
  once : ((starts log).map Start.executionId).Nodup

structure ToolInv (env : ToolEnv) (s : ToolState) : Prop where
  tables : CommitInv env s.approvals s.executions (commits s.log)
  started : StartInv s.log
  calls : ∀ n, CallOk env s n (s.calls n)
  decisions : ∀ d, DecisionOk s.approvals (s.decisions d)
  past : ∀ c ∈ commits s.log, Past (s.calls c.call)

theorem commitInv_initial (env : ToolEnv) : CommitInv env Table.empty Table.empty [] := by
  constructor
  · exact List.nodup_nil
  · rfl
  · intro a ha
    cases ha
  · intro c hc
    cases hc
  · intro a ha
    cases ha
  · intro c hc
    cases hc
  · exact List.nodup_nil

theorem startInv_initial : StartInv [] := by
  constructor
  · intro pre post st h
    cases pre <;> cases h
  · exact List.nodup_nil

theorem toolInv_initial (env : ToolEnv) : ToolInv env ToolState.initial :=
  ⟨commitInv_initial env, startInv_initial, fun _ => trivial, fun _ => trivial,
    fun c hc => by cases hc⟩

/-! ## Frames -/

/-- A call keeps what it was promised while its locks, the rows they protect and the
log it relies on stay. -/
theorem callOk_frame {env : ToolEnv} {s t : ToolState} {n : Nat} {st : CallState}
    (h : CallOk env s n st)
    (hkeys : ∀ key, s.keyLocks key = some n → t.keyLocks key = some n ∧
      (existing s.executions key = none → existing t.executions key = none))
    (happrovals : ∀ a ∈ s.approvals.rows, s.approvalLocks a.id = some n →
      t.approvalLocks a.id = some n ∧ (a.status = .approved → a ∈ t.approvals.rows))
    (hcommits : ∀ c ∈ commits s.log, c ∈ commits t.log)
    (hstarts : ∀ p executionId, st = .running p executionId →
      executionId ∉ (starts s.log).map Start.executionId →
      executionId ∉ (starts t.log).map Start.executionId) : CallOk env t n st := by
  have hwriting : ∀ p now row, Writing env s n p now row → Writing env t n p now row := by
    intro p now row hw
    exact ⟨hw.receipt, (hkeys _ hw.locked).1, (hkeys _ hw.locked).2 hw.unused⟩
  cases st with
  | inserted p now row => exact hwriting p now row h
  | consumed p now row a =>
    obtain ⟨hw, hc⟩ := h
    obtain ⟨hlock, hkeep⟩ := happrovals a hc.current hc.locked
    exact ⟨hwriting p now row hw, hc.consumable, hkeep hc.consumable.2.2.2.2.1, hlock⟩
  | running p executionId =>
    obtain ⟨⟨c, hc, he⟩, hfresh⟩ := h
    exact ⟨⟨c, hcommits c hc, he⟩, hstarts p executionId rfl hfresh⟩
  | unused => trivial
  | prepared p => trivial
  | requesting p => trivial
  | asking p now => trivial
  | ready p => trivial
  | ended r => trivial
  | executing p executionId => trivial

theorem callOk_congr {env : ToolEnv} {s t : ToolState} {n : Nat} {st : CallState}
    (h : CallOk env s n st) (hexecutions : t.executions = s.executions)
    (happrovals : t.approvals = s.approvals) (hkeys : t.keyLocks = s.keyLocks)
    (hlocks : t.approvalLocks = s.approvalLocks) (hlog : t.log = s.log) : CallOk env t n st := by
  apply callOk_frame h
  · intro key hk
    rw [hkeys, hexecutions]
    exact ⟨hk, id⟩
  · intro a ha hl
    rw [hlocks, happrovals]
    exact ⟨hl, fun _ => ha⟩
  · rw [hlog]
    exact fun c hc => hc
  · rw [hlog]
    exact fun p executionId _ hf => hf

/-- Moving one call, everything else as before. -/
theorem toolInv_setCall {env : ToolEnv} {s : ToolState} {n : Nat} {st : CallState}
    (h : ToolInv env s) (hst : CallOk env s n st)
    (hpast : (∃ c ∈ commits s.log, c.call = n) → Past st) : ToolInv env (s.setCall n st) where
  tables := h.tables
  started := h.started
  calls := by
    intro m
    by_cases he : m = n
    · subst he
      simp only [ToolState.setCall, Function.update_self]
      exact callOk_congr hst rfl rfl rfl rfl rfl
    · simp only [ToolState.setCall, Function.update_of_ne he]
      exact callOk_congr (h.calls m) rfl rfl rfl rfl rfl
  decisions := h.decisions
  past := by
    intro c hc
    by_cases he : c.call = n
    · simp only [ToolState.setCall, he, Function.update_self]
      exact hpast ⟨c, hc, he⟩
    · simp only [ToolState.setCall, Function.update_of_ne he]
      exact h.past c hc

/-- A call that has not got past `_start_execution` has no commit in the log. -/
theorem ToolInv.no_commit {env : ToolEnv} {s : ToolState} {n : Nat} (h : ToolInv env s)
    (hn : ¬ Past (s.calls n)) : ¬ ∃ c ∈ commits s.log, c.call = n := by
  rintro ⟨c, hc, rfl⟩
  exact hn (h.past c hc)

/-- A step of a call that holds nothing and writes nothing. -/
theorem toolInv_plain {env : ToolEnv} {s : ToolState} {n : Nat} {st : CallState} (h : ToolInv env s)
    (hn : ¬ Past (s.calls n)) (hst : CallOk env s n st) : ToolInv env (s.setCall n st) :=
  toolInv_setCall h hst (fun hc => absurd hc (h.no_commit hn))

/-- Giving up the locks of a call that is moved on to the end of its transaction. -/
theorem toolInv_unlock {env : ToolEnv} {s : ToolState} {n : Nat} {r : ToolResult}
    (h : ToolInv env s) (hpast : (∃ c ∈ commits s.log, c.call = n) → ¬ Refused r) :
    ToolInv env ((s.unlock n).setCall n (.ended r)) where
  tables := h.tables
  started := h.started
  calls := by
    intro m
    by_cases he : m = n
    · subst he
      simp only [ToolState.setCall, Function.update_self]
      trivial
    · simp only [ToolState.setCall, Function.update_of_ne he]
      have hkeep : ∀ o : Option Nat, o = some m → o.filter (fun k => k ≠ n) = some m := by
        rintro _ rfl
        simp [Option.filter, he]
      exact callOk_frame (h.calls m) (fun key hk => ⟨hkeep _ hk, id⟩)
        (fun a ha hl => ⟨hkeep _ hl, fun _ => ha⟩) (fun c hc => hc) (fun p executionId _ hf => hf)
  decisions := h.decisions
  past := by
    intro c hc
    by_cases he : c.call = n
    · simp only [ToolState.setCall, he, Function.update_self]
      exact hpast ⟨c, hc, he⟩
    · simp only [ToolState.setCall, Function.update_of_ne he]
      exact h.past c hc

/-! ## The log grows -/

theorem commits_snoc (log : List ToolEvent) (e : ToolEvent) :
    commits (log ++ [e]) = commits log ++ e.commit?.toList := by
  cases e <;> simp [commits, ToolEvent.commit?]

theorem starts_snoc (log : List ToolEvent) (e : ToolEvent) :
    starts (log ++ [e]) = starts log ++ e.start?.toList := by
  cases e <;> simp [starts, ToolEvent.start?]

/-- A start in a log that has grown by one event is the new event or an old one. -/
theorem started_snoc {log pre post : List ToolEvent} {e : ToolEvent} {st : Start}
    (h : log ++ [e] = pre ++ .started st :: post) :
    (pre = log ∧ e = .started st) ∨ ∃ post', log = pre ++ .started st :: post' := by
  rcases post.eq_nil_or_concat with rfl | ⟨post', e', rfl⟩
  · obtain ⟨hlog, he⟩ := List.append_inj' h rfl
    exact Or.inl ⟨hlog.symm, List.singleton_inj.mp he⟩
  · rw [List.concat_eq_append, ← List.cons_append, ← List.append_assoc] at h
    exact Or.inr ⟨post', (List.append_inj' h rfl).1⟩

/-- One more event: a start has to name a commit already in the log, of a receipt not
started before. -/
theorem startInv_snoc {log : List ToolEvent} {e : ToolEvent} (h : StartInv log)
    (he : ∀ st, e = .started st →
      (∃ c ∈ commits log, c.start = st) ∧ st.executionId ∉ (starts log).map Start.executionId) :
    StartInv (log ++ [e]) := by
  constructor
  · intro pre post st hsplit
    rcases started_snoc hsplit with ⟨rfl, rfl⟩ | ⟨post', hlog⟩
    · exact (he st rfl).1
    · exact h.preceded pre post' st hlog
  · rw [starts_snoc, List.map_append]
    cases e with
    | started st =>
      refine List.nodup_append.mpr ⟨h.once, List.nodup_singleton _, ?_⟩
      intro x hx y hy hxy
      apply (he st rfl).2
      rw [← List.mem_singleton.mp hy, ← hxy]
      exact hx
    | committed c => simpa [ToolEvent.start?] using h.once
    | finished executionId outcome => simpa [ToolEvent.start?] using h.once

/-- The commit of an execution is found by the id of its receipt. -/
theorem CommitInv.unique {env : ToolEnv} {approvals : ApprovalTable} {executions : ExecutionTable}
    {cs : List Commit} (h : CommitInv env approvals executions cs) {c c' : Commit} (hc : c ∈ cs)
    (hc' : c' ∈ cs) (he : c.executionId = c'.executionId) : c = c' := by
  have hids : (cs.map Commit.executionId).Nodup := by
    have hmap := congrArg (List.map Prod.fst) h.receipts
    rw [receiptKeys, List.map_map, List.map_map] at hmap
    exact hmap ▸ executions.nodup
  exact List.inj_on_of_nodup_map hids hc hc' he

theorem ToolInv.waiting {env : ToolEnv} {s : ToolState} {n : Nat} {p : Prepared}
    {executionId : Uuid} (h : ToolInv env s) (hn : s.calls n = .running p executionId) :
    Waiting s n p executionId := by
  have hok := h.calls n
  rw [hn] at hok
  exact hok

/-- Two calls never wait to start the same receipt. -/
theorem ToolInv.waiting_unique {env : ToolEnv} {s : ToolState} {n m : Nat} {p p' : Prepared}
    {executionId : Uuid} (h : ToolInv env s) (hn : s.calls n = .running p executionId)
    (hm : s.calls m = .running p' executionId) : n = m := by
  obtain ⟨c, hc, hstart⟩ := (h.waiting hn).committed
  obtain ⟨c', hc', hstart'⟩ := (h.waiting hm).committed
  have hsame : c = c' :=
    h.tables.unique hc hc'
      ((congrArg Start.executionId hstart).trans (congrArg Start.executionId hstart').symm)
  rw [hsame] at hstart
  exact congrArg Start.call (hstart.symm.trans hstart')

/-! ## Each step keeps the invariant -/

/-- A handler is started. -/
theorem toolInv_start {env : ToolEnv} {s : ToolState} {n : Nat} {p : Prepared} {executionId : Uuid}
    (h : ToolInv env s) (hn : s.calls n = .running p executionId) :
    ToolInv env ((s.setCall n (.executing p executionId)).record
      (.started ⟨n, executionId, p⟩)) := by
  have hcommits : commits (s.log ++ [.started ⟨n, executionId, p⟩]) = commits s.log :=
    (commits_snoc _ _).trans (List.append_nil _)
  have hnext : ToolInv env (s.setCall n (.executing p executionId)) :=
    toolInv_setCall h trivial (fun _ => trivial)
  constructor
  · show CommitInv env s.approvals s.executions (commits (s.log ++ _))
    rw [hcommits]
    exact h.tables
  · apply startInv_snoc h.started
    rintro st ⟨⟩
    exact ⟨(h.waiting hn).committed, (h.waiting hn).fresh⟩
  · intro m
    refine callOk_frame (hnext.calls m) (fun key hk => ⟨hk, id⟩)
      (fun a ha hl => ⟨hl, fun _ => ha⟩) ?_ ?_
    · show ∀ c ∈ commits s.log, c ∈ commits (s.log ++ _)
      rw [hcommits]
      exact fun c hc => hc
    · intro p' executionId' hm hold
      show executionId' ∉ (starts (s.log ++ _)).map _
      rw [starts_snoc, List.map_append, List.mem_append, not_or]
      refine ⟨hold, ?_⟩
      intro hmem
      have hid : executionId' = executionId := List.mem_singleton.mp hmem
      by_cases he : m = n
      · subst he
        simp only [ToolState.setCall, ToolState.record, Function.update_self] at hm
        cases hm
      · simp only [ToolState.setCall, ToolState.record, Function.update_of_ne he] at hm
        exact he (h.waiting_unique (hid ▸ hm) hn)
  · exact h.decisions
  · show ∀ c ∈ commits (s.log ++ _), _
    rw [hcommits]
    exact hnext.past

theorem commits_finished (log : List ToolEvent) (executionId : Uuid) (outcome : HandlerOutcome) :
    commits (log ++ [.finished executionId outcome]) = commits log :=
  (commits_snoc _ _).trans (List.append_nil _)

theorem starts_finished (log : List ToolEvent) (executionId : Uuid) (outcome : HandlerOutcome) :
    starts (log ++ [.finished executionId outcome]) = starts log :=
  (starts_snoc _ _).trans (List.append_nil _)

/-- The end of the handler is noted; nobody relies on it. -/
theorem toolInv_finished {env : ToolEnv} {s : ToolState} {executionId : Uuid}
    {outcome : HandlerOutcome} (h : ToolInv env s) :
    ToolInv env (s.record (.finished executionId outcome)) := by
  have hcommits : commits (s.log ++ [.finished executionId outcome]) = commits s.log :=
    commits_finished _ _ _
  have hstarts : starts (s.log ++ [.finished executionId outcome]) = starts s.log :=
    starts_finished _ _ _
  constructor
  · show CommitInv env s.approvals s.executions (commits (s.log ++ _))
    rw [hcommits]
    exact h.tables
  · apply startInv_snoc h.started
    rintro st ⟨⟩
  · intro m
    refine callOk_frame (h.calls m) (fun key hk => ⟨hk, id⟩)
      (fun a ha hl => ⟨hl, fun _ => ha⟩) ?_ ?_
    · show ∀ c ∈ commits s.log, c ∈ commits (s.log ++ _)
      rw [hcommits]
      exact fun c hc => hc
    · intro p' executionId' _ hold
      show executionId' ∉ (starts (s.log ++ _)).map _
      rw [hstarts]
      exact hold
  · exact h.decisions
  · show ∀ c ∈ commits (s.log ++ _), _
    rw [hcommits]
    exact h.past

theorem existing_eq_none {executions : ExecutionTable} {key : String} :
    existing executions key = none ↔ key ∉ (receiptKeys executions).map Prod.snd := by
  rw [existing, List.find?_eq_none, receiptKeys, List.map_map, List.mem_map]
  constructor
  · rintro h ⟨e, he, hk⟩
    exact h e he (decide_eq_true hk)
  · intro h e he hk
    exact h ⟨e, he, of_decide_eq_true hk⟩

theorem FinishWrite.set_key (env : ToolEnv) (now : Time) (w : FinishWrite) (e : ExecutionRow) :
    (w.set env now e).idempotencyKey = e.idempotencyKey := by
  cases w with
  | failure status error raises => rfl
  | success v =>
    simp only [FinishWrite.set]
    cases castJsonb (canonical v) <;> rfl
  | nothing raises => rfl

/-- Finishing a receipt changes neither its id nor its key. -/
theorem receiptKeys_finish (env : ToolEnv) (executions : ExecutionTable) (now : Time)
    (executionId : Uuid) (w : FinishWrite) :
    receiptKeys (finishReceipt env executions now executionId w) = receiptKeys executions := by
  simp only [receiptKeys, finishReceipt, Table.updateWhere, Table.update, List.map_map]
  apply List.map_congr_left
  intro e _
  simp only [Function.comp_apply, Table.rewrite]
  split
  · rw [w.set_id, w.set_key]
  · rfl

/-- A change of the receipts that keeps their keys. -/
theorem toolInv_executions {env : ToolEnv} {s : ToolState} {executions : ExecutionTable}
    (h : ToolInv env s) (hkeys : receiptKeys executions = receiptKeys s.executions) :
    ToolInv env { s with executions := executions } where
  tables :=
    { h.tables with
      keys := hkeys ▸ h.tables.keys
      receipts := hkeys.trans h.tables.receipts }
  started := h.started
  calls := by
    intro m
    refine callOk_frame (h.calls m) ?_ (fun a ha hl => ⟨hl, fun _ => ha⟩) (fun c hc => hc)
      (fun p executionId _ hf => hf)
    intro key hk
    refine ⟨hk, ?_⟩
    rw [existing_eq_none, existing_eq_none, hkeys]
    exact id
  decisions := h.decisions
  past := h.past

theorem not_refused_result (w : FinishWrite) (spec : ToolSpec) (executionId : Uuid) (saved : Bool)
    (h : ∀ e, w = .nothing e → e = notFinite ∨ e = .interrupted) :
    ¬ Refused (w.result spec executionId saved) := by
  cases w with
  | failure status error raises => cases saved <;> simp [FinishWrite.result, Refused]
  | success v => cases saved <;> simp [FinishWrite.result, Refused]
  | nothing e =>
    rcases h e rfl with rfl | rfl
    · simp [FinishWrite.result, Refused, notFinite]
    · simp [FinishWrite.result, Refused]

theorem finishWrite_nothing {env : ToolEnv} {spec : ToolSpec} {outcome : HandlerOutcome}
    {e : ToolError} (h : finishWrite env spec outcome = .nothing e) :
    e = notFinite ∨ e = .interrupted := by
  cases outcome with
  | returned v =>
    simp only [finishWrite] at h
    split at h
    · cases h
    · split at h <;> cases h
  | returnedForeign isDict =>
    cases isDict with
    | true =>
      cases h
      exact Or.inl rfl
    | false => cases h
  | raised text => cases h
  | timedOut => cases h
  | escaped =>
    cases h
    exact Or.inr rfl

theorem toolInv_finishCall {env : ToolEnv} {s : ToolState} {n : Nat} {p : Prepared}
    {executionId : Uuid} {outcome : HandlerOutcome} {now : Time} {written : Bool}
    (h : ToolInv env s) : ToolInv env (finishCall env s n p executionId outcome now written) := by
  have hkeys : receiptKeys (if written then finishReceipt env s.executions now executionId
      (finishWrite env p.spec outcome) else s.executions) = receiptKeys s.executions := by
    split
    · exact receiptKeys_finish ..
    · rfl
  refine toolInv_setCall (toolInv_executions h hkeys) trivial (fun _ => ?_)
  exact not_refused_result _ _ _ _ (fun e he => finishWrite_nothing he)

/-! ## Changes of the approvals -/

/-- A change of the approvals that consumes nothing, leaves approved rows alone and
forgets no requester. -/
theorem toolInv_approvals {env : ToolEnv} {s : ToolState} {approvals : ApprovalTable}
    (h : ToolInv env s)
    (hold : ∀ a ∈ s.approvals.rows, (a.status = .approved → a ∈ approvals.rows) ∧
      ∃ a' ∈ approvals.rows, a'.id = a.id ∧ a'.requestedBy = a.requestedBy)
    (hnew : ∀ a' ∈ approvals.rows,
      (∃ a ∈ s.approvals.rows, a.id = a'.id ∧ a.consumedAt = a'.consumedAt) ∨
      (a'.id ∉ s.approvals.keys ∧ a'.consumedAt = none))
    (hdecided : ∀ a ∈ approvals.rows, a.status = .approved → ∃ by_, a.decidedBy = some by_ ∧
      by_ ≠ a.requestedBy) : ToolInv env { s with approvals := approvals } where
  tables :=
    { h.tables with
      decided := hdecided
      consumptions := by
        intro a' ha' now
        rcases hnew a' ha' with ⟨a, ha, hid, hconsumed⟩ | ⟨hfresh, hnone⟩
        · rw [← hconsumed, ← hid]
          exact h.tables.consumptions a ha now
        · constructor
          · intro hsome
            rw [hnone] at hsome
            cases hsome
          · rintro ⟨c, hc, hid, -⟩
            exact absurd (h.tables.known c hc a'.id hid) hfresh
      known := by
        intro c hc id hid
        obtain ⟨a, ha, rfl⟩ := Table.mem_keys.mp (h.tables.known c hc id hid)
        obtain ⟨a', ha', he, -⟩ := (hold a ha).2
        exact he ▸ Table.key_mem_keys ha' }
  started := h.started
  calls m := callOk_frame (h.calls m) (fun key hk => ⟨hk, id⟩) (fun a ha hl => ⟨hl, (hold a ha).1⟩)
    (fun c hc => hc) (fun p executionId _ hf => hf)
  decisions := by
    intro d
    have hok := h.decisions d
    show DecisionOk approvals (s.decisions d)
    cases hd : s.decisions d with
    | unused => trivial
    | ended r => trivial
    | checked q now requestedBy =>
      rw [hd] at hok
      obtain ⟨hne, a, ha, hid, hby⟩ := hok
      obtain ⟨a', ha', hid', hby'⟩ := (hold a ha).2
      exact ⟨hne, a', ha', hid'.trans hid, hby'.trans hby⟩
  past := h.past

theorem toolInv_insertApproval {env : ToolEnv} {s : ToolState} {now : Time} {p : Prepared}
    {approvalId : Uuid} {approvals : ApprovalTable} (h : ToolInv env s)
    (hins : s.approvals.tryInsert (newApproval env now p approvalId) = some approvals) :
    ToolInv env { s with approvals := approvals } := by
  obtain ⟨hfresh, hrows⟩ := Table.tryInsert_eq_some hins
  have hmem : ∀ a, a ∈ approvals.rows ↔
      a ∈ s.approvals.rows ∨ a = newApproval env now p approvalId := by
    intro a
    rw [hrows, List.mem_append, List.mem_singleton]
  apply toolInv_approvals h
  · intro a ha
    have ha' := (hmem a).mpr (Or.inl ha)
    exact ⟨fun _ => ha', a, ha', rfl, rfl⟩
  · intro a' ha'
    rcases (hmem a').mp ha' with ha | rfl
    · exact Or.inl ⟨a', ha, rfl, rfl⟩
    · exact Or.inr ⟨hfresh, rfl⟩
  · intro a ha hstatus
    rcases (hmem a).mp ha with ha | rfl
    · exact h.tables.decided a ha hstatus
    · cases hstatus

theorem toolInv_decide {env : ToolEnv} {s : ToolState} {now : Time} {q : DecideRequest}
    {requestedBy : Uuid} (h : ToolInv env s)
    (hq : DecisionOk s.approvals (.checked q now requestedBy)) :
    ToolInv env { s with approvals := (decideUpdate s.approvals now q).1 } := by
  obtain ⟨hne, b, hb, hbid, hby⟩ := hq
  have hcases : ∀ a' ∈ (decideUpdate s.approvals now q).1.rows, a' ∈ s.approvals.rows ∨
      ∃ a ∈ s.approvals.rows, (a.id = q.approvalId ∧ undecided now a) ∧ a' = decideRow now q a := by
    intro a' ha'
    exact (Table.mem_updateWhere (f := decideRow now q) (fun _ => rfl) ha').imp_left And.left
  apply toolInv_approvals h
  · intro a ha
    have hset : Table.rewrite (fun a => a.id = q.approvalId ∧ undecided now a) (decideRow now q) a ∈
        (decideUpdate s.approvals now q).1.rows := List.mem_map_of_mem ha
    constructor
    · intro hstatus
      rw [Table.rewrite, if_neg] at hset
      · exact hset
      · rintro ⟨-, hpending, -⟩
        rw [hstatus] at hpending
        cases hpending
    · refine ⟨_, hset, ?_⟩
      unfold Table.rewrite
      split <;> exact ⟨rfl, rfl⟩
  · intro a' ha'
    rcases hcases a' ha' with ha | ⟨a, ha, -, rfl⟩
    · exact Or.inl ⟨a', ha, rfl, rfl⟩
    · exact Or.inl ⟨a, ha, rfl, rfl⟩
  · intro a' ha' hstatus
    rcases hcases a' ha' with ha | ⟨a, ha, ⟨hid, -⟩, rfl⟩
    · exact h.tables.decided a' ha hstatus
    · refine ⟨q.ctx.principal.id, rfl, ?_⟩
      have hsame : a = b := Table.eq_of_key ha hb (hid.trans hbid.symm)
      show q.ctx.principal.id ≠ a.requestedBy
      rw [hsame, hby]
      exact hne

theorem decisionOk_of_check {approvals : ApprovalTable} {q : DecideRequest} {now : Time}
    {requestedBy : Uuid} (h : decideCheck approvals q = .ok requestedBy) :
    DecisionOk approvals (.checked q now requestedBy) := by
  unfold decideCheck at h
  split at h
  · cases h
  · rename_i a hget
    obtain ⟨ha, hid⟩ := Table.get_eq_some.mp hget
    split at h
    · cases h
    · simp only at h
      split at h
      · rename_i hallowed
        cases h
        exact ⟨not_self_of_allows (by decide) hallowed, a, ha, hid, rfl⟩
      · cases h

theorem toolInv_setDecision {env : ToolEnv} {s : ToolState} {d : Nat} {st : DecisionState}
    (h : ToolInv env s) (hst : DecisionOk s.approvals st) :
    ToolInv env { s with decisions := Function.update s.decisions d st } where
  tables := h.tables
  started := h.started
  calls m := callOk_congr (h.calls m) rfl rfl rfl rfl rfl
  decisions := by
    intro d'
    by_cases he : d' = d
    · subst he
      simp only [Function.update_self]
      exact hst
    · simp only [Function.update_of_ne he]
      exact h.decisions d'
  past := h.past

/-! ## The transaction of `_start_execution` -/

theorem toolInv_inserted {env : ToolEnv} {s : ToolState} {n : Nat} {p : Prepared} {now : Time}
    {executionId : Uuid} (h : ToolInv env s) (hn : ¬ Past (s.calls n))
    (hunused : existing s.executions (p.key env) = none) (hlock : s.keyLocks (p.key env) = none) :
    ToolInv env { s.setCall n (.inserted p now (newReceipt env now p executionId)) with
      keyLocks := Function.update s.keyLocks (p.key env) (some n) } := by
  refine ⟨h.tables, h.started, ?_, h.decisions, ?_⟩
  · intro m
    by_cases he : m = n
    · subst he
      simp only [ToolState.setCall, Function.update_self]
      exact ⟨rfl, Function.update_self .., hunused⟩
    · simp only [ToolState.setCall, Function.update_of_ne he]
      refine callOk_frame (h.calls m) ?_ (fun a ha hl => ⟨hl, fun _ => ha⟩) (fun c hc => hc)
        (fun p executionId _ hf => hf)
      intro key hk
      have hne : key ≠ p.key env := by
        rintro rfl
        rw [hlock] at hk
        cases hk
      exact ⟨by simpa only [Function.update_of_ne hne] using hk, id⟩
  · intro c hc
    have hne : c.call ≠ n := fun he => h.no_commit hn ⟨c, hc, he⟩
    simp only [ToolState.setCall, Function.update_of_ne hne]
    exact h.past c hc

theorem consumableApproval_eq_some {approvals : ApprovalTable} {now : Time} {p : Prepared}
    {a : ApprovalRow} (h : consumableApproval approvals now p = some a) :
    a ∈ approvals.rows ∧ consumable now p a := by
  obtain ⟨id, -, hget⟩ := Option.bind_eq_some_iff.mp h
  obtain ⟨hget, hcons⟩ := Option.filter_eq_some_iff.mp hget
  exact ⟨(Table.get_eq_some.mp hget).1, of_decide_eq_true hcons⟩

theorem toolInv_consumed {env : ToolEnv} {s : ToolState} {n : Nat} {p : Prepared} {now : Time}
    {row : ExecutionRow} {a : ApprovalRow} (h : ToolInv env s)
    (hn : s.calls n = .inserted p now row) (ha : consumableApproval s.approvals now p = some a)
    (hlock : s.approvalLocks a.id = none) : ToolInv env { s.setCall n (.consumed p now row a) with
      approvalLocks := Function.update s.approvalLocks a.id (some n) } := by
  obtain ⟨hmem, hcons⟩ := consumableApproval_eq_some ha
  have hwriting : Writing env s n p now row := by
    have hok := h.calls n
    rw [hn] at hok
    exact hok
  refine ⟨h.tables, h.started, ?_, h.decisions, ?_⟩
  · intro m
    by_cases he : m = n
    · subst he
      simp only [ToolState.setCall, Function.update_self]
      exact ⟨⟨hwriting.receipt, hwriting.locked, hwriting.unused⟩, hcons, hmem,
        Function.update_self ..⟩
    · simp only [ToolState.setCall, Function.update_of_ne he]
      refine callOk_frame (h.calls m) (fun key hk => ⟨hk, id⟩) ?_ (fun c hc => hc)
        (fun p executionId _ hf => hf)
      intro b hb hl
      have hne : b.id ≠ a.id := by
        intro hid
        rw [hid, hlock] at hl
        cases hl
      exact ⟨by simpa only [Function.update_of_ne hne] using hl, fun _ => hb⟩
  · intro c hc
    have hne : c.call ≠ n := by
      rintro rfl
      have hpast := h.past c hc
      rw [hn] at hpast
      exact hpast
    simp only [ToolState.setCall, Function.update_of_ne hne]
    exact h.past c hc

/-- What COMMIT finds: a gated call has consumed its approval, the others need none. -/
def Paid (s : ToolState) (n : Nat) (p : Prepared) (now : Time) : Option ApprovalRow → Prop
  | none => p.spec.requiresApproval = false
  | some a => Consuming s n p now a

/-- Every start belongs to a commit. -/
theorem ToolInv.start_committed {env : ToolEnv} {s : ToolState} (h : ToolInv env s) {st : Start}
    (hst : st ∈ starts s.log) : ∃ c ∈ commits s.log, c.start = st := by
  obtain ⟨e, he, hstart⟩ := List.mem_filterMap.mp hst
  cases e with
  | committed c => cases hstart
  | finished executionId outcome => cases hstart
  | started st' =>
    cases hstart
    obtain ⟨pre, post, hlog⟩ := List.append_of_mem he
    obtain ⟨c, hc, hcst⟩ := h.started.preceded pre post st hlog
    refine ⟨c, ?_, hcst⟩
    rw [hlog, commits, List.filterMap_append]
    exact List.mem_append_left _ hc

theorem ToolInv.started_known {env : ToolEnv} {s : ToolState} (h : ToolInv env s)
    {executionId : Uuid} (hid : executionId ∈ (starts s.log).map Start.executionId) :
    executionId ∈ s.executions.keys := by
  obtain ⟨st, hst, rfl⟩ := List.mem_map.mp hid
  obtain ⟨c, hc, rfl⟩ := h.start_committed hst
  have hkey : (c.executionId, c.prepared.key env) ∈ receiptKeys s.executions := by
    rw [h.tables.receipts]
    exact List.mem_map_of_mem hc
  obtain ⟨row, hrow, hpair⟩ := List.mem_map.mp hkey
  exact Table.mem_keys.mpr ⟨row, hrow, congrArg Prod.fst hpair⟩

/-- An approval about to be consumed appears in no earlier commit. -/
theorem CommitInv.unconsumed {env : ToolEnv} {approvals : ApprovalTable}
    {executions : ExecutionTable} {cs : List Commit} (h : CommitInv env approvals executions cs)
    {a : ApprovalRow} (ha : a ∈ approvals.rows) (hnone : a.consumedAt = none) :
    ∀ c ∈ cs, c.approvalId ≠ some a.id := by
  intro c hc hid
  have hsome := (h.consumptions a ha c.now).mpr ⟨c, hc, hid, rfl⟩
  rw [hnone] at hsome
  cases hsome

theorem commitInv_commit {env : ToolEnv} {s : ToolState} {n : Nat} {p : Prepared} {now : Time}
    {row : ExecutionRow} {approval : Option ApprovalRow} {executions : ExecutionTable}
    (h : ToolInv env s) (hw : Writing env s n p now row) (hpaid : Paid s n p now approval)
    (hins : s.executions.tryInsert row = some executions) :
    CommitInv env (s.approvals.updateWhere (fun a => approval.map ApprovalRow.id = some a.id)
      (consumeRow now) (fun _ => rfl))
      executions (commits s.log ++ [⟨n, row.id, p, approval, now⟩]) := by
  obtain ⟨-, hrows⟩ := Table.tryInsert_eq_some hins
  have hkey : row.idempotencyKey = p.key env := by
    rw [hw.receipt]
    rfl
  have hkeys : receiptKeys executions = receiptKeys s.executions ++ [(row.id, p.key env)] := by
    rw [receiptKeys, hrows, List.map_append, List.map_singleton, hkey]
    rfl
  have hunconsumed : ∀ c ∈ commits s.log, ∀ a, approval = some a → c.approvalId ≠ some a.id := by
    rintro c hc a rfl
    exact h.tables.unconsumed hpaid.current hpaid.consumable.2.2.2.2.2.1 c hc
  have hcases := fun a' ha' =>
    Table.mem_updateWhere (t := s.approvals) (p := fun a => approval.map ApprovalRow.id = some a.id)
      (f := consumeRow now) (fun _ => rfl) (b := a') ha'
  constructor
  · rw [hkeys, List.map_append]
    refine List.nodup_append.mpr ⟨h.tables.keys, List.nodup_singleton _, ?_⟩
    intro x hx y hy hxy
    have hxkey : x = p.key env := hxy.trans (List.mem_singleton.mp hy)
    exact existing_eq_none.mp hw.unused (hxkey ▸ hx)
  · rw [hkeys, h.tables.receipts, List.map_append]
    rfl
  · intro a' ha' hstatus
    rcases hcases a' ha' with ⟨ha, -⟩ | ⟨a, ha, -, rfl⟩
    · exact h.tables.decided a' ha hstatus
    · exact h.tables.decided a ha hstatus
  · intro c hc hgated
    rcases List.mem_append.mp hc with hc | hc
    · exact h.tables.paid c hc hgated
    · rw [List.mem_singleton.mp hc] at hgated ⊢
      cases approval with
      | none =>
        rw [hpaid] at hgated
        cases hgated
      | some a =>
        exact ⟨a, rfl, hpaid.consumable,
          h.tables.decided a hpaid.current hpaid.consumable.2.2.2.2.1⟩
  · intro a' ha' now'
    rcases hcases a' ha' with ⟨ha, hother⟩ | ⟨a, ha, hsame, rfl⟩
    · rw [h.tables.consumptions a' ha now']
      constructor
      · rintro ⟨c, hc, hrest⟩
        exact ⟨c, List.mem_append_left _ hc, hrest⟩
      · rintro ⟨c, hc, hid, hnow⟩
        rcases List.mem_append.mp hc with hc | hc
        · exact ⟨c, hc, hid, hnow⟩
        · rw [List.mem_singleton.mp hc] at hid
          exact absurd hid hother
    · -- the consumed row: before, no commit named it
      obtain ⟨b, rfl, hid⟩ := Option.map_eq_some_iff.mp hsame
      constructor
      · intro hnow
        cases hnow
        exact ⟨_, List.mem_append_right _ (List.mem_singleton_self _), hsame, rfl⟩
      · rintro ⟨c, hc, hcid, rfl⟩
        rcases List.mem_append.mp hc with hc | hc
        · exact absurd (hcid.trans (congrArg some hid.symm)) (hunconsumed c hc b rfl)
        · rw [List.mem_singleton.mp hc]
          rfl
  · intro c hc id hid
    have hids :=
      Table.keys_updateWhere s.approvals (fun a => approval.map ApprovalRow.id = some a.id)
        (consumeRow now) (fun _ => rfl)
    apply hids.symm ▸ (?_ : id ∈ s.approvals.keys)
    rcases List.mem_append.mp hc with hc | hc
    · exact h.tables.known c hc id hid
    · rw [List.mem_singleton.mp hc] at hid
      obtain ⟨a, rfl, rfl⟩ := Option.map_eq_some_iff.mp hid
      exact Table.key_mem_keys hpaid.current
  · rw [List.filterMap_append]
    cases approval with
    | none =>
      show (_ ++ []).Nodup
      rw [List.append_nil]
      exact h.tables.consumedOnce
    | some a =>
      refine List.nodup_append.mpr ⟨h.tables.consumedOnce, List.nodup_singleton _, ?_⟩
      intro x hx y hy hxy
      obtain ⟨c, hc, hid⟩ := List.mem_filterMap.mp hx
      have hy' : y = a.id := List.mem_singleton.mp hy
      exact hunconsumed c hc a rfl (hid.trans (congrArg some (hxy.trans hy')))

theorem toolInv_commit {env : ToolEnv} {s t : ToolState} {n : Nat} {p : Prepared} {now : Time}
    {row : ExecutionRow} {approval : Option ApprovalRow} (h : ToolInv env s)
    (hw : Writing env s n p now row) (hpaid : Paid s n p now approval)
    (ht : commitExecution s n p now row approval = some t) : ToolInv env t := by
  obtain ⟨executions, hins, rfl⟩ := Option.map_eq_some_iff.mp ht
  obtain ⟨hfresh, hrows⟩ := Table.tryInsert_eq_some hins
  have hcommits : commits (s.log ++ [.committed ⟨n, row.id, p, approval, now⟩]) =
      commits s.log ++ [⟨n, row.id, p, approval, now⟩] := commits_snoc _ _
  have hstarts : starts (s.log ++ [.committed ⟨n, row.id, p, approval, now⟩]) = starts s.log :=
    (starts_snoc _ _).trans (List.append_nil _)
  have hkeep : ∀ m, m ≠ n → ∀ o : Option Nat, o = some m → o.filter (fun k => k ≠ n) = some m := by
    rintro m he _ rfl
    simp [Option.filter, he]
  constructor
  · show CommitInv env _ _ (commits (s.log ++ _))
    rw [hcommits]
    exact commitInv_commit h hw hpaid hins
  · apply startInv_snoc h.started
    rintro st ⟨⟩
  · intro m
    by_cases he : m = n
    · subst he
      simp only [ToolState.record, ToolState.setCall, Function.update_self]
      constructor
      · show ∃ c ∈ commits (s.log ++ _), _
        rw [hcommits]
        exact ⟨_, List.mem_append_right _ (List.mem_singleton_self _), rfl⟩
      · show row.id ∉ (starts (s.log ++ _)).map _
        rw [hstarts]
        exact fun hid => hfresh (h.started_known hid)
    · simp only [ToolState.record, ToolState.setCall, Function.update_of_ne he]
      refine callOk_frame (h.calls m) ?_ ?_ ?_ ?_
      · intro key hk
        refine ⟨hkeep m he _ hk, ?_⟩
        intro hnone
        have hne : key ≠ p.key env := by
          rintro rfl
          exact he (Option.some.inj (hk.symm.trans hw.locked))
        show existing executions key = none
        rw [existing, hrows, List.find?_append, ← existing, hnone]
        have hkey : row.idempotencyKey ≠ key := by
          rw [hw.receipt]
          exact fun hk' => hne hk'.symm
        simp [hkey]
      · intro a ha hl
        refine ⟨hkeep m he _ hl, ?_⟩
        intro _
        have hne : approval.map ApprovalRow.id ≠ some a.id := by
          intro hid
          obtain ⟨b, rfl, hb⟩ := Option.map_eq_some_iff.mp hid
          have hlock := hpaid.locked
          rw [hb] at hlock
          exact he (Option.some.inj (hl.symm.trans hlock))
        refine List.mem_map.mpr ⟨a, ha, ?_⟩
        rw [Table.rewrite, if_neg hne]
      · show ∀ c ∈ commits s.log, c ∈ commits (s.log ++ _)
        rw [hcommits]
        exact fun c hc => List.mem_append_left _ hc
      · intro p' executionId' _ hold
        show executionId' ∉ (starts (s.log ++ _)).map _
        rw [hstarts]
        exact hold
  · intro d
    have hok := h.decisions d
    show DecisionOk _ (s.decisions d)
    cases hd : s.decisions d with
    | unused => trivial
    | ended r => trivial
    | checked q now' requestedBy =>
      rw [hd] at hok
      obtain ⟨hne, a, ha, hid, hby⟩ := hok
      refine ⟨hne, _, List.mem_map_of_mem ha, ?_⟩
      unfold Table.rewrite
      split <;> exact ⟨hid, hby⟩
  · show ∀ c ∈ commits (s.log ++ _), _
    rw [hcommits]
    intro c hc
    by_cases he : c.call = n
    · simp only [ToolState.record, ToolState.setCall, he, Function.update_self]
      trivial
    · simp only [ToolState.record, ToolState.setCall, Function.update_of_ne he]
      rcases List.mem_append.mp hc with hc | hc
      · exact h.past c hc
      · exact absurd (congrArg Commit.call (List.mem_singleton.mp hc)) he

theorem callOk_early {env : ToolEnv} {s : ToolState} {n : Nat} {st : CallState}
    (h : st.early ∨ ∃ r, st = .ended r) : CallOk env s n st := by
  rcases h with h | ⟨r, rfl⟩
  · cases st <;> first | exact trivial | exact h.elim
  · trivial

theorem not_past_of_early {st : CallState} (h : st.early) : ¬ Past st := by
  cases st <;> first | exact id | cases h

theorem toolInv_step {env : ToolEnv} {s t : ToolState} {a : ToolAct} (h : ToolInv env s)
    (hstep : toolStep env s a = some t) : ToolInv env t := by
  have hok := h.calls
  cases toolStep_move hstep with
  | addRun id =>
    exact ⟨h.tables, h.started, fun m => callOk_congr (h.calls m) rfl rfl rfl rfl rfl,
      h.decisions, h.past⟩
  | early hn hst => exact toolInv_plain h (not_past_of_early hn) (callOk_early hst)
  | asked hn hins =>
    exact toolInv_plain (toolInv_insertApproval h hins) (not_past_of_early (hn ▸ trivial)) trivial
  | inserted hn hunused hrun hlock hrefers =>
    exact toolInv_inserted h (not_past_of_early (hn ▸ trivial)) hunused hlock
  | @unapproved n p now row hn hnone =>
    have hpast : ¬ Past (s.calls n) := by simp [hn, Past]
    exact toolInv_unlock h (fun hc => absurd hc (h.no_commit hpast))
  | consumed hn ha hlock => exact toolInv_consumed h hn ha hlock
  | @committed n p now row approval t hn ht =>
    have hw := hok n
    rcases hn with ⟨hn, hgate, rfl⟩ | ⟨a, hn, rfl⟩
    · rw [hn] at hw
      have hpaid : Paid s n p now none := hgate
      exact toolInv_commit h hw hpaid ht
    · rw [hn] at hw
      have hpaid : Paid s n p now (some a) := hw.2
      exact toolInv_commit h hw.1 hpaid ht
  | aborted n => exact toolInv_unlock h (fun _ => by simp [Refused])
  | stopped hn => exact toolInv_finishCall h
  | started hn => exact toolInv_start h hn
  | finished hn => exact toolInv_finished (toolInv_finishCall h)
  | checked hcheck => exact toolInv_setDecision h (decisionOk_of_check hcheck)
  | undecided e => exact toolInv_setDecision h trivial
  | @decided d audited q now requestedBy approvals a hd hupdate hother =>
    have hq := h.decisions d
    rw [hd] at hq
    have hnext := toolInv_decide h hq
    rw [hupdate] at hnext
    exact toolInv_setDecision hnext trivial

theorem toolInv_reaches {env : ToolEnv} {acts : List ToolAct} {s : ToolState}
    (h : Reaches (toolStep env) ToolState.initial acts s) : ToolInv env s :=
  h.invariant (fun _ _ _ hs ht => toolInv_step hs ht) (toolInv_initial env)

/-! ## The protocol -/

/-- The starts of handlers behind the gate. -/
def gatedStarts (log : List ToolEvent) : List Start :=
  (starts log).filter (fun st => st.prepared.spec.requiresApproval)

/-- What holds in every state: at most one start for a key and for an approval, each
start paid for before it, and nothing in the tables that no committed transaction wrote. -/
structure ApprovalProtocol (env : ToolEnv) (s : ToolState) : Prop where
  oncePerKey : ∀ key, (gatedStarts s.log).countP (fun st => st.prepared.idempotencyKey = key) ≤ 1
  oncePerApproval : ∀ id,
    (gatedStarts s.log).countP (fun st => st.prepared.approvalId = some id) ≤ 1
  paidBefore : ∀ pre post st, s.log = pre ++ .started st :: post →
    st.prepared.spec.requiresApproval = true → ∃ c ∈ commits pre, c.start = st ∧
    ∃ a, c.approval = some a ∧ Approves c.now st.prepared a
  receipts : s.executions.rows.map ExecutionRow.id = (commits s.log).map Commit.executionId
  consumptions : ∀ a ∈ s.approvals.rows, ∀ now, a.consumedAt = some now ↔
    ∃ c ∈ commits s.log, c.approvalId = some a.id ∧ c.now = now
  refusedLeavesNothing : ∀ n r, s.calls n = .ended r → Refused r → ∀ c ∈ commits s.log, c.call ≠ n

/-- A list without repeated names holds at most one entry of a kind whose entries all
have the same name. -/
theorem countP_le_one {α β : Type*} {l : List α} {f : α → β} {p : α → Bool} (hl : (l.map f).Nodup)
    (hsame : ∀ x ∈ l, p x = true → ∀ y ∈ l, p y = true → f x = f y) : l.countP p ≤ 1 := by
  induction l with
  | nil => exact Nat.zero_le 1
  | cons x l ih =>
    obtain ⟨hx, hl⟩ := List.nodup_cons.mp hl
    have hrest := ih hl (fun y hy hpy z hz hpz =>
      hsame y (List.mem_cons_of_mem x hy) hpy z (List.mem_cons_of_mem x hz) hpz)
    by_cases hp : p x = true
    · have hnone : l.countP p = 0 := by
        rw [List.countP_eq_zero]
        intro y hy hpy
        apply hx
        rw [hsame x List.mem_cons_self hp y (List.mem_cons_of_mem x hy) hpy]
        exact List.mem_map_of_mem hy
      rw [List.countP_cons_of_pos hp]
      omega
    · rw [List.countP_cons_of_neg hp]
      exact hrest

/-- Two entries that map to the same name are the same entry. -/
theorem eq_of_nodup_filterMap {α β : Type*} {l : List α} {f : α → Option β}
    (hl : (l.filterMap f).Nodup) {x y : α} {b : β} (hx : x ∈ l) (hy : y ∈ l) (hfx : f x = some b)
    (hfy : f y = some b) : x = y := by
  induction l with
  | nil => cases hx
  | cons z l ih =>
    have hhead : f z = some b → b ∉ l.filterMap f := by
      intro hz
      rw [List.filterMap_cons_some hz] at hl
      exact (List.nodup_cons.mp hl).1
    have htail : (l.filterMap f).Nodup := hl.sublist ((List.sublist_cons_self z l).filterMap f)
    rcases List.mem_cons.mp hx with rfl | hxl
    · rcases List.mem_cons.mp hy with rfl | hyl
      · rfl
      · exact absurd (List.mem_filterMap.mpr ⟨y, hyl, hfy⟩) (hhead hfx)
    · rcases List.mem_cons.mp hy with rfl | hyl
      · exact absurd (List.mem_filterMap.mpr ⟨x, hxl, hfx⟩) (hhead hfy)
      · exact ih htail hxl hyl

/-- Two starts under one idempotency key have the same receipt. -/
theorem ToolInv.same_key {env : ToolEnv} {s : ToolState} (h : ToolInv env s) {st st' : Start}
    (hst : st ∈ starts s.log) (hst' : st' ∈ starts s.log)
    (hkey : st.prepared.idempotencyKey = st'.prepared.idempotencyKey) :
    st.executionId = st'.executionId := by
  obtain ⟨c, hc, rfl⟩ := h.start_committed hst
  obtain ⟨c', hc', rfl⟩ := h.start_committed hst'
  have hkeys : ((commits s.log).map (fun c => c.prepared.key env)).Nodup := by
    have hnodup := h.tables.keys
    rw [h.tables.receipts, List.map_map] at hnodup
    exact hnodup
  have hdurable : c.prepared.key env = c'.prepared.key env := congrArg (durableKey env) hkey
  rw [List.inj_on_of_nodup_map hkeys hc hc' hdurable]

/-- Two gated starts under one approval have the same receipt. -/
theorem ToolInv.same_approval {env : ToolEnv} {s : ToolState} (h : ToolInv env s) {st st' : Start}
    (hst : st ∈ starts s.log) (hst' : st' ∈ starts s.log)
    (hg : st.prepared.spec.requiresApproval = true)
    (hg' : st'.prepared.spec.requiresApproval = true) {id : Uuid}
    (hid : st.prepared.approvalId = some id) (hid' : st'.prepared.approvalId = some id) :
    st.executionId = st'.executionId := by
  obtain ⟨c, hc, rfl⟩ := h.start_committed hst
  obtain ⟨c', hc', rfl⟩ := h.start_committed hst'
  have hof : ∀ c ∈ commits s.log, c.prepared.spec.requiresApproval = true →
      c.prepared.approvalId = some id → c.approvalId = some id := by
    intro c hc hg hid
    obtain ⟨a, ha, hcons, -⟩ := h.tables.paid c hc hg
    rw [Commit.approvalId, ha, Option.map_some, ← hid]
    exact hcons.1.symm
  have hsame : c = c' :=
    eq_of_nodup_filterMap h.tables.consumedOnce hc hc' (hof c hc hg hid) (hof c' hc' hg' hid')
  rw [hsame]

/-- The approval protocol holds in every state of every interleaving. -/
theorem approval_protocol {env : ToolEnv} {acts : List ToolAct} {s : ToolState}
    (h : Reaches (toolStep env) ToolState.initial acts s) : ApprovalProtocol env s := by
  have hinv := toolInv_reaches h
  have hnodup : ((gatedStarts s.log).map Start.executionId).Nodup :=
    hinv.started.once.sublist (List.filter_sublist.map Start.executionId)
  have hgated : ∀ st ∈ gatedStarts s.log, st ∈ starts s.log ∧
      st.prepared.spec.requiresApproval = true :=
    fun st hst => List.mem_filter.mp hst
  constructor
  · intro key
    apply countP_le_one hnodup
    intro x hx hpx y hy hpy
    exact hinv.same_key (hgated x hx).1 (hgated y hy).1
      ((of_decide_eq_true hpx).trans (of_decide_eq_true hpy).symm)
  · intro id
    apply countP_le_one hnodup
    intro x hx hpx y hy hpy
    exact hinv.same_approval (hgated x hx).1 (hgated y hy).1 (hgated x hx).2 (hgated y hy).2
      (of_decide_eq_true hpx) (of_decide_eq_true hpy)
  · intro pre post st hlog hgate
    obtain ⟨c, hc, rfl⟩ := hinv.started.preceded pre post st hlog
    have hmem : c ∈ commits s.log := by
      rw [hlog, commits, List.filterMap_append]
      exact List.mem_append_left _ hc
    exact ⟨c, hc, rfl, hinv.tables.paid c hmem hgate⟩
  · have hmap := congrArg (List.map Prod.fst) hinv.tables.receipts
    rw [receiptKeys, List.map_map, List.map_map] at hmap
    exact hmap
  · exact hinv.tables.consumptions
  · rintro n r hn hrefused c hc rfl
    have hpast := hinv.past c hc
    rw [hn] at hpast
    exact hpast hrefused

/-! ## Two calls for one approval -/

def mailTool : ToolSpec where
  name := "mail.send"
  sideEffect := .write
  capability := .toolInvokeWrite
  requiresApproval := true
  validateArguments := none
  name_valid := by decide +kernel
  write_gated := fun _ => rfl

def sampleEnv : ToolEnv where
  tenant := ⟨1, "acme"⟩
  registry := ⟨[mailTool], List.nodup_singleton _⟩
  settings := .default
  sha256 := fun text => text

def makerContext : RequestContext := ⟨⟨7, ⟨1, "acme"⟩, "alice", [.owner]⟩, 5, none, none, none⟩

def checkerContext : RequestContext := ⟨⟨8, ⟨1, "acme"⟩, "bob", [.reviewer]⟩, 6, none, none, none⟩

def mailRequest (key : String) (approvalId : Option Uuid) : InvokeRequest :=
  ⟨makerContext, "mail.send", .emptyObj, 10, key, approvalId⟩

/-- A call asks for an approval, a second principal grants it, and two calls race for
it under two keys: the second one finds it consumed. -/
def racingCalls : List ToolAct :=
  [.addRun 10, .invoke 0 (mailRequest "k1" none) false false,
    .lookup 0, .findApproval 0 0, .insertApproval 0 20,
    .checkDecision 0 ⟨checkerContext, 20, true, none⟩ 1, .writeDecision 0 true,
    .invoke 1 (mailRequest "k1" (some 20)) false false,
    .invoke 2 (mailRequest "k2" (some 20)) false false,
    .lookup 1, .lookup 2, .insertReceipt 1 2 30 false, .insertReceipt 2 2 31 false,
    .consume 1, .commit 1, .consume 2, .startHandler 1 none 3 true]

theorem racingCalls_run :
    (racingCalls.foldlM (toolStep sampleEnv) ToolState.initial).isSome = true := by decide +kernel

/-- The result at that run: one receipt, one start, and the other call refused. -/
theorem approval_protocol_racingCalls :
    ∃ s, Reaches (toolStep sampleEnv) ToolState.initial racingCalls s ∧
      ApprovalProtocol sampleEnv s ∧ (gatedStarts s.log).map Start.executionId = [30] ∧
      s.executions.keys = [30] :=
  ⟨_, reaches_get racingCalls_run,
    approval_protocol (reaches_get racingCalls_run), by decide +kernel,
    by decide +kernel⟩

end AgenticPlatform.Agent
