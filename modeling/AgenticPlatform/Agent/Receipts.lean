import AgenticPlatform.Agent.Approvals

/-!
# Receipts of started writes

Once the handler of a write tool has been started, its effect may have happened, so its
receipt must not read as a clean failure. The exits of `invoke` after the handler keep
to that except one: a result too large to retain is recorded as failed whatever the
side effect of the tool.
-/
namespace AgenticPlatform.Agent
open AgenticPlatform.Foundation AgenticPlatform.Identity AgenticPlatform.Db

/-! ## What a step does to the receipts -/

/-- The receipt a call is at work on. -/
def CallState.receipt? : CallState → Option (Prepared × Uuid)
  | .running p executionId | .executing p executionId => some (p, executionId)
  | _ => none

theorem receipt?_of_early {st : CallState} (h : st.early) : st.receipt? = none := by
  cases st <;> first | rfl | cases h

/-- Everything a step can do to the receipts, the log, and the calls at work on one. -/
inductive ReceiptMove (env : ToolEnv) (s t : ToolState) : ToolAct → Prop where
  | quiet {a : ToolAct} (hexecutions : t.executions = s.executions) (hlog : t.log = s.log)
    (hcalls : ∀ m, t.calls m = s.calls m ∨ (t.calls m).receipt? = none) : ReceiptMove env s t a
  | create {a : ToolAct} (c : Commit) (row : ExecutionRow) (hid : row.id = c.executionId)
    (hstarted : row.status = .started) (hfresh : row.id ∉ s.executions.keys)
    (hrows : t.executions.rows = s.executions.rows ++ [row])
    (hlog : t.log = s.log ++ [.committed c])
    (hcalls : t.calls = Function.update s.calls c.call (.running c.prepared c.executionId)) :
    ReceiptMove env s t a
  | start {a : ToolAct} (st : Start) (hn : s.calls st.call = .running st.prepared st.executionId)
    (hexecutions : t.executions = s.executions) (hlog : t.log = s.log ++ [.started st])
    (hcalls : t.calls = Function.update s.calls st.call (.executing st.prepared st.executionId)) :
    ReceiptMove env s t a
  | stop {a : ToolAct} (n : Nat) (p : Prepared) (executionId : Uuid) (text : String) (now : Time)
    (written : Bool) (hn : s.calls n = .running p executionId)
    (ht : t = finishCall env s n p executionId (.raised text) now written) : ReceiptMove env s t a
  | finish (n : Nat) (p : Prepared) (executionId : Uuid) (outcome : HandlerOutcome) (now : Time)
    (written : Bool) (hn : s.calls n = .executing p executionId)
    (ht : t = (finishCall env s n p executionId outcome now written).record
      (.finished executionId outcome)) : ReceiptMove env s t (.finish n outcome now written)

/-- One call moves to a state in which it is at work on no receipt. -/
theorem quiet_move {env : ToolEnv} {s t : ToolState} {n : Nat} {st : CallState} {a : ToolAct}
    (hexecutions : t.executions = s.executions) (hlog : t.log = s.log)
    (hcalls : t.calls = Function.update s.calls n st) (hst : st.receipt? = none) :
    ReceiptMove env s t a := by
  refine .quiet hexecutions hlog ?_
  intro m
  rw [hcalls]
  by_cases he : m = n
  · subst he
    rw [Function.update_self]
    exact Or.inr hst
  · rw [Function.update_of_ne he]
    exact Or.inl rfl

theorem commitExecution_move {env : ToolEnv} {s t : ToolState} {n : Nat} {p : Prepared} {now : Time}
    {row : ExecutionRow} {approval : Option ApprovalRow} {a : ToolAct}
    (hw : Writing env s n p now row) (ht : commitExecution s n p now row approval = some t) :
    ReceiptMove env s t a := by
  obtain ⟨executions, hins, rfl⟩ := Option.map_eq_some_iff.mp ht
  obtain ⟨hfresh, hrows⟩ := Table.tryInsert_eq_some hins
  have hstarted : row.status = .started := by
    rw [hw.receipt]
    rfl
  exact .create ⟨n, row.id, p, approval, now⟩ row rfl hstarted hfresh hrows rfl rfl

theorem toolStep_receipt {env : ToolEnv} {s t : ToolState} {a : ToolAct} (hinv : ToolInv env s)
    (hstep : toolStep env s a = some t) : ReceiptMove env s t a := by
  have hok := hinv.calls
  cases toolStep_move hstep with
  | addRun id => exact .quiet rfl rfl (fun m => Or.inl rfl)
  | early hn hst =>
    refine quiet_move rfl rfl rfl ?_
    rcases hst with hst | ⟨r, rfl⟩
    · exact receipt?_of_early hst
    · rfl
  | asked | inserted | unapproved | consumed | aborted => exact quiet_move rfl rfl rfl rfl
  | @committed n p now row approval t hn ht =>
    have hw := hok n
    rcases hn with ⟨hn, -, rfl⟩ | ⟨a, hn, rfl⟩
    · rw [hn] at hw
      exact commitExecution_move hw ht
    · rw [hn] at hw
      exact commitExecution_move hw.1 ht
  | stopped hn => exact .stop _ _ _ _ _ _ hn rfl
  | @started n p executionId now written hn => exact .start ⟨n, executionId, p⟩ hn rfl rfl rfl
  | finished hn => exact .finish _ _ _ _ _ _ hn rfl
  | checked | undecided | decided => exact .quiet rfl rfl (fun m => Or.inl rfl)

/-! ## The receipt of a call at work -/

/-- A call past its commit has a receipt that is still `started`, and a handler under
way is in the log. -/
structure OpenInv (s : ToolState) : Prop where
  committed : ∀ n p executionId, (s.calls n).receipt? = some (p, executionId) →
    ∃ c ∈ commits s.log, c.start = ⟨n, executionId, p⟩
  row : ∀ n p executionId, (s.calls n).receipt? = some (p, executionId) →
    ∃ e ∈ s.executions.rows, e.id = executionId ∧ e.status = .started
  logged : ∀ n p executionId, s.calls n = .executing p executionId →
    ⟨n, executionId, p⟩ ∈ starts s.log

theorem openInv_initial : OpenInv ToolState.initial := by
  constructor
  · intro n p executionId h
    cases h
  · intro n p executionId h
    cases h
  · intro n p executionId h
    cases h

/-- Two calls are never at work on the same receipt. -/
theorem OpenInv.unique {env : ToolEnv} {s : ToolState} (hinv : ToolInv env s) (h : OpenInv s)
    {n m : Nat} {p p' : Prepared} {executionId : Uuid}
    (hn : (s.calls n).receipt? = some (p, executionId))
    (hm : (s.calls m).receipt? = some (p', executionId)) : n = m := by
  obtain ⟨c, hc, hstart⟩ := h.committed n p executionId hn
  obtain ⟨c', hc', hstart'⟩ := h.committed m p' executionId hm
  have hsame : c = c' :=
    hinv.tables.unique hc hc'
      ((congrArg Start.executionId hstart).trans (congrArg Start.executionId hstart').symm)
  rw [hsame] at hstart
  exact congrArg Start.call (hstart.symm.trans hstart')

/-- The receipts after the end of a call: its own one as the UPDATE leaves it, the
others as before. -/
theorem finishCall_mem {env : ToolEnv} {s : ToolState} {n : Nat} {p : Prepared} {executionId : Uuid}
    {outcome : HandlerOutcome} {now : Time} {written : Bool} {e' : ExecutionRow}
    (h : e' ∈ (finishCall env s n p executionId outcome now written).executions.rows) :
    e' ∈ s.executions.rows ∨ (written = true ∧ ∃ e ∈ s.executions.rows, e.id = executionId ∧
      e.status = .started ∧ e' = (finishWrite env p.spec outcome).set env now e) := by
  cases written with
  | false => exact Or.inl h
  | true =>
    have hset := FinishWrite.set_id env now (finishWrite env p.spec outcome)
    rcases Table.mem_updateWhere hset h with ⟨he, -⟩ | ⟨e, he, ⟨hid, hstatus⟩, rfl⟩
    · exact Or.inl he
    · exact Or.inr ⟨rfl, e, he, hid, hstatus, rfl⟩

theorem finishCall_keeps {env : ToolEnv} {s : ToolState} {n : Nat} {p : Prepared}
    {executionId : Uuid} {outcome : HandlerOutcome} {now : Time} {written : Bool} {e : ExecutionRow}
    (he : e ∈ s.executions.rows) (hid : e.id ≠ executionId) :
    e ∈ (finishCall env s n p executionId outcome now written).executions.rows := by
  cases written with
  | false => exact he
  | true =>
    refine List.mem_map.mpr ⟨e, he, ?_⟩
    rw [Table.rewrite, if_neg (fun h => hid h.1)]

/-- The other calls after the end of one. -/
theorem openInv_finishCall {env : ToolEnv} {s : ToolState} {n : Nat} {p : Prepared}
    {executionId : Uuid} {outcome : HandlerOutcome} {now : Time} {written : Bool}
    (hinv : ToolInv env s) (h : OpenInv s) (hn : (s.calls n).receipt? = some (p, executionId)) :
    OpenInv (finishCall env s n p executionId outcome now written) := by
  have hother : ∀ m,
      ((finishCall env s n p executionId outcome now written).calls m).receipt? ≠ none → m ≠ n ∧
      (finishCall env s n p executionId outcome now written).calls m = s.calls m := by
    intro m hm
    by_cases he : m = n
    · subst he
      simp only [finishCall, Function.update_self] at hm
      exact absurd rfl hm
    · exact ⟨he, Function.update_of_ne he _ _⟩
  constructor
  · intro m p' executionId' hm
    obtain ⟨-, hcall⟩ := hother m (by simp [hm])
    rw [hcall] at hm
    exact h.committed m p' executionId' hm
  · intro m p' executionId' hm
    obtain ⟨hne, hcall⟩ := hother m (by simp [hm])
    rw [hcall] at hm
    obtain ⟨e, he, hid, hstatus⟩ := h.row m p' executionId' hm
    refine ⟨e, finishCall_keeps he ?_, hid, hstatus⟩
    intro hsame
    rw [hid] at hsame
    exact hne (h.unique hinv (hsame ▸ hm) hn)
  · intro m p' executionId' hm
    have hreceipt : ((finishCall env s n p executionId outcome now written).calls m).receipt? ≠
        none := by
      rw [hm]
      nofun
    rw [(hother m hreceipt).2] at hm
    exact h.logged m p' executionId' hm

theorem openInv_step {env : ToolEnv} {s t : ToolState} {a : ToolAct} (hinv : ToolInv env s)
    (h : OpenInv s) (hmove : ReceiptMove env s t a) : OpenInv t := by
  cases hmove with
  | quiet hexecutions hlog hcalls =>
    have hsame : ∀ m x, (t.calls m).receipt? = some x → t.calls m = s.calls m := by
      intro m x hx
      rcases hcalls m with hm | hm
      · exact hm
      · rw [hm] at hx
        cases hx
    constructor
    · intro n p executionId hn
      rw [hlog]
      exact h.committed n p executionId (hsame n _ hn ▸ hn)
    · intro n p executionId hn
      rw [hexecutions]
      exact h.row n p executionId (hsame n _ hn ▸ hn)
    · intro n p executionId hn
      rw [hlog]
      have hreceipt : (t.calls n).receipt? = some (p, executionId) := by
        rw [hn]
        rfl
      exact h.logged n p executionId ((hsame n _ hreceipt).symm.trans hn)
  | create c row hid hstarted hfresh hrows hlog hcalls =>
    have hcommits : commits t.log = commits s.log ++ [c] := by
      rw [hlog, commits_snoc]
      rfl
    have hstarts : starts t.log = starts s.log := by
      rw [hlog, starts_snoc]
      exact List.append_nil _
    constructor
    · intro n p executionId hn
      rw [hcommits]
      rw [hcalls] at hn
      by_cases he : n = c.call
      · subst he
        rw [Function.update_self] at hn
        cases hn
        exact ⟨c, List.mem_append_right _ (List.mem_singleton_self c), rfl⟩
      · rw [Function.update_of_ne he] at hn
        obtain ⟨c', hc', hstart⟩ := h.committed n p executionId hn
        exact ⟨c', List.mem_append_left _ hc', hstart⟩
    · intro n p executionId hn
      rw [hrows]
      rw [hcalls] at hn
      by_cases he : n = c.call
      · subst he
        rw [Function.update_self] at hn
        cases hn
        exact ⟨row, List.mem_append_right _ (List.mem_singleton_self row), hid, hstarted⟩
      · rw [Function.update_of_ne he] at hn
        obtain ⟨e, hmem, hrest⟩ := h.row n p executionId hn
        exact ⟨e, List.mem_append_left _ hmem, hrest⟩
    · intro n p executionId hn
      rw [hstarts]
      rw [hcalls] at hn
      by_cases he : n = c.call
      · subst he
        rw [Function.update_self] at hn
        cases hn
      · rw [Function.update_of_ne he] at hn
        exact h.logged n p executionId hn
  | start st hst hexecutions hlog hcalls =>
    have hcommits : commits t.log = commits s.log := by
      rw [hlog, commits_snoc]
      exact List.append_nil _
    have hstarts : starts t.log = starts s.log ++ [st] := by
      rw [hlog, starts_snoc]
      rfl
    have hreceipt : ∀ m, (t.calls m).receipt? = (s.calls m).receipt? := by
      intro m
      rw [hcalls]
      by_cases he : m = st.call
      · rw [he, Function.update_self, hst]
        rfl
      · rw [Function.update_of_ne he]
    constructor
    · intro n p executionId hn
      rw [hcommits]
      exact h.committed n p executionId (hreceipt n ▸ hn)
    · intro n p executionId hn
      rw [hexecutions]
      exact h.row n p executionId (hreceipt n ▸ hn)
    · intro n p executionId hn
      rw [hstarts]
      rw [hcalls] at hn
      by_cases he : n = st.call
      · subst he
        rw [Function.update_self] at hn
        cases hn
        exact List.mem_append_right _ (List.mem_singleton_self st)
      · rw [Function.update_of_ne he] at hn
        exact List.mem_append_left _ (h.logged n p executionId hn)
  | stop n p executionId text now written hn ht =>
    subst ht
    exact openInv_finishCall hinv h (by rw [hn]; rfl)
  | finish n p executionId outcome now written hn ht =>
    subst ht
    have hend : OpenInv (finishCall env s n p executionId outcome now written) :=
      openInv_finishCall hinv h (by rw [hn]; rfl)
    have hcommits : commits (s.log ++ [.finished executionId outcome]) = commits s.log :=
      commits_finished _ _ _
    have hstarts : starts (s.log ++ [.finished executionId outcome]) = starts s.log :=
      starts_finished _ _ _
    constructor
    · show ∀ m p' executionId', _ → ∃ c ∈ commits (s.log ++ _), _
      rw [hcommits]
      exact hend.committed
    · exact hend.row
    · show ∀ m p' executionId', _ → _ ∈ starts (s.log ++ _)
      rw [hstarts]
      exact hend.logged

/-! ## Honest receipts -/

/-- The receipt of a started write is never `failed`, and `succeeded` only with the
value the handler returned, its keys in order. -/
def HonestReceipts (s : ToolState) : Prop :=
  ∀ st ∈ starts s.log, st.prepared.spec.sideEffect = .write →
    ∀ e ∈ s.executions.rows, e.id = st.executionId →
      (e.status = .started ∨ e.status = .succeeded ∨ e.status = .needsReconciliation) ∧
      (e.status = .succeeded →
        ∃ v, .finished st.executionId (.returned v) ∈ s.log ∧ e.result = some v.sortKeys)

/-- A JSON object whose text is longer than a receipt retains. -/
def tooLarge (env : ToolEnv) (v : Json) : Bool :=
  v.isObj && decide (env.settings.checkpointMaxStateBytes < (canonical v).utf8ByteSize)

/-- The handler of a write tool is under way in this call. -/
def executingWrite (s : ToolState) (n : Nat) : Bool :=
  match s.calls n with
  | .executing p _ => p.spec.sideEffect = .write
  | _ => false

/-- The handler of a write tool returned such an object, and the UPDATE goes through. -/
def losesWrite (env : ToolEnv) (s : ToolState) : ToolAct → Bool
  | .finish n (.returned v) _ true => executingWrite s n && tooLarge env v
  | _ => false

theorem castJsonb_canonical {v stored : Json} (h : castJsonb (canonical v) = some stored) :
    stored = v.sortKeys := by
  obtain ⟨hload, -⟩ := Option.filter_eq_some_iff.mp h
  rw [canonical, Json.loads_dumps] at hload
  exact (Option.some.inj hload).symm

theorem finishWrite_returned {env : ToolEnv} {spec : ToolSpec} (v : Json)
    (hsmall : tooLarge env v = false) : finishWrite env spec (.returned v) =
      if v.isObj then .success v
      else .failure (failureStatus spec.sideEffect) notAnObject (toolText spec "failed") := by
  simp only [finishWrite]
  cases hobj : v.isObj with
  | false => rfl
  | true =>
    have hfits : ¬ env.settings.checkpointMaxStateBytes < (canonical v).utf8ByteSize := by
      simpa [tooLarge, hobj] using hsmall
    simp [hfits]

/-- The one UPDATE of a started write's receipt, by outcome. -/
theorem set_honest {env : ToolEnv} {spec : ToolSpec} {outcome : HandlerOutcome} {now : Time}
    {e : ExecutionRow} (hwrite : spec.sideEffect = .write)
    (hsmall : ∀ v, outcome = .returned v → tooLarge env v = false) (he : e.status = .started) :
    let e' := (finishWrite env spec outcome).set env now e
    (e'.status = .started ∨ e'.status = .succeeded ∨ e'.status = .needsReconciliation) ∧
      (e'.status = .succeeded → ∃ v, outcome = .returned v ∧ e'.result = some v.sortKeys) := by
  have hfailure : failureStatus spec.sideEffect = .needsReconciliation := by
    rw [hwrite, failureStatus]
  cases outcome with
  | timedOut => simp [finishWrite, FinishWrite.set, failRow, hfailure]
  | raised text => simp [finishWrite, FinishWrite.set, failRow, hfailure]
  | escaped => simp [finishWrite, FinishWrite.set, he]
  | returnedForeign isDict =>
    cases isDict with
    | true => simp [finishWrite, FinishWrite.set, he]
    | false => simp [finishWrite, FinishWrite.set, failRow, hfailure]
  | returned v =>
    rw [finishWrite_returned v (hsmall v rfl)]
    cases v.isObj with
    | false => simp [FinishWrite.set, failRow, hfailure]
    | true =>
      cases hcast : castJsonb (canonical v) with
      | none => simp [FinishWrite.set, hcast, he]
      | some stored => simp [FinishWrite.set, hcast, succeedRow, castJsonb_canonical hcast]

theorem honest_step {env : ToolEnv} {s t : ToolState} {a : ToolAct} (hinv : ToolInv env s)
    (hopen : OpenInv s) (h : HonestReceipts s) (hmove : ReceiptMove env s t a)
    (hok : losesWrite env s a = false) : HonestReceipts t := by
  cases hmove with
  | quiet hexecutions hlog hcalls =>
    unfold HonestReceipts
    rw [hlog, hexecutions]
    exact h
  | create c row hid hstarted hfresh hrows hlog hcalls =>
    have hstarts : starts t.log = starts s.log := by
      rw [hlog, starts_snoc]
      exact List.append_nil _
    intro st hst hwrite e he hid'
    rw [hstarts] at hst
    rw [hrows] at he
    rcases List.mem_append.mp he with he | he
    · obtain ⟨hstatus, hresult⟩ := h st hst hwrite e he hid'
      refine ⟨hstatus, ?_⟩
      intro hs
      obtain ⟨v, hv, hstored⟩ := hresult hs
      exact ⟨v, hlog ▸ List.mem_append_left _ hv, hstored⟩
    · have hknown := hinv.started_known (List.mem_map_of_mem (f := Start.executionId) hst)
      rw [← hid', List.mem_singleton.mp he] at hknown
      exact absurd hknown hfresh
  | start st' hst' hexecutions hlog hcalls =>
    have hstarts : starts t.log = starts s.log ++ [st'] := by
      rw [hlog, starts_snoc]
      rfl
    intro st hst hwrite e he hid
    rw [hstarts] at hst
    rw [hexecutions] at he
    rcases List.mem_append.mp hst with hst | hst
    · obtain ⟨hstatus, hresult⟩ := h st hst hwrite e he hid
      refine ⟨hstatus, ?_⟩
      intro hs
      obtain ⟨v, hv, hstored⟩ := hresult hs
      exact ⟨v, hlog ▸ List.mem_append_left _ hv, hstored⟩
    · -- the receipt of a handler just started has not been touched since its commit
      obtain ⟨e', he', hid', hstatus'⟩ :=
        hopen.row st'.call st'.prepared st'.executionId (by rw [hst']; rfl)
      rw [List.mem_singleton.mp hst] at hid
      have hsame : e = e' := Table.eq_of_key he he' (hid.trans hid'.symm)
      rw [hsame, hstatus']
      exact ⟨Or.inl rfl, nofun⟩
  | stop n p executionId text now written hn ht =>
    subst ht
    have hfresh := (hinv.waiting hn).fresh
    intro st hst hwrite e he hid
    rcases finishCall_mem he with he | ⟨-, e', he', hid', -, rfl⟩
    · exact h st hst hwrite e he hid
    · rw [FinishWrite.set_id, hid'] at hid
      exact absurd (hid ▸ List.mem_map_of_mem hst) hfresh
  | finish n p executionId outcome now written hn ht =>
    subst ht
    have hstarts : starts (s.log ++ [.finished executionId outcome]) = starts s.log :=
      starts_finished _ _ _
    intro st hst hwrite e he hid
    have hst : st ∈ starts s.log := hstarts ▸ hst
    have he : e ∈ (finishCall env s n p executionId outcome now written).executions.rows := he
    rcases finishCall_mem he with he | ⟨hwritten, e', he', hid', hstatus', rfl⟩
    · obtain ⟨hstatus, hresult⟩ := h st hst hwrite e he hid
      refine ⟨hstatus, ?_⟩
      intro hs
      obtain ⟨v, hv, hstored⟩ := hresult hs
      exact ⟨v, List.mem_append_left _ hv, hstored⟩
    · rw [FinishWrite.set_id, hid'] at hid
      have hsame : st = ⟨n, executionId, p⟩ :=
        List.inj_on_of_nodup_map hinv.started.once hst (hopen.logged n p executionId hn) hid.symm
      subst hsame
      have hwrite : p.spec.sideEffect = .write := hwrite
      have hsmall : ∀ v, outcome = .returned v → tooLarge env v = false := by
        rintro v rfl
        rw [hwritten] at hok
        simpa [losesWrite, executingWrite, hn, hwrite] using hok
      obtain ⟨hstatus, hresult⟩ := set_honest hwrite hsmall hstatus'
      refine ⟨hstatus, ?_⟩
      intro hs
      obtain ⟨v, rfl, hstored⟩ := hresult hs
      exact ⟨v, List.mem_append_right _ (List.mem_singleton_self _), hstored⟩

theorem executingWrite_eq {s : ToolState} {n : Nat} (h : executingWrite s n = true) :
    ∃ p executionId, s.calls n = .executing p executionId ∧ p.spec.sideEffect = .write := by
  unfold executingWrite at h
  split at h
  · rename_i p executionId hn
    exact ⟨p, executionId, hn, of_decide_eq_true h⟩
  · cases h

theorem toolStep_finish (env : ToolEnv) {s : ToolState} {n : Nat} {p : Prepared}
    {executionId : Uuid} (hn : s.calls n = .executing p executionId) (outcome : HandlerOutcome)
    (now : Time) (written : Bool) :
    toolStep env s (.finish n outcome now written) =
      some ((finishCall env s n p executionId outcome now written).record
        (.finished executionId outcome)) := by
  simp only [toolStep, hn]

/-- A result that is too large is recorded as a failure of the write. -/
theorem failed_of_losesWrite {env : ToolEnv} {s t : ToolState} {a : ToolAct} (hopen : OpenInv s)
    (hbad : losesWrite env s a = true) (hstep : toolStep env s a = some t) :
    ∃ st ∈ starts t.log, st.prepared.spec.sideEffect = .write ∧
      ∃ e ∈ t.executions.rows, e.id = st.executionId ∧ e.status = .failed := by
  match a, hbad with
  | .finish n (.returned v) now true, hbad =>
    obtain ⟨hexecuting, hlarge⟩ := Bool.and_eq_true_iff.mp hbad
    obtain ⟨p, executionId, hn, hwrite⟩ := executingWrite_eq hexecuting
    obtain ⟨hobj, hsize⟩ := Bool.and_eq_true_iff.mp hlarge
    have hsize := of_decide_eq_true hsize
    obtain ⟨e, he, hid, hstatus⟩ := hopen.row n p executionId (by rw [hn]; rfl)
    rw [toolStep_finish env hn] at hstep
    cases hstep
    have hmem : failRow now .failed resultTooLarge e ∈
        (finishCall env s n p executionId (.returned v) now true).executions.rows := by
      refine List.mem_map.mpr ⟨e, he, ?_⟩
      rw [Table.rewrite, if_pos ⟨hid, hstatus⟩]
      simp [finishWrite, hobj, hsize, FinishWrite.set]
    have hst : (⟨n, executionId, p⟩ : Start) ∈
        starts (s.log ++ [.finished executionId (.returned v)]) := by
      rw [starts_snoc]
      exact List.mem_append_left _ (hopen.logged n p executionId hn)
    exact ⟨_, hst, hwrite, _, hmem, hid, rfl⟩

theorem not_honest_of_failed {s : ToolState}
    (h : ∃ st ∈ starts s.log, st.prepared.spec.sideEffect = .write ∧
      ∃ e ∈ s.executions.rows, e.id = st.executionId ∧ e.status = .failed) :
    ¬ HonestReceipts s := by
  obtain ⟨st, hst, hwrite, e, he, hid, hstatus⟩ := h
  intro hhonest
  have hother := (hhonest st hst hwrite e he hid).1
  rw [hstatus] at hother
  exact absurd hother (by decide)

theorem openInv_reaches {env : ToolEnv} {acts : List ToolAct} {s : ToolState}
    (h : Reaches (toolStep env) ToolState.initial acts s) : ToolInv env s ∧ OpenInv s := by
  apply Reaches.invariant (P := fun s => ToolInv env s ∧ OpenInv s) _ h
    ⟨toolInv_initial env, openInv_initial⟩
  rintro s a t ⟨hinv, hopen⟩ ht
  exact ⟨toolInv_step hinv ht, openInv_step hinv hopen (toolStep_receipt hinv ht)⟩

theorem honest_reaches {env : ToolEnv} {acts : List ToolAct} {s : ToolState}
    (h : Reaches (restrict (fun s a => losesWrite env s a = false) (toolStep env))
      ToolState.initial acts s) : HonestReceipts s := by
  have hinitial : HonestReceipts ToolState.initial := by
    intro st hst
    cases hst
  have hall : ToolInv env s ∧ OpenInv s ∧ HonestReceipts s := by
    apply Reaches.invariant (P := fun s => ToolInv env s ∧ OpenInv s ∧ HonestReceipts s) _ h
      ⟨toolInv_initial env, openInv_initial, hinitial⟩
    rintro s a t ⟨hinv, hopen, hhonest⟩ ht
    obtain ⟨hok, ht⟩ := restrict_eq_some.mp ht
    have hmove := toolStep_receipt hinv ht
    exact ⟨toolInv_step hinv ht, openInv_step hinv hopen hmove,
      honest_step hinv hopen hhonest hmove hok⟩
  exact hall.2.2

/-- A run keeps its receipts honest in all its states if and only if no handler of a
write tool returns an object too large to retain whose UPDATE goes through. -/
theorem honest_receipts_iff {env : ToolEnv} {acts : List ToolAct} {s : ToolState}
    (h : Reaches (toolStep env) ToolState.initial acts s) :
    Reaches (restrict (fun s a => losesWrite env s a = false) (toolStep env))
      ToolState.initial acts s ↔
      ∀ pre post m, acts = pre ++ post → Reaches (toolStep env) ToolState.initial pre m →
      HonestReceipts m := by
  constructor
  · intro hok pre post m hacts hpre
    rw [hacts] at hok
    obtain ⟨m', hpre', -⟩ := reaches_append.mp hok
    rw [hpre.unique hpre'.of_restrict]
    exact honest_reaches hpre'
  · intro hall
    refine reaches_restrict.mpr ⟨h, ?_⟩
    intro pre a post m hacts hpre
    by_contra hbad
    rw [hacts] at h
    obtain ⟨m', hpre', hrest⟩ := reaches_append.mp h
    have hm := hpre'.unique hpre
    subst hm
    obtain ⟨t, hstep, -⟩ := reaches_cons.mp hrest
    have ht : Reaches (toolStep env) ToolState.initial (pre ++ [a]) t :=
      reaches_snoc.mpr ⟨m', hpre, hstep⟩
    have hfailed := failed_of_losesWrite (openInv_reaches hpre).2 (eq_true_of_ne_false hbad) hstep
    exact not_honest_of_failed hfailed (hall (pre ++ [a]) post t (by simp [hacts]) ht)

/-- The smallest limit the settings accept. -/
def smallEnv : ToolEnv where
  tenant := sampleEnv.tenant
  registry := sampleEnv.registry
  settings :=
    { toolMaxArgumentsBytes := 64 * 1024
      toolApprovalTtlSeconds := 3600
      checkpointMaxStateBytes := 1024
      arguments_bounds := ToolSettings.default.arguments_bounds
      ttl_bounds := ToolSettings.default.ttl_bounds
      state_bounds := by decide }
  sha256 := sampleEnv.sha256

/-- A report of `n` characters on what was sent. -/
def deliveryReport (n : Nat) : Json :=
  .obj [("report", .str (String.ofList (List.replicate n 'x')))]

theorem length_le_utf8ByteSize (cs : List Char) : cs.length ≤ (String.ofList cs).utf8ByteSize := by
  rw [String.utf8ByteSize_ofList]
  induction cs with
  | nil => exact Nat.le_refl 0
  | cons c cs ih =>
    have hc := c.utf8Size_pos
    rw [String.utf8Len_cons, List.length_cons]
    omega

theorem tooLarge_deliveryReport (env : ToolEnv) {n : Nat}
    (h : env.settings.checkpointMaxStateBytes ≤ n) : tooLarge env (deliveryReport n) = true := by
  have hplain : ∀ m, (List.replicate m 'x').flatMap Json.escape = List.replicate m 'x' := by
    intro m
    induction m with
    | zero => rfl
    | succ m ih =>
      rw [List.replicate_succ, List.flatMap_cons, ih]
      rfl
  have hlength : n < ((deliveryReport n).sortKeys.print).length := by
    simp [deliveryReport, Json.sortKeys, Json.sortFields, Json.print, Json.printFields,
      Json.printChars, hplain]
    omega
  have hsize : n < (canonical (deliveryReport n)).utf8ByteSize :=
    Nat.lt_of_lt_of_le hlength (length_le_utf8ByteSize _)
  exact Bool.and_eq_true_iff.mpr ⟨rfl, decide_eq_true (Nat.lt_of_le_of_lt h hsize)⟩

theorem racingCalls_run_small :
    (racingCalls.foldlM (toolStep smallEnv) ToolState.initial).isSome = true := by decide +kernel

/-- The approved call of `racingCalls` sends its mail, and its handler returns a report
one character too long: the receipt says `failed`. -/
theorem large_result_recorded_failed :
    ∃ s, Reaches (toolStep smallEnv) ToolState.initial
      (racingCalls ++ [.finish 1 (.returned (deliveryReport 1024)) 4 true]) s ∧
      (∃ st ∈ starts s.log, st.prepared.spec.sideEffect = .write ∧
        ∃ e ∈ s.executions.rows, e.id = st.executionId ∧ e.status = .failed) ∧
      ¬ HonestReceipts s := by
  have hreach := reaches_get racingCalls_run_small
  have hexecuting : executingWrite
      ((racingCalls.foldlM (toolStep smallEnv) ToolState.initial).get racingCalls_run_small) 1 =
      true := by
    decide +kernel
  have hlarge : tooLarge smallEnv (deliveryReport 1024) = true :=
    tooLarge_deliveryReport smallEnv (Nat.le_refl 1024)
  have hloses : losesWrite smallEnv _ (.finish 1 (.returned (deliveryReport 1024)) 4 true) = true :=
    Bool.and_eq_true_iff.mpr ⟨hexecuting, hlarge⟩
  obtain ⟨p, executionId, hn, -⟩ := executingWrite_eq hexecuting
  have hstep := toolStep_finish smallEnv hn (.returned (deliveryReport 1024)) 4 true
  have hfailed := failed_of_losesWrite (openInv_reaches hreach).2 hloses hstep
  exact ⟨_, reaches_snoc.mpr ⟨_, hreach, hstep⟩, hfailed, not_honest_of_failed hfailed⟩

/-- The same call where the handler returns no more than an empty object. -/
def receivedCalls : List ToolAct := racingCalls ++ [.finish 1 (.returned .emptyObj) 4 true]

theorem receivedCalls_run :
    (receivedCalls.foldlM
      (restrict (fun s a => losesWrite smallEnv s a = false) (toolStep smallEnv))
      ToolState.initial).isSome =
      true := by
  decide +kernel

theorem honest_receipts_receivedCalls :
    ∃ s, Reaches (toolStep smallEnv) ToolState.initial receivedCalls s ∧ HonestReceipts s ∧
      s.executions.rows.map ExecutionRow.status = [.succeeded] := by
  have hreach := reaches_get receivedCalls_run
  refine ⟨_, hreach.of_restrict, ?_, by decide +kernel⟩
  exact (honest_receipts_iff hreach.of_restrict).mp hreach receivedCalls [] _
    (List.append_nil _).symm hreach.of_restrict

end AgenticPlatform.Agent
