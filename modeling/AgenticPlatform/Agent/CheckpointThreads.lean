import AgenticPlatform.Agent.CheckpointLog

/-!
# Threads of the checkpoint log

The results about a thread: rows for good, steps without gaps where only `append`
writes, the latest checkpoint, a step saved again, and the state that comes back.
-/
namespace AgenticPlatform.Agent
open AgenticPlatform.Foundation AgenticPlatform.Identity AgenticPlatform.Db

variable {env : CheckpointEnv}

/-! ## Rows for good -/

theorem CheckpointMove.rows_keep {s t : CheckpointState} {a : CheckpointAct}
    (h : CheckpointMove env s t a) {row : CheckpointRow} (hrow : row ∈ s.table.rows) :
    row ∈ t.table.rows := by
  rcases h.commits with ⟨htable, -⟩ | ⟨_, _, _, _, -, -, -, hrows, -⟩
  · rw [htable]
    exact hrow
  · rw [hrows]
    exact List.mem_append_left _ hrow

theorem rows_keep {s t : CheckpointState} {acts : List CheckpointAct}
    (hrun : Reaches (checkpointStep env) s acts t) {row : CheckpointRow}
    (hrow : row ∈ s.table.rows) : row ∈ t.table.rows :=
  hrun.invariant (P := fun m => row ∈ m.table.rows)
    (fun _ _ _ hm hstep => (checkpointStep_move hstep).rows_keep hm) hrow

/-! ## Threads only `append` writes to -/

def CheckpointRow.On (row : CheckpointRow) (tenantId : Uuid) (threadId : String) : Prop :=
  row.tenantId = tenantId ∧ row.threadId = threadId

instance (row : CheckpointRow) (tenantId : Uuid) (threadId : String) :
    Decidable (row.On tenantId threadId) :=
  inferInstanceAs (Decidable (_ ∧ _))

def Write.On (w : Write) (tenantId : Uuid) (threadId : String) : Prop :=
  w.ctx.tenant.id = tenantId ∧ w.threadId = threadId

/-- A save that targets the thread. -/
def CheckpointAct.SavesOn (tenantId : Uuid) (threadId : String) : CheckpointAct → Prop
  | .save _ ctx cp => ctx.tenant.id = tenantId ∧ cp.threadId = threadId
  | _ => False

/-- The appends committed on a thread, in commit order. -/
def appendsOn (log : List Committed) (tenantId : Uuid) (threadId : String) : List Committed :=
  log.filter (fun c => c.appends ∧ c.row.On tenantId threadId)

section
variable {tenantId : Uuid} {threadId : String}

theorem RowOf.on_iff {w : Write} {step : Int} {row : CheckpointRow} (h : RowOf env w step row) :
    row.On tenantId threadId ↔ w.On tenantId threadId := by
  have hkey := h.key
  simp only [CheckpointRow.key, Write.key, Prod.mk.injEq] at hkey
  rw [CheckpointRow.On, Write.On, hkey.1, hkey.2.1]

theorem RowOf.step_eq {w : Write} {step : Int} {row : CheckpointRow} (h : RowOf env w step row) :
    row.step = step := by
  have hkey := h.key
  simp only [CheckpointRow.key, Write.key, Prod.mk.injEq] at hkey
  exact hkey.2.2

theorem Write.lock_eq {w w' : Write} (h : w.On tenantId threadId) (h' : w'.On tenantId threadId) :
    w.lock env = w'.lock env := by
  rw [Write.lock, Write.lock, h.1, h.2, h'.1, h'.2]

theorem threadRows_append (tenantId : Uuid) (threadId : String) {table table' : CheckpointTable}
    {row : CheckpointRow} (h : table'.rows = table.rows ++ [row]) :
    threadRows table' tenantId threadId =
      threadRows table tenantId threadId ++ if row.On tenantId threadId then [row]
      else [] := by
  rw [threadRows, threadRows, h, List.filter_append]
  congr 1
  by_cases hon : row.On tenantId threadId
  · rw [if_pos hon]
    exact List.filter_cons_of_pos (decide_eq_true hon)
  · rw [if_neg hon]
    exact List.filter_cons_of_neg (by simpa [CheckpointRow.On] using hon)

/-- The steps of the thread are the first ones, in commit order. -/
def Consecutive (table : CheckpointTable) (tenantId : Uuid) (threadId : String) : Prop :=
  (threadRows table tenantId threadId).map CheckpointRow.step =
    (List.range (threadRows table tenantId threadId).length).map Int.ofNat

theorem nextStep_of_consecutive {table : CheckpointTable}
    (h : Consecutive table tenantId threadId) :
    nextStep table tenantId threadId = ((threadRows table tenantId threadId).length : Int) := by
  rw [nextStep, h]
  cases (threadRows table tenantId threadId).length with
  | zero => rfl
  | succ k =>
    have hmax : ((List.range (k + 1)).map Int.ofNat).max? = some (k : Int) := by
      rw [List.max?_eq_some_iff]
      constructor
      · exact List.mem_map.mpr ⟨k, List.mem_range.mpr (Nat.lt_succ_self k), rfl⟩
      · intro b hb
        obtain ⟨i, hi, rfl⟩ := List.mem_map.mp hb
        exact Int.ofNat_le.mpr (Nat.lt_succ_iff.mp (List.mem_range.mp hi))
    rw [hmax, Option.getD_some]
    rfl

theorem Consecutive.append {table table' : CheckpointTable} {row : CheckpointRow}
    (h : Consecutive table tenantId threadId) (hrows : table'.rows = table.rows ++ [row])
    (hstep : row.On tenantId threadId → row.step = nextStep table tenantId threadId) :
    Consecutive table' tenantId threadId := by
  have hthread := threadRows_append tenantId threadId hrows
  by_cases hon : row.On tenantId threadId
  · rw [if_pos hon] at hthread
    rw [Consecutive, hthread, List.map_append, h, List.length_append, List.length_singleton,
      List.range_succ, List.map_append, List.map_singleton, List.map_singleton, hstep hon,
      nextStep_of_consecutive h]
    rfl
  · rw [if_neg hon, List.append_nil] at hthread
    rw [Consecutive, hthread]
    exact h

/-- An append that has read its step, or inserted its row, has the next step. -/
def CallAppends (tenantId : Uuid) (threadId : String) (next : Int) : CheckpointCall → Prop
  | .saving w _ _ | .existing w _ => ¬ w.On tenantId threadId
  | .stepRead w step => w.On tenantId threadId → step = next
  | .inserted w row appends => w.On tenantId threadId → appends = true ∧ row.step = next
  | .unused | .appending _ | .locked _ | .ended _ => True

structure AppendedOnly (tenantId : Uuid) (threadId : String) (s : CheckpointState) : Prop where
  consecutive : Consecutive s.table tenantId threadId
  appends : ∀ c ∈ s.log, c.row.On tenantId threadId → c.appends = true
  calls : ∀ n, CallAppends tenantId threadId (nextStep s.table tenantId threadId) (s.calls n)

theorem AppendedOnly.initial (tenantId : Uuid) (threadId : String) :
    AppendedOnly tenantId threadId .initial where
  consecutive := rfl
  appends := fun _ h => absurd h List.not_mem_nil
  calls := fun _ => trivial

/-- The call that moves, with the thread as it was before. -/
theorem AppendedOnly.own_call {s t : CheckpointState} {a : CheckpointAct}
    (h : AppendedOnly tenantId threadId s) (hmove : CheckpointMove env s t a)
    (hsave : ¬ a.SavesOn tenantId threadId) :
    CallAppends tenantId threadId (nextStep s.table tenantId threadId) (t.calls a.call) := by
  have hown := h.calls a.call
  cases hmove with
  | fail e hwhy ht =>
    rw [ht, CheckpointState.fail, CheckpointState.finish_calls_self]
    trivial
  | beginSave ctx cp w ha hn hok ht =>
    rw [ht, CheckpointState.setCall_calls_self, checkSave_eq_ok hok]
    rw [ha] at hsave
    exact hsave
  | beginAppend w hn hsound ht =>
    rw [ht, CheckpointState.setCall_calls_self]
    trivial
  | lock w hn hfree ht =>
    have hcall : t.calls a.call = .locked w := by
      rw [ht]
      exact s.setCall_calls_self a.call (.locked w)
    rw [hcall]
    trivial
  | readStep w hn ht =>
    rw [ht, CheckpointState.setCall_calls_self]
    rintro ⟨rfl, rfl⟩
    rfl
  | insert w row step appends hn hrow hnew ht =>
    have hcall : t.calls a.call = .inserted w row appends := by
      rw [ht]
      exact s.setCall_calls_self a.call (.inserted w row appends)
    rw [hcall]
    intro hon
    rcases hn with ⟨createdAt, hn, -⟩ | ⟨hn, rfl⟩
    · rw [hn] at hown
      exact absurd hon hown
    · rw [hn] at hown
      exact ⟨rfl, hrow.step_eq.trans (hown hon)⟩
  | found w step createdAt hn hrow ht =>
    rw [hn] at hown
    rw [ht, CheckpointState.setCall_calls_self]
    exact hown
  | same w step row hn hget hsame ht =>
    rw [ht, CheckpointState.finish_calls_self]
    trivial
  | commit w row appends r table' hn hins ht =>
    have hcall : t.calls a.call = .ended r := by
      rw [ht]
      exact s.finish_calls_self a.call r
    rw [hcall]
    trivial

/-- While a call holds the lock of the thread, no other one is past it. -/
theorem CallAppends.of_lock {locks : Int → Option Nat} {n m : Nat} {w : Write} {c : CheckpointCall}
    {next next' : Int} (h : CallAppends tenantId threadId next c) (hkeeps : CallKeeps env locks m c)
    (hlock : locks (w.lock env) = some n) (hon : w.On tenantId threadId) (hne : m ≠ n) :
    CallAppends tenantId threadId next' c := by
  have hother : ∀ w' : Write, w'.On tenantId threadId → locks (w'.lock env) ≠ some m := by
    intro w' hon' hheld
    rw [Write.lock_eq hon' hon, hlock] at hheld
    exact hne (Option.some.inj hheld).symm
  cases c with
  | unused | appending _ | locked _ | ended _ => trivial
  | saving _ _ _ | existing _ _ => exact h
  | stepRead w' step =>
    intro hon'
    exact absurd hkeeps.2 (hother w' hon')
  | inserted w' row appends =>
    intro hon'
    exact absurd (hkeeps.2.2 (h hon').1) (hother w' hon')

theorem AppendedOnly.step {s t : CheckpointState} {a : CheckpointAct} (hinv : CheckpointInv env s)
    (h : AppendedOnly tenantId threadId s) (hmove : CheckpointMove env s t a)
    (hsave : ¬ a.SavesOn tenantId threadId) : AppendedOnly tenantId threadId t := by
  have hown := h.own_call hmove hsave
  rcases hmove.commits with ⟨htable, hlog⟩ | ⟨w, row, appends, r, hn, hended, hfresh, hrows, hlog⟩
  · refine ⟨by rw [htable]; exact h.consecutive, by rw [hlog]; exact h.appends, ?_⟩
    intro m
    rw [htable]
    by_cases hm : m = a.call
    · rw [hm]
      exact hown
    · rw [hmove.calls_ne hm]
      exact h.calls m
  · have hcall := h.calls a.call
    have hkeeps := hinv.calls a.call
    rw [hn] at hcall hkeeps
    obtain ⟨step, hrow⟩ := hkeeps.2.1
    refine ⟨h.consecutive.append hrows (fun hon => (hcall (hrow.on_iff.mp hon)).2), ?_, ?_⟩
    · rw [hlog]
      intro c hc hon
      rcases List.mem_append.mp hc with hc | hc
      · exact h.appends c hc hon
      · rw [List.mem_singleton.mp hc] at hon ⊢
        exact (hcall (hrow.on_iff.mp hon)).1
    · intro m
      by_cases hm : m = a.call
      · rw [hm, hended]
        trivial
      · rw [hmove.calls_ne hm]
        by_cases hon : w.On tenantId threadId
        · exact (h.calls m).of_lock (hinv.calls m) (hkeeps.2.2 (hcall hon).1) hon hm
        · have hsame := threadRows_append tenantId threadId hrows
          rw [if_neg (fun honrow => hon (hrow.on_iff.mp honrow)), List.append_nil] at hsame
          rw [nextStep, hsame]
          exact h.calls m

theorem appendedOnly_reaches {s t : CheckpointState} {acts : List CheckpointAct}
    (hinv : CheckpointInv env s) (h : AppendedOnly tenantId threadId s)
    (hrun : Reaches (checkpointStep env) s acts t)
    (hsaves : ∀ a ∈ acts, ¬ a.SavesOn tenantId threadId) : AppendedOnly tenantId threadId t := by
  induction acts generalizing s with
  | nil => exact reaches_nil.mp hrun ▸ h
  | cons a acts ih =>
    obtain ⟨m, hm, hrest⟩ := reaches_cons.mp hrun
    have hmove := checkpointStep_move hm
    exact ih (hinv.step hmove) (h.step hinv hmove (hsaves a List.mem_cons_self)) hrest
      (fun b hb => hsaves b (List.mem_cons_of_mem a hb))

/-- The rows of the thread are those its appends committed. -/
theorem AppendedOnly.threadRows_eq {s : CheckpointState} (h : AppendedOnly tenantId threadId s)
    (hinv : CheckpointInv env s) :
    threadRows s.table tenantId threadId =
      (appendsOn s.log tenantId threadId).map Committed.row := by
  have hfilter : appendsOn s.log tenantId threadId =
      s.log.filter (fun c => c.row.On tenantId threadId) := by
    refine List.filter_congr (fun c hc => ?_)
    by_cases hon : c.row.On tenantId threadId
    · simp [hon, h.appends c hc hon]
    · simp [hon]
  rw [hfilter, threadRows, hinv.rows, List.filter_map]
  rfl

end

/-! ## Loads -/

section
variable {table : CheckpointTable} {ctx : RequestContext} {threadId : String}

theorem mem_threadRows {tenantId : Uuid} {row : CheckpointRow} :
    row ∈ threadRows table tenantId threadId ↔ row ∈ table.rows ∧ row.On tenantId threadId := by
  rw [threadRows, List.mem_filter, decide_eq_true_eq]
  rfl

theorem head?_greatest {rows : List CheckpointRow} {row : CheckpointRow}
    (h : (rows.insertionSort (fun a b : CheckpointRow => b.step ≤ a.step)).head? = some row) :
    row ∈ rows ∧ ∀ other ∈ rows, other.step ≤ row.step := by
  have : Std.Total (fun a b : CheckpointRow => b.step ≤ a.step) :=
    ⟨fun a b => le_total b.step a.step⟩
  have : IsTrans CheckpointRow (fun a b => b.step ≤ a.step) :=
    ⟨fun a b c hab hbc => le_trans hbc hab⟩
  have hsorted := List.pairwise_insertionSort (fun a b : CheckpointRow => b.step ≤ a.step) rows
  have hmem : ∀ other, other ∈ rows ↔
      other ∈ rows.insertionSort (fun a b : CheckpointRow => b.step ≤ a.step) :=
    fun other => (List.mem_insertionSort _).symm
  obtain ⟨rest, hrest⟩ := List.head?_eq_some_iff.mp h
  rw [hrest] at hsorted hmem
  refine ⟨(hmem row).mpr List.mem_cons_self, ?_⟩
  intro other hother
  rcases List.mem_cons.mp ((hmem other).mp hother) with rfl | hlater
  · exact le_rfl
  · exact List.rel_of_pairwise_cons hsorted hlater

theorem load_eq_ok {step : Option Int} {result : Option Checkpoint}
    (h : load table ctx threadId step = .ok result) :
    result = (loadRow (threadRows table ctx.tenant.id threadId) step).map checkpoint := by
  unfold load at h
  split at h
  · cases h
    rfl
  · cases h

/-- Without a step: the row with the greatest one. -/
theorem load_latest {cp : Checkpoint} (h : load table ctx threadId none = .ok (some cp)) :
    ∃ row ∈ threadRows table ctx.tenant.id threadId, checkpoint row = cp ∧
      ∀ other ∈ threadRows table ctx.tenant.id threadId, other.step ≤ row.step := by
  obtain ⟨row, hhead, hcp⟩ := Option.map_eq_some_iff.mp (load_eq_ok h).symm
  obtain ⟨hmem, hgreatest⟩ := head?_greatest hhead
  exact ⟨row, hmem, hcp, hgreatest⟩

theorem load_nothing (h : load table ctx threadId none = .ok none) :
    threadRows table ctx.tenant.id threadId = [] := by
  have hhead := Option.map_eq_none_iff.mp (load_eq_ok h).symm
  have hperm := List.perm_insertionSort (fun a b : CheckpointRow => b.step ≤ a.step)
    (threadRows table ctx.tenant.id threadId)
  rw [List.head?_eq_none_iff.mp hhead] at hperm
  exact List.nil_perm.mp hperm

theorem load_mem {step : Option Int} {cp : Checkpoint}
    (h : load table ctx threadId step = .ok (some cp)) :
    ∃ row ∈ threadRows table ctx.tenant.id threadId, checkpoint row = cp := by
  cases step with
  | none =>
    obtain ⟨row, hmem, hcp, -⟩ := load_latest h
    exact ⟨row, hmem, hcp⟩
  | some k =>
    obtain ⟨row, hhead, hcp⟩ := Option.map_eq_some_iff.mp (load_eq_ok h).symm
    exact ⟨row, List.mem_of_mem_filter (List.mem_of_head? hhead), hcp⟩

/-- With the step of a row: that row. -/
theorem load_step {row : CheckpointRow} (hrow : row ∈ table.rows)
    (htenant : row.tenantId = ctx.tenant.id) (hfits : textFits row.threadId = true) :
    load table ctx row.threadId (some row.step) = .ok (some (checkpoint row)) := by
  have hmem : row ∈ (threadRows table ctx.tenant.id row.threadId).filter
      (fun other => other.step = row.step) :=
    List.mem_filter.mpr ⟨mem_threadRows.mpr ⟨hrow, htenant, rfl⟩, by simp⟩
  have hhead : ((threadRows table ctx.tenant.id row.threadId).filter
      (fun other => other.step = row.step)).head? =
      some row := by
    cases hrows : (threadRows table ctx.tenant.id row.threadId).filter
        (fun other => other.step = row.step) with
    | nil =>
      rw [hrows] at hmem
      cases hmem
    | cons other rest =>
      have hother : other ∈ (threadRows table ctx.tenant.id row.threadId).filter
          (fun other => other.step = row.step) := by
        rw [hrows]
        exact List.mem_cons_self
      obtain ⟨hthread, hstep⟩ := List.mem_filter.mp hother
      obtain ⟨hin, hon⟩ := mem_threadRows.mp hthread
      have hkey : other.key = row.key := by
        rw [CheckpointRow.key, CheckpointRow.key, hon.1, hon.2, htenant, of_decide_eq_true hstep]
      rw [Table.eq_of_key hin hrow hkey, List.head?_cons]
  rw [load, if_pos hfits, loadRow, hhead, Option.map_some]

end

/-! ## A step saved again -/

section
variable {n : Nat} {w : Write} {step : Int} {createdAt : Time} {row : CheckpointRow}

/-- What `save` ends with on a step that holds this row. -/
def resaved (w : Write) (step : Int) (row : CheckpointRow) : CheckpointResult :=
  if differs w row then .failed (.conflict w.threadId step) else .saved

/-- How a save of a step that has a row can end, once its checks have passed. -/
inductive ResaveEnds (env : CheckpointEnv) (w : Write) (step : Int) (createdAt : Time)
    (row : CheckpointRow) : CheckpointResult → Prop where
  | interrupted : ResaveEnds env w step createdAt row (.failed .interrupted)
  | column (hrow : newCheckpoint env w step createdAt = none) :
    ResaveEnds env w step createdAt row (.failed .database)
  | compared (hrow : newCheckpoint env w step createdAt ≠ none) :
    ResaveEnds env w step createdAt row (resaved w step row)

/-- Where it can stand. -/
inductive ResaveAt (env : CheckpointEnv) (w : Write) (step : Int) (createdAt : Time)
    (row : CheckpointRow) : CheckpointCall → Prop where
  | saving : ResaveAt env w step createdAt row (.saving w step createdAt)
  | existing (hrow : newCheckpoint env w step createdAt ≠ none) :
    ResaveAt env w step createdAt row (.existing w step)
  | ended {r : CheckpointResult} (h : ResaveEnds env w step createdAt row r) :
    ResaveAt env w step createdAt row (.ended r)

structure Resaving (env : CheckpointEnv) (n : Nat) (w : Write) (step : Int) (createdAt : Time)
    (row : CheckpointRow) (s : CheckpointState) : Prop where
  row_in : row ∈ s.table.rows
  commits : ∀ c ∈ s.log, c.call ≠ n
  call : ResaveAt env w step createdAt row (s.calls n)

theorem resaveAt_of_saving {s t : CheckpointState} {a : CheckpointAct}
    (hin : row ∈ s.table.rows) (hcall : s.calls a.call = .saving w step createdAt)
    (hkey : row.key = w.key step) (hmove : CheckpointMove env s t a) :
    ResaveAt env w step createdAt row (t.calls a.call) := by
  cases hmove with
  | fail e hwhy ht =>
    cases hwhy with
    | refused hn => rw [hcall] at hn; cases hn
    | interrupted hopen =>
      rw [ht, CheckpointState.fail, CheckpointState.finish_calls_self]
      exact .ended .interrupted
    | appending hn =>
      rw [hcall] at hn
      rcases hn with hn | hn | ⟨_, hn⟩ <;> cases hn
    | column hn hrow =>
      rw [hcall] at hn
      cases hn
      rw [ht, CheckpointState.fail, CheckpointState.finish_calls_self]
      exact .ended (.column hrow)
    | missing hn _ => rw [hcall] at hn; cases hn
    | conflict hn _ _ => rw [hcall] at hn; cases hn
  | beginSave ctx cp w' ha hn hok ht => rw [hcall] at hn; cases hn
  | beginAppend w' hn hsound ht => rw [hcall] at hn; cases hn
  | lock w' hn hfree ht => rw [hcall] at hn; cases hn
  | readStep w' hn ht => rw [hcall] at hn; cases hn
  | insert w' row' step' appends hn hrow hnew ht =>
    rw [hcall] at hn
    rcases hn with ⟨_, hn, -⟩ | ⟨hn, -⟩
    · cases hn
      -- the row is there, so the INSERT inserts nothing
      rw [hrow.key, ← hkey] at hnew
      exact absurd (Table.key_mem_keys hin) hnew
    · cases hn
  | found w' step' createdAt' hn hrow ht =>
    rw [hcall] at hn
    cases hn
    rw [ht, CheckpointState.setCall_calls_self]
    exact .existing hrow
  | same w' step' row' hn hget hsame ht => rw [hcall] at hn; cases hn
  | commit w' row' appends r table' hn hins ht => rw [hcall] at hn; cases hn

theorem resaveAt_of_existing {s t : CheckpointState} {a : CheckpointAct}
    (hcall : s.calls a.call = .existing w step) (hrow : newCheckpoint env w step createdAt ≠ none)
    (hget : s.table.get (w.key step) = some row) (hmove : CheckpointMove env s t a) :
    ResaveAt env w step createdAt row (t.calls a.call) := by
  cases hmove with
  | fail e hwhy ht =>
    cases hwhy with
    | refused hn => rw [hcall] at hn; cases hn
    | interrupted hopen =>
      rw [ht, CheckpointState.fail, CheckpointState.finish_calls_self]
      exact .ended .interrupted
    | appending hn =>
      rw [hcall] at hn
      rcases hn with hn | hn | ⟨_, hn⟩ <;> cases hn
    | column hn _ => rw [hcall] at hn; cases hn
    | missing hn hnone =>
      rw [hcall] at hn
      cases hn
      rw [hget] at hnone
      cases hnone
    | conflict hn hget' hdiffers =>
      rw [hcall] at hn
      cases hn
      rw [hget] at hget'
      cases hget'
      have hends : ResaveEnds env w step createdAt row (resaved w step row) := .compared hrow
      rw [resaved, if_pos hdiffers] at hends
      rw [ht, CheckpointState.fail, CheckpointState.finish_calls_self]
      exact .ended hends
  | beginSave ctx cp w' ha hn hok ht => rw [hcall] at hn; cases hn
  | beginAppend w' hn hsound ht => rw [hcall] at hn; cases hn
  | lock w' hn hfree ht => rw [hcall] at hn; cases hn
  | readStep w' hn ht => rw [hcall] at hn; cases hn
  | insert w' row' step' appends hn _ hnew ht =>
    rw [hcall] at hn
    rcases hn with ⟨_, hn, -⟩ | ⟨hn, -⟩ <;> cases hn
  | found w' step' createdAt' hn _ ht => rw [hcall] at hn; cases hn
  | same w' step' row' hn hget' hsame ht =>
    rw [hcall] at hn
    cases hn
    rw [hget] at hget'
    cases hget'
    have hends : ResaveEnds env w step createdAt row (resaved w step row) := .compared hrow
    rw [resaved, if_neg hsame] at hends
    rw [ht, CheckpointState.finish_calls_self]
    exact .ended hends
  | commit w' row' appends r table' hn hins ht => rw [hcall] at hn; cases hn

theorem Resaving.move {s t : CheckpointState} {a : CheckpointAct}
    (h : Resaving env n w step createdAt row s) (hkey : row.key = w.key step)
    (hmove : CheckpointMove env s t a) : Resaving env n w step createdAt row t := by
  have hget : s.table.get (w.key step) = some row := by
    rw [← hkey]
    exact Table.get_self h.row_in
  have hnot : ∀ w' row' appends, s.calls n ≠ .inserted w' row' appends := by
    intro w' row' appends hn
    have hcall := h.call
    rw [hn] at hcall
    cases hcall
  refine ⟨hmove.rows_keep h.row_in, ?_, ?_⟩
  · rcases hmove.commits with ⟨-, hlog⟩ | ⟨w', row', appends, r, hcall, -, -, -, hlog⟩
    · rw [hlog]
      exact h.commits
    · rw [hlog]
      intro c hc
      rcases List.mem_append.mp hc with hc | hc
      · exact h.commits c hc
      · rw [List.mem_singleton.mp hc]
        intro hn
        exact hnot w' row' appends (hn ▸ hcall)
  · by_cases hn : n = a.call
    case neg =>
      rw [hmove.calls_ne hn]
      exact h.call
    case pos =>
      subst hn
      have hat := h.call
      generalize hcall : s.calls a.call = call at hat
      cases hat with
      | saving => exact resaveAt_of_saving h.row_in hcall hkey hmove
      | existing hrow => exact resaveAt_of_existing hcall hrow hget hmove
      | ended hends =>
        rw [hmove.ended hcall]
        exact .ended hends

theorem Resaving.reaches {s t : CheckpointState} {acts : List CheckpointAct}
    (h : Resaving env n w step createdAt row s) (hkey : row.key = w.key step)
    (hrun : Reaches (checkpointStep env) s acts t) : Resaving env n w step createdAt row t :=
  hrun.invariant (fun _ _ _ hm hstep => hm.move hkey (checkpointStep_move hstep)) h

/-- The three steps of the save on their own, nothing else in between. -/
theorem resave_alone {s : CheckpointState} {ctx : RequestContext} {cp : Checkpoint} (now : Time)
    (hn : s.calls n = .unused) (hrow : row ∈ s.table.rows) (hkey : row.key = w.key cp.step)
    (hok : checkSave env ctx cp = .ok w) (hfits : newCheckpoint env w cp.step cp.createdAt ≠ none) :
    ∃ t, Reaches (checkpointStep env) s [.save n ctx cp, .insert n now, .compare n] t ∧
      t.table = s.table ∧ t.log = s.log ∧ t.calls n = .ended (resaved w cp.step row) := by
  have hbegin : checkpointStep env s (.save n ctx cp) =
      some (s.setCall n (.saving w cp.step cp.createdAt)) := by
    simp only [checkpointStep, hn, hok]
  have hinsert : checkpointStep env (s.setCall n (.saving w cp.step cp.createdAt)) (.insert n now) =
      some ((s.setCall n (.saving w cp.step cp.createdAt)).setCall n (.existing w cp.step)) := by
    obtain ⟨new, hnew⟩ := Option.ne_none_iff_exists'.mp hfits
    have hold : new.key ∈ s.table.keys := by
      rw [(newCheckpoint_eq_some hnew).key, ← hkey]
      exact Table.key_mem_keys hrow
    simp only [checkpointStep, CheckpointState.setCall_calls_self, hnew]
    exact if_pos hold
  have hcompare : ∀ m : CheckpointState, m.table = s.table → m.calls n = .existing w cp.step →
      checkpointStep env m (.compare n) = some (m.finish n (resaved w cp.step row)) := by
    intro m htable hcall
    have hget : m.table.get (w.key cp.step) = some row := by
      rw [htable, ← hkey]
      exact Table.get_self hrow
    simp only [checkpointStep, hcall, hget, resaved]
    by_cases hdiffers : differs w row
    · simp only [if_pos hdiffers, CheckpointState.fail]
    · simp only [if_neg hdiffers]
  have hlast :=
    hcompare ((s.setCall n (.saving w cp.step cp.createdAt)).setCall n (.existing w cp.step)) rfl
      (CheckpointState.setCall_calls_self _ n _)
  exact ⟨_, reaches_cons.mpr ⟨_, hbegin, reaches_cons.mpr ⟨_, hinsert, reaches_single.mpr hlast⟩⟩,
    rfl, rfl, CheckpointState.finish_calls_self _ n _⟩

end

/-! ## The log -/

/-- What `save` brings is what the commit wrote at the step. -/
def SameAs (ctx : RequestContext) (cp : Checkpoint) (c : Committed) : Prop :=
  canonical c.write.state = canonical cp.state ∧ c.row.awaiting = cp.awaiting ∧
    c.row.runId = ctx.runId

theorem differs_iff {ctx : RequestContext} {cp : Checkpoint} {w : Write} {c : Committed}
    (henv : env.Faithful) (hok : checkSave env ctx cp = .ok w) (hsound : c.write.Sound env)
    {step : Int} (hrow : RowOf env c.write step c.row) : differs w c.row ↔ ¬ SameAs ctx cp c := by
  rw [checkSave_eq_ok hok, differs, SameAs, hrow.digest, hsound, henv.sha256.ne_iff]
  tauto

/-- The checks of `save` pass, and the columns can hold the row. -/
def Accepts (env : CheckpointEnv) (ctx : RequestContext) (cp : Checkpoint) : Prop :=
  ∃ w, checkSave env ctx cp = .ok w ∧ newCheckpoint env w cp.step cp.createdAt ≠ none

/-- How a save of a step that the commit `c` wrote can end. -/
inductive ResaveResult (env : CheckpointEnv) (ctx : RequestContext) (cp : Checkpoint)
    (c : Committed) : CheckpointResult → Prop where
  | same (haccepts : Accepts env ctx cp) (hsame : SameAs ctx cp c) :
    ResaveResult env ctx cp c .saved
  | conflict (haccepts : Accepts env ctx cp) (hdiffers : ¬ SameAs ctx cp c) :
    ResaveResult env ctx cp c (.failed (.conflict cp.threadId cp.step))
  | refused {e : CheckpointError} (hrefuse : checkSave env ctx cp = .error e) :
    ResaveResult env ctx cp c (.failed e)
  | column {w : Write} (hok : checkSave env ctx cp = .ok w)
    (hrow : newCheckpoint env w cp.step cp.createdAt = none) :
    ResaveResult env ctx cp c (.failed .database)
  | interrupted : ResaveResult env ctx cp c (.failed .interrupted)

/-- What the log keeps, in a state some calls have led to. -/
structure LogKept (env : CheckpointEnv) (acts : List CheckpointAct) (s : CheckpointState) :
    Prop where
  immutable : ∀ more t, Reaches (checkpointStep env) s more t →
    ∀ row ∈ s.table.rows, t.table.get row.key = some row
  consecutive : ∀ tenantId threadId, (∀ a ∈ acts, ¬ a.SavesOn tenantId threadId) →
    let appended := (appendsOn s.log tenantId threadId).map Committed.row
    appended.map CheckpointRow.step = (List.range appended.length).map Int.ofNat ∧
      threadRows s.table tenantId threadId = appended
  latest : ∀ ctx threadId cp, load s.table ctx threadId none = .ok (some cp) →
    ∃ row ∈ threadRows s.table ctx.tenant.id threadId, checkpoint row = cp ∧
      ∀ other ∈ threadRows s.table ctx.tenant.id threadId, other.step ≤ row.step
  no_latest : ∀ ctx threadId, load s.table ctx threadId none = .ok none →
    threadRows s.table ctx.tenant.id threadId = []
  resave_alone : ∀ n ctx cp c now, s.calls n = .unused → c ∈ s.log →
    c.row.key = (ctx.tenant.id, cp.threadId, cp.step) → Accepts env ctx cp →
    ∃ t, Reaches (checkpointStep env) s [.save n ctx cp, .insert n now, .compare n] t ∧
    t.table = s.table ∧ (t.calls n = .ended .saved ↔ SameAs ctx cp c) ∧
    (t.calls n = .ended (.failed (.conflict cp.threadId cp.step)) ↔ ¬ SameAs ctx cp c)
  resave : ∀ n ctx cp c, s.calls n = .unused → c ∈ s.log →
    c.row.key = (ctx.tenant.id, cp.threadId, cp.step) →
    ∀ more t r, Reaches (checkpointStep env) s (.save n ctx cp :: more) t → t.calls n = .ended r →
    ResaveResult env ctx cp c r ∧ ∀ d ∈ t.log, d.call ≠ n
  loaded : ∀ c ∈ s.log, ∀ ctx, c.row.tenantId = ctx.tenant.id →
    ∃ cp, load s.table ctx c.row.threadId (some c.row.step) = .ok (some cp) ∧
      Json.equalJson cp.state c.write.state = true
  from_commit : ∀ ctx threadId step cp, load s.table ctx threadId step = .ok (some cp) →
    ∃ c ∈ s.log, c.row.On ctx.tenant.id threadId ∧ checkpoint c.row = cp ∧
      Json.equalJson cp.state c.write.state = true

section
variable {acts : List CheckpointAct} {s : CheckpointState}

theorem row_of_committed {c : Committed} (hinv : CheckpointInv env s) (hc : c ∈ s.log) :
    c.row ∈ s.table.rows := by
  rw [hinv.rows]
  exact List.mem_map_of_mem hc

theorem consecutive_of_appends (hrun : Reaches (checkpointStep env) .initial acts s)
    {tenantId : Uuid} {threadId : String} (hsaves : ∀ a ∈ acts, ¬ a.SavesOn tenantId threadId) :
    let appended := (appendsOn s.log tenantId threadId).map Committed.row
    appended.map CheckpointRow.step = (List.range appended.length).map Int.ofNat ∧
      threadRows s.table tenantId threadId = appended := by
  have hinv := (CheckpointInv.initial env).reaches hrun
  have honly :=
    appendedOnly_reaches (CheckpointInv.initial env) (.initial tenantId threadId) hrun hsaves
  have hrows := honly.threadRows_eq hinv
  have hsteps := honly.consecutive
  rw [Consecutive, hrows] at hsteps
  exact ⟨hsteps, hrows⟩

theorem ended_commits_nothing {n : Nat} {r : CheckpointResult} (hn : s.calls n = .ended r)
    (hcommits : ∀ d ∈ s.log, d.call ≠ n) {t : CheckpointState}
    (hrun : Reaches (checkpointStep env) s acts t) :
    t.calls n = .ended r ∧ ∀ d ∈ t.log, d.call ≠ n := by
  refine hrun.invariant (P := fun m => m.calls n = .ended r ∧ ∀ d ∈ m.log, d.call ≠ n) ?_
    ⟨hn, hcommits⟩
  rintro m a m' ⟨hcall, hnone⟩ hstep
  have hmove := checkpointStep_move hstep
  refine ⟨hmove.ended hcall, ?_⟩
  rcases hmove.commits with ⟨-, hlog⟩ | ⟨w, row, appends, r', hinserted, -, -, -, hlog⟩
  · rw [hlog]
    exact hnone
  · rw [hlog]
    intro d hd
    rcases List.mem_append.mp hd with hd | hd
    · exact hnone d hd
    · rw [List.mem_singleton.mp hd]
      rintro rfl
      rw [hcall] at hinserted
      cases hinserted

/-- Every way a save of an existing step can go. -/
theorem resave_result (henv : env.Faithful) (hinv : CheckpointInv env s) {n : Nat}
    {ctx : RequestContext} {cp : Checkpoint} {c : Committed} (hn : s.calls n = .unused)
    (hc : c ∈ s.log) (hkey : c.row.key = (ctx.tenant.id, cp.threadId, cp.step))
    {more : List CheckpointAct} {t : CheckpointState} {r : CheckpointResult}
    (hrun : Reaches (checkpointStep env) s (.save n ctx cp :: more) t)
    (hended : t.calls n = .ended r) : ResaveResult env ctx cp c r ∧ ∀ d ∈ t.log, d.call ≠ n := by
  have hcommits : ∀ d ∈ s.log, d.call ≠ n := by
    rintro d hd rfl
    obtain ⟨r, hr⟩ := hinv.finished d hd
    rw [hn] at hr
    cases hr
  obtain ⟨m, hm, hmore⟩ := reaches_cons.mp hrun
  simp only [checkpointStep, hn] at hm
  cases hok : checkSave env ctx cp with
  | error e =>
    rw [hok] at hm
    cases hm
    obtain ⟨hover, hnone⟩ :=
      ended_commits_nothing (s.finish_calls_self n (.failed e)) hcommits hmore
    rw [hended] at hover
    cases hover
    exact ⟨.refused hok, hnone⟩
  | ok w =>
    rw [hok] at hm
    cases hm
    have hw := checkSave_eq_ok hok
    have hwkey : c.row.key = w.key cp.step := by rw [hkey, hw, Write.key]
    have hin := row_of_committed hinv hc
    have hstart : Resaving env n w cp.step cp.createdAt c.row
        (s.setCall n (.saving w cp.step cp.createdAt)) :=
      ⟨hin, hcommits, by rw [CheckpointState.setCall_calls_self]; exact .saving⟩
    have hend := hstart.reaches hwkey hmore
    have hat := hend.call
    rw [hended] at hat
    refine ⟨?_, hend.commits⟩
    obtain ⟨hsound, step, hrow⟩ := hinv.written c hc
    have hiff := differs_iff henv hok hsound hrow
    cases hat with
    | ended hends =>
      cases hends with
      | interrupted => exact .interrupted
      | column hnone => exact .column hok hnone
      | compared hfits =>
        by_cases hdiffers : differs w c.row
        · rw [resaved, if_pos hdiffers, hw]
          exact .conflict ⟨w, hok, hfits⟩ (hiff.mp hdiffers)
        · rw [resaved, if_neg hdiffers]
          exact .same ⟨w, hok, hfits⟩ (not_not.mp (fun hnot => hdiffers (hiff.mpr hnot)))

theorem resave_alone_result (henv : env.Faithful) (hinv : CheckpointInv env s) {n : Nat}
    {ctx : RequestContext} {cp : Checkpoint} {c : Committed} (now : Time) (hn : s.calls n = .unused)
    (hc : c ∈ s.log) (hkey : c.row.key = (ctx.tenant.id, cp.threadId, cp.step))
    (haccepts : Accepts env ctx cp) :
    ∃ t, Reaches (checkpointStep env) s [.save n ctx cp, .insert n now, .compare n] t ∧
      t.table = s.table ∧ (t.calls n = .ended .saved ↔ SameAs ctx cp c) ∧
      (t.calls n = .ended (.failed (.conflict cp.threadId cp.step)) ↔ ¬ SameAs ctx cp c) := by
  obtain ⟨w, hok, hfits⟩ := haccepts
  have hw := checkSave_eq_ok hok
  have hwkey : c.row.key = w.key cp.step := by rw [hkey, hw, Write.key]
  obtain ⟨t, hrun, htable, -, hended⟩ :=
    resave_alone now hn (row_of_committed hinv hc) hwkey hok hfits
  obtain ⟨hsound, step, hrow⟩ := hinv.written c hc
  have hiff := differs_iff henv hok hsound hrow
  have hthread : w.threadId = cp.threadId := by rw [hw]
  refine ⟨t, hrun, htable, ?_⟩
  rw [hended, resaved, ← hiff, hthread]
  by_cases hdiffers : differs w c.row
  · rw [if_pos hdiffers]
    refine ⟨⟨nofun, fun hsame => absurd hsame (hiff.mp hdiffers)⟩, ?_⟩
    simp [hdiffers]
  · rw [if_neg hdiffers]
    refine ⟨?_, ⟨nofun, fun h => absurd h hdiffers⟩⟩
    simp [not_not.mp (fun hnot => hdiffers (hiff.mpr hnot))]

theorem committed_equal (henv : env.Faithful) (hinv : CheckpointInv env s) {c : Committed}
    (hc : c ∈ s.log) : Json.equalJson (checkpoint c.row).state c.write.state = true := by
  obtain ⟨-, step, hrow⟩ := hinv.written c hc
  show Json.equalJson c.row.state c.write.state = true
  rw [hrow.state]
  exact Json.equalJson_mapNumbers henv.numeric c.write.state

/-- Every state that calls of `append` and `save` lead to keeps its log. -/
theorem checkpoint_log_kept (henv : env.Faithful)
    (hrun : Reaches (checkpointStep env) .initial acts s) : LogKept env acts s := by
  have hinv := (CheckpointInv.initial env).reaches hrun
  constructor
  case immutable =>
    intro more t hmore row hrow
    exact Table.get_self (rows_keep hmore hrow)
  case consecutive =>
    intro tenantId threadId hsaves
    exact consecutive_of_appends hrun hsaves
  case latest =>
    intro ctx threadId cp hload
    exact load_latest hload
  case no_latest =>
    intro ctx threadId hload
    exact load_nothing hload
  case resave_alone =>
    intro n ctx cp c now hn hc hkey haccepts
    exact resave_alone_result henv hinv now hn hc hkey haccepts
  case resave =>
    intro n ctx cp c hn hc hkey more t r hmore hended
    exact resave_result henv hinv hn hc hkey hmore hended
  case loaded =>
    intro c hc ctx htenant
    obtain ⟨-, step, hrow⟩ := hinv.written c hc
    exact ⟨checkpoint c.row, load_step (row_of_committed hinv hc) htenant hrow.thread,
      committed_equal henv hinv hc⟩
  case from_commit =>
    intro ctx threadId step cp hload
    obtain ⟨row, hrow, rfl⟩ := load_mem hload
    obtain ⟨hmem, hon⟩ := mem_threadRows.mp hrow
    rw [hinv.rows] at hmem
    obtain ⟨c, hc, rfl⟩ := List.mem_map.mp hmem
    exact ⟨c, hc, hon, rfl, committed_equal henv hinv hc⟩

end

/-! Two appends on a thread, in texts that stand for their hashes. -/

def plainCheckpoints : CheckpointEnv where
  settings := .default
  sha256 := fun text => text
  uuidText := Nat.repr
  hashtextextended := fun text => text.length
  numeric := fun n => n

theorem plainCheckpoints_faithful : plainCheckpoints.Faithful where
  sha256 := fun _ _ h => h
  numeric := fun _ => rfl

def agentContext : RequestContext := ⟨⟨7, ⟨1, "acme"⟩, "alice", [.owner]⟩, 5, some 40, none, none⟩

def appendPhase (n : Nat) (phase : String) (awaiting : Option String) (now : Time) :
    List CheckpointAct :=
  [.append n agentContext "run:40" (.obj [("phase", .str phase)]) awaiting, .lock n, .readStep n,
    .insert n now, .commit n true]

def twoAppends : List CheckpointAct :=
  appendPhase 0 "started" none 10 ++ appendPhase 1 "paused" (some "tool_approval") 20

theorem checkpoint_log_kept_twoAppends :
    ∃ s, Reaches (checkpointStep plainCheckpoints) .initial twoAppends s ∧ s.log.length = 2 ∧
      LogKept plainCheckpoints twoAppends s := by
  have hfacts : (twoAppends.foldlM (checkpointStep plainCheckpoints) .initial).map
      (fun s => s.log.length) =
      some 2 := by
    decide +kernel
  obtain ⟨s, hrun, hlength⟩ := Option.map_eq_some_iff.mp hfacts
  exact ⟨s, hrun, hlength, checkpoint_log_kept plainCheckpoints_faithful hrun⟩

/-- The save repeats the step but not what `save` takes for `awaiting`. -/
def emptyAwaiting : Checkpoint := ⟨"run:40", 1, 0, .obj [("phase", .str "started")], 30, some ""⟩

theorem resave_without_conflict :
    ∃ s t, Reaches (checkpointStep plainCheckpoints) .initial twoAppends s ∧
      s.table.get (agentContext.tenant.id, emptyAwaiting.threadId, emptyAwaiting.step) ≠ none ∧
      checkpointStep plainCheckpoints s (.save 2 agentContext emptyAwaiting) = some t ∧
      t.calls 2 =
      .ended (.failed (.value "checkpoint awaiting must contain 1-128 characters")) := by
  have hfacts : (twoAppends.foldlM (checkpointStep plainCheckpoints) .initial).map (fun s =>
      ((s.table.get (agentContext.tenant.id, emptyAwaiting.threadId, emptyAwaiting.step)).isSome,
        (s.calls 2).ctorIdx)) = some (true, CheckpointCall.unused.ctorIdx) := by
    decide +kernel
  obtain ⟨s, hrun, hs⟩ := Option.map_eq_some_iff.mp hfacts
  simp only [Prod.mk.injEq] at hs
  have hunused : s.calls 2 = .unused := by
    cases hcall : s.calls 2 <;> simp [hcall, CheckpointCall.ctorIdx] at hs ⊢
  have hrefuse : checkSave plainCheckpoints agentContext emptyAwaiting =
      .error (.value "checkpoint awaiting must contain 1-128 characters") := by decide +kernel
  refine ⟨s, _, hrun, Option.isSome_iff_ne_none.mp hs.1, ?_,
    CheckpointState.finish_calls_self s 2 _⟩
  simp only [checkpointStep, hunused, hrefuse]
  rfl

end AgenticPlatform.Agent
