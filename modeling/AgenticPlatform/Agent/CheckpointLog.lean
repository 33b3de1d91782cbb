import AgenticPlatform.Agent.CheckpointSystem
import AgenticPlatform.Foundation.Gate

/-!
# What the checkpoint log keeps

A row never changes once it is committed. On a thread that no save targets, the lock
makes the appends take the steps one after another. A save of an existing step compares
and writes nothing.
-/
namespace AgenticPlatform.Agent
open AgenticPlatform.Foundation AgenticPlatform.Identity AgenticPlatform.Db

variable {env : CheckpointEnv}

/-! ## Rows -/

theorem normalizedState_eq (state : Json) : normalizedState state = state.sortKeys := by
  rw [normalizedState, canonical, Json.loads_dumps, Option.getD_some]

/-- The row holds what the call writes at a step. -/
structure RowOf (env : CheckpointEnv) (w : Write) (step : Int) (row : CheckpointRow) : Prop where
  key : row.key = w.key step
  runId : row.runId = w.ctx.runId
  awaiting : row.awaiting = w.awaiting
  digest : row.stateSha256 = w.digest
  state : row.state = w.state.sortKeys.mapNumbers env.numeric
  thread : textFits row.threadId = true

theorem newCheckpoint_eq_some {w : Write} {step : Int} {createdAt : Time} {row : CheckpointRow}
    (h : newCheckpoint env w step createdAt = some row) : RowOf env w step row := by
  unfold newCheckpoint at h
  split at h
  case isFalse => cases h
  case isTrue hfits =>
    obtain ⟨stored, hstored, rfl⟩ := Option.map_eq_some_iff.mp h
    obtain ⟨v, hv, rfl⟩ := Option.map_eq_some_iff.mp hstored
    obtain ⟨hload, -⟩ := Option.filter_eq_some_iff.mp hv
    rw [Json.asciiCodec.loads_dumps, normalizedState_eq] at hload
    cases hload
    exact ⟨rfl, rfl, rfl, rfl, rfl, hfits.1⟩

def Write.Sound (env : CheckpointEnv) (w : Write) : Prop :=
  w.digest = env.sha256 (canonical w.state)

theorem encodeState_eq_ok {state : Json} {encoded : String}
    (h : encodeState env state = .ok encoded) : encoded = canonical state := by
  unfold encodeState at h
  split at h
  · cases h
  · dsimp only at h
    split at h
    · cases h
    · cases h
      rfl

theorem checkSave_eq_ok {ctx : RequestContext} {cp : Checkpoint} {w : Write}
    (h : checkSave env ctx cp = .ok w) :
    w = ⟨ctx, cp.threadId, cp.state, cp.awaiting, env.sha256 (canonical cp.state)⟩ := by
  unfold checkSave at h
  dsimp only at h
  split at h
  · cases h
  · obtain ⟨_, -, h⟩ := bind_eq_ok h
    split at h
    · cases h
    · obtain ⟨encoded, hencoded, h⟩ := bind_eq_ok h
      cases h
      rw [encodeState_eq_ok hencoded]

theorem checkAppend_eq_ok {ctx : RequestContext} {threadId : String} {state : Json}
    {awaiting : Option String} {w : Write}
    (h : checkAppend env ctx threadId state awaiting = .ok w) :
    w = ⟨ctx, threadId, state, awaiting, env.sha256 (canonical state)⟩ := by
  obtain ⟨_, -, h⟩ := bind_eq_ok h
  obtain ⟨encoded, hencoded, h⟩ := bind_eq_ok h
  cases h
  rw [encodeState_eq_ok hencoded]

/-! ## What a step can do -/

def CheckpointAct.call : CheckpointAct → Nat
  | .save n _ _ | .append n _ _ _ _ | .lock n | .readStep n | .insert n _ | .compare n |
    .commit n _ | .abort n => n

/-- Why a call raises, by where it stands. -/
inductive RaisedAt (env : CheckpointEnv) (s : CheckpointState) (n : Nat) :
    CheckpointError → Prop where
  | refused {e : CheckpointError} (hn : s.calls n = .unused) : RaisedAt env s n e
  | interrupted (hn : ∀ r, s.calls n ≠ .ended r) : RaisedAt env s n .interrupted
  | appending {w : Write}
    (hn : s.calls n = .appending w ∨ s.calls n = .locked w ∨ ∃ step, s.calls n = .stepRead w step) :
    RaisedAt env s n .database
  | column {w : Write} {step : Int} {createdAt : Time} (hn : s.calls n = .saving w step createdAt)
    (hrow : newCheckpoint env w step createdAt = none) : RaisedAt env s n .database
  | missing {w : Write} {step : Int} (hn : s.calls n = .existing w step)
    (hget : s.table.get (w.key step) = none) : RaisedAt env s n .noResultFound
  | conflict {w : Write} {step : Int} {row : CheckpointRow} (hn : s.calls n = .existing w step)
    (hget : s.table.get (w.key step) = some row) (hdiffers : differs w row) :
    RaisedAt env s n (.conflict w.threadId step)

/-- Everything a step can do. -/
inductive CheckpointMove (env : CheckpointEnv) (s t : CheckpointState) (a : CheckpointAct) :
    Prop where
  | fail (e : CheckpointError) (hwhy : RaisedAt env s a.call e) (ht : t = s.fail a.call e)
  | beginSave (ctx : RequestContext) (cp : Checkpoint) (w : Write) (ha : a = .save a.call ctx cp)
    (hn : s.calls a.call = .unused) (hok : checkSave env ctx cp = .ok w)
    (ht : t = s.setCall a.call (.saving w cp.step cp.createdAt))
  | beginAppend (w : Write) (hn : s.calls a.call = .unused) (hsound : w.Sound env)
    (ht : t = s.setCall a.call (.appending w))
  | lock (w : Write) (hn : s.calls a.call = .appending w) (hfree : s.locks (w.lock env) = none)
    (ht : t = { s.setCall a.call (.locked w) with
      locks := Function.update s.locks (w.lock env) (some a.call) })
  | readStep (w : Write) (hn : s.calls a.call = .locked w)
    (ht : t = s.setCall a.call (.stepRead w (nextStep s.table w.ctx.tenant.id w.threadId)))
  | insert (w : Write) (row : CheckpointRow) (step : Int) (appends : Bool)
    (hn : (∃ createdAt, s.calls a.call = .saving w step createdAt ∧ appends = false) ∨
      s.calls a.call = .stepRead w step ∧ appends = true)
    (hrow : RowOf env w step row) (hnew : row.key ∉ s.table.keys)
    (ht : t = { s.setCall a.call (.inserted w row appends) with
      pending := Function.update s.pending row.key (some a.call) })
  | found (w : Write) (step : Int) (createdAt : Time)
    (hn : s.calls a.call = .saving w step createdAt)
    (hrow : newCheckpoint env w step createdAt ≠ none)
    (ht : t = s.setCall a.call (.existing w step))
  | same (w : Write) (step : Int) (row : CheckpointRow) (hn : s.calls a.call = .existing w step)
    (hget : s.table.get (w.key step) = some row) (hsame : ¬ differs w row)
    (ht : t = s.finish a.call .saved)
  | commit (w : Write) (row : CheckpointRow) (appends : Bool) (r : CheckpointResult)
    (table' : CheckpointTable) (hn : s.calls a.call = .inserted w row appends)
    (hins : s.table.tryInsert row = some table')
    (ht : t =
      { s.finish a.call r with table := table', log := s.log ++ [⟨a.call, w, row, appends⟩] })

theorem insertCheckpoint_move {s t : CheckpointState} {a : CheckpointAct} {w : Write}
    {row : CheckpointRow} {step : Int} {appends : Bool}
    (hn : (∃ createdAt, s.calls a.call = .saving w step createdAt ∧ appends = false) ∨
      s.calls a.call = .stepRead w step ∧ appends = true)
    (hrow : RowOf env w step row) (hnew : row.key ∉ s.table.keys)
    (h : insertCheckpoint s a.call w row appends = some t) : CheckpointMove env s t a := by
  unfold insertCheckpoint at h
  split at h
  · cases h
  · cases h
    exact .insert w row step appends hn hrow hnew rfl

theorem checkpointStep_move {s t : CheckpointState} {a : CheckpointAct}
    (h : checkpointStep env s a = some t) : CheckpointMove env s t a := by
  cases a with
  | save n ctx cp =>
    simp only [checkpointStep] at h
    split at h
    case h_1 hn =>
      split at h
      case h_1 w hok =>
        cases h
        exact .beginSave ctx cp w rfl hn hok rfl
      case h_2 e _ =>
        cases h
        exact .fail e (.refused hn) rfl
    case h_2 => cases h
  | append n ctx threadId state awaiting =>
    simp only [checkpointStep] at h
    split at h
    case h_1 hn =>
      split at h
      case h_1 w hok =>
        cases h
        have hw := checkAppend_eq_ok hok
        exact .beginAppend w hn (by rw [hw, Write.Sound]) rfl
      case h_2 e _ =>
        cases h
        exact .fail e (.refused hn) rfl
    case h_2 => cases h
  | lock n =>
    simp only [checkpointStep] at h
    split at h
    case h_1 w hn =>
      split at h
      · cases h
        exact .fail .database (.appending (.inl hn)) rfl
      · split at h
        · cases h
        · rename_i hfree
          cases h
          exact .lock w hn (not_not.mp hfree) rfl
    case h_2 => cases h
  | readStep n =>
    simp only [checkpointStep] at h
    split at h
    case h_1 w hn =>
      split at h
      · cases h
        exact .readStep w hn rfl
      · cases h
        exact .fail .database (.appending (.inr (.inl hn))) rfl
    case h_2 => cases h
  | insert n now =>
    simp only [checkpointStep] at h
    split at h
    case h_1 w step createdAt hn =>
      split at h
      case h_1 hnone =>
        cases h
        exact .fail .database (.column hn hnone) rfl
      case h_2 row hrow =>
        split at h
        · cases h
          exact .found w step createdAt hn (by rw [hrow]; exact Option.some_ne_none row) rfl
        · exact insertCheckpoint_move (a := .insert n now) (.inl ⟨createdAt, hn, rfl⟩)
            (newCheckpoint_eq_some hrow) ‹_› h
    case h_2 w step hn =>
      split at h
      case h_1 =>
        cases h
        exact .fail .database (.appending (.inr (.inr ⟨step, hn⟩))) rfl
      case h_2 row hrow =>
        split at h
        · cases h
          exact .fail .database (.appending (.inr (.inr ⟨step, hn⟩))) rfl
        · exact insertCheckpoint_move (a := .insert n now) (.inr ⟨hn, rfl⟩)
            (newCheckpoint_eq_some hrow) ‹_› h
    case h_3 => cases h
  | compare n =>
    simp only [checkpointStep] at h
    split at h
    case h_1 w step hn =>
      split at h
      case h_1 hget =>
        cases h
        exact .fail .noResultFound (.missing hn hget) rfl
      case h_2 row hget =>
        split at h
        case isTrue hdiffers =>
          cases h
          exact .fail _ (.conflict hn hget hdiffers) rfl
        case isFalse hsame =>
          cases h
          exact .same w step row hn hget hsame rfl
    case h_2 => cases h
  | commit n heard =>
    simp only [checkpointStep] at h
    split at h
    case h_1 w row appends hn =>
      obtain ⟨table', hins, rfl⟩ := Option.map_eq_some_iff.mp h
      exact .commit w row appends _ table' hn hins rfl
    case h_2 => cases h
  | abort n =>
    simp only [checkpointStep] at h
    split at h
    · cases h
    · cases h
    · cases h
      exact .fail .interrupted (.interrupted (by assumption)) rfl

/-! ## Frames -/

theorem CheckpointState.setCall_calls_ne {s : CheckpointState} {n m : Nat} {c : CheckpointCall}
    (h : m ≠ n) : (s.setCall n c).calls m = s.calls m := Function.update_of_ne h _ _

@[simp] theorem CheckpointState.setCall_calls_self (s : CheckpointState) (n : Nat)
    (c : CheckpointCall) : (s.setCall n c).calls n = c := by
  simp [CheckpointState.setCall]

theorem CheckpointState.finish_calls_ne {s : CheckpointState} {n m : Nat} {r : CheckpointResult}
    (h : m ≠ n) : (s.finish n r).calls m = s.calls m := Function.update_of_ne h _ _

@[simp] theorem CheckpointState.finish_calls_self (s : CheckpointState) (n : Nat)
    (r : CheckpointResult) : (s.finish n r).calls n = .ended r := by
  simp [CheckpointState.finish]

theorem CheckpointMove.calls_ne {s t : CheckpointState} {a : CheckpointAct}
    (h : CheckpointMove env s t a) {m : Nat} (hm : m ≠ a.call) : t.calls m = s.calls m := by
  cases h with
  | fail e hwhy ht => rw [ht]; exact CheckpointState.finish_calls_ne hm
  | beginSave ctx cp w ha hn hok ht => rw [ht]; exact CheckpointState.setCall_calls_ne hm
  | beginAppend w hn hsound ht => rw [ht]; exact CheckpointState.setCall_calls_ne hm
  | lock w hn hfree ht => rw [ht]; exact CheckpointState.setCall_calls_ne hm
  | readStep w hn ht => rw [ht]; exact CheckpointState.setCall_calls_ne hm
  | insert w row step appends hn hrow hnew ht => rw [ht]; exact CheckpointState.setCall_calls_ne hm
  | found w step createdAt hn hrow ht => rw [ht]; exact CheckpointState.setCall_calls_ne hm
  | same w step row hn hget hsame ht => rw [ht]; exact CheckpointState.finish_calls_ne hm
  | commit w row appends r table' hn hins ht => rw [ht]; exact CheckpointState.finish_calls_ne hm

/-- A lock stays with its holder while another call moves. -/
theorem CheckpointMove.locks_keep {s t : CheckpointState} {a : CheckpointAct}
    (h : CheckpointMove env s t a) {l : Int} {m : Nat} (hm : m ≠ a.call) (hl : s.locks l = some m) :
    t.locks l = some m := by
  have hfinish : ∀ r, (s.finish a.call r).locks l = some m := by
    intro r
    show (s.locks l).filter (fun k => k ≠ a.call) = some m
    rw [hl, Option.filter_some, if_pos (by simpa using hm)]
  cases h with
  | fail e hwhy ht => rw [ht]; exact hfinish _
  | beginSave ctx cp w ha hn hok ht => rw [ht]; exact hl
  | beginAppend w hn hsound ht => rw [ht]; exact hl
  | lock w hn hfree ht =>
    have hne : l ≠ w.lock env := by
      intro he
      rw [he, hfree] at hl
      cases hl
    rw [ht]
    show Function.update s.locks (w.lock env) (some a.call) l = some m
    rw [Function.update_of_ne hne, hl]
  | readStep w hn ht => rw [ht]; exact hl
  | insert w row step appends hn hrow hnew ht => rw [ht]; exact hl
  | found w step createdAt hn hrow ht => rw [ht]; exact hl
  | same w step row hn hget hsame ht => rw [ht]; exact hfinish _
  | commit w row appends r table' hn hins ht => rw [ht]; exact hfinish r

/-- What a step commits: nothing, or the row of its call. -/
theorem CheckpointMove.commits {s t : CheckpointState} {a : CheckpointAct}
    (h : CheckpointMove env s t a) :
    (t.table = s.table ∧ t.log = s.log) ∨
      ∃ w row appends r, s.calls a.call = .inserted w row appends ∧ t.calls a.call = .ended r ∧
      row.key ∉ s.table.keys ∧ t.table.rows = s.table.rows ++ [row] ∧
      t.log = s.log ++ [⟨a.call, w, row, appends⟩] := by
  cases h with
  | fail e hwhy ht => rw [ht]; exact .inl ⟨rfl, rfl⟩
  | beginSave ctx cp w ha hn hok ht => rw [ht]; exact .inl ⟨rfl, rfl⟩
  | beginAppend w hn hsound ht => rw [ht]; exact .inl ⟨rfl, rfl⟩
  | lock w hn hfree ht => rw [ht]; exact .inl ⟨rfl, rfl⟩
  | readStep w hn ht => rw [ht]; exact .inl ⟨rfl, rfl⟩
  | insert w row step appends hn hrow hnew ht => rw [ht]; exact .inl ⟨rfl, rfl⟩
  | found w step createdAt hn hrow ht => rw [ht]; exact .inl ⟨rfl, rfl⟩
  | same w step row hn hget hsame ht => rw [ht]; exact .inl ⟨rfl, rfl⟩
  | commit w row appends r table' hn hins ht =>
    obtain ⟨hfresh, hrows⟩ := Table.tryInsert_eq_some hins
    refine .inr ⟨w, row, appends, r, hn, ?_, hfresh, ?_, ?_⟩
    · rw [ht]
      exact s.finish_calls_self a.call r
    · rw [ht]
      exact hrows
    · rw [ht]

/-! ## The invariant -/

/-- A call knows what it writes, and an append that has the lock holds it. -/
def CallKeeps (env : CheckpointEnv) (locks : Int → Option Nat) (n : Nat) : CheckpointCall → Prop
  | .unused | .ended _ => True
  | .saving w _ _ | .existing w _ | .appending w => w.Sound env
  | .locked w | .stepRead w _ => w.Sound env ∧ locks (w.lock env) = some n
  | .inserted w row appends =>
    w.Sound env ∧ (∃ step, RowOf env w step row) ∧ (appends = true → locks (w.lock env) = some n)

structure CheckpointInv (env : CheckpointEnv) (s : CheckpointState) : Prop where
  rows : s.table.rows = s.log.map Committed.row
  written : ∀ c ∈ s.log, c.write.Sound env ∧ ∃ step, RowOf env c.write step c.row
  finished : ∀ c ∈ s.log, ∃ r, s.calls c.call = .ended r
  calls : ∀ n, CallKeeps env s.locks n (s.calls n)

theorem CallKeeps.mono {locks locks' : Int → Option Nat} {n : Nat} {c : CheckpointCall}
    (h : CallKeeps env locks n c) (hlocks : ∀ l, locks l = some n → locks' l = some n) :
    CallKeeps env locks' n c := by
  cases c with
  | unused | ended _ => trivial
  | saving _ _ _ | existing _ _ | appending _ => exact h
  | locked w => exact ⟨h.1, hlocks _ h.2⟩
  | stepRead w step => exact ⟨h.1, hlocks _ h.2⟩
  | inserted w row appends => exact ⟨h.1, h.2.1, fun happends => hlocks _ (h.2.2 happends)⟩

theorem CheckpointInv.initial (env : CheckpointEnv) : CheckpointInv env .initial where
  rows := rfl
  written := fun _ h => absurd h List.not_mem_nil
  finished := fun _ h => absurd h List.not_mem_nil
  calls := fun _ => trivial

/-- The call that moves. -/
theorem CheckpointInv.own_call {s t : CheckpointState} {a : CheckpointAct}
    (hinv : CheckpointInv env s) (h : CheckpointMove env s t a) :
    CallKeeps env t.locks a.call (t.calls a.call) := by
  have hown := hinv.calls a.call
  cases h with
  | fail e hwhy ht =>
    rw [ht, CheckpointState.fail, CheckpointState.finish_calls_self]
    trivial
  | beginSave ctx cp w ha hn hok ht =>
    rw [ht, CheckpointState.setCall_calls_self, checkSave_eq_ok hok]
    exact rfl
  | beginAppend w hn hsound ht =>
    rw [ht, CheckpointState.setCall_calls_self]
    exact hsound
  | lock w hn hfree ht =>
    rw [hn] at hown
    have hcall : t.calls a.call = .locked w := by
      rw [ht]
      exact s.setCall_calls_self a.call (.locked w)
    have hlock : t.locks (w.lock env) = some a.call := by
      rw [ht]
      exact Function.update_self (w.lock env) (some a.call) s.locks
    rw [hcall]
    exact ⟨hown, hlock⟩
  | readStep w hn ht =>
    rw [hn] at hown
    rw [ht, CheckpointState.setCall_calls_self]
    exact hown
  | insert w row step appends hn hrow hnew ht =>
    have hcall : t.calls a.call = .inserted w row appends := by
      rw [ht]
      exact s.setCall_calls_self a.call (.inserted w row appends)
    have hlocks : t.locks = s.locks := by
      rw [ht]
      rfl
    rw [hcall, hlocks]
    rcases hn with ⟨createdAt, hn, rfl⟩ | ⟨hn, rfl⟩
    · rw [hn] at hown
      exact ⟨hown, ⟨step, hrow⟩, nofun⟩
    · rw [hn] at hown
      exact ⟨hown.1, ⟨step, hrow⟩, fun _ => hown.2⟩
  | found w step createdAt hn hrow ht =>
    rw [hn] at hown
    rw [ht, CheckpointState.setCall_calls_self]
    exact hown
  | same w step row hn hget hsame ht =>
    rw [ht, CheckpointState.finish_calls_self]
    trivial
  | commit w row appends r table' hn hins ht =>
    have hcall : t.calls a.call = .ended r := by
      rw [ht]
      exact s.finish_calls_self a.call r
    rw [hcall]
    trivial

/-- A call that is over does not move again. -/
theorem CheckpointMove.ended {s t : CheckpointState} {a : CheckpointAct}
    (h : CheckpointMove env s t a) {n : Nat} {r : CheckpointResult} (hn : s.calls n = .ended r) :
    t.calls n = .ended r := by
  by_cases hm : n = a.call
  case neg => rw [h.calls_ne hm, hn]
  case pos =>
    subst hm
    cases h with
    | fail e hwhy ht =>
      cases hwhy with
      | refused hcall => rw [hn] at hcall; cases hcall
      | interrupted hopen => exact absurd hn (hopen r)
      | appending hcall =>
        rw [hn] at hcall
        rcases hcall with hcall | hcall | ⟨_, hcall⟩ <;> cases hcall
      | column hcall _ => rw [hn] at hcall; cases hcall
      | missing hcall _ => rw [hn] at hcall; cases hcall
      | conflict hcall _ _ => rw [hn] at hcall; cases hcall
    | beginSave ctx cp w ha hcall hok ht => rw [hn] at hcall; cases hcall
    | beginAppend w hcall hsound ht => rw [hn] at hcall; cases hcall
    | lock w hcall hfree ht => rw [hn] at hcall; cases hcall
    | readStep w hcall ht => rw [hn] at hcall; cases hcall
    | insert w row step appends hcall hrow hnew ht =>
      rw [hn] at hcall
      rcases hcall with ⟨_, hcall, _⟩ | ⟨hcall, _⟩ <;> cases hcall
    | found w step createdAt hcall hrow ht => rw [hn] at hcall; cases hcall
    | same w step row hcall hget hsame ht => rw [hn] at hcall; cases hcall
    | commit w row appends r' table' hcall hins ht => rw [hn] at hcall; cases hcall

theorem CheckpointInv.step {s t : CheckpointState} {a : CheckpointAct} (hinv : CheckpointInv env s)
    (h : CheckpointMove env s t a) : CheckpointInv env t := by
  have hcalls : ∀ n, CallKeeps env t.locks n (t.calls n) := by
    intro n
    by_cases hn : n = a.call
    · rw [hn]
      exact hinv.own_call h
    · rw [h.calls_ne hn]
      exact (hinv.calls n).mono (fun l hl => h.locks_keep hn hl)
  rcases h.commits with ⟨htable, hlog⟩ | ⟨w, row, appends, r, hcall, hended, hfresh, hrows, hlog⟩
  · refine ⟨by rw [htable, hlog, hinv.rows], by rw [hlog]; exact hinv.written, ?_, hcalls⟩
    rw [hlog]
    intro c hc
    obtain ⟨r, hr⟩ := hinv.finished c hc
    exact ⟨r, h.ended hr⟩
  · have hown := hinv.calls a.call
    rw [hcall] at hown
    refine ⟨by rw [hrows, hlog, List.map_append, hinv.rows]; rfl, ?_, ?_, hcalls⟩
    · rw [hlog]
      intro c hc
      rcases List.mem_append.mp hc with hc | hc
      · exact hinv.written c hc
      · rw [List.mem_singleton.mp hc]
        exact ⟨hown.1, hown.2.1⟩
    · rw [hlog]
      intro c hc
      rcases List.mem_append.mp hc with hc | hc
      · obtain ⟨r, hr⟩ := hinv.finished c hc
        exact ⟨r, h.ended hr⟩
      · rw [List.mem_singleton.mp hc]
        exact ⟨r, hended⟩

theorem CheckpointInv.reaches {s t : CheckpointState} {acts : List CheckpointAct}
    (hinv : CheckpointInv env s) (hrun : Reaches (checkpointStep env) s acts t) :
    CheckpointInv env t :=
  hrun.invariant (fun _ _ _ hm hstep => hm.step (checkpointStep_move hstep)) hinv

end AgenticPlatform.Agent
