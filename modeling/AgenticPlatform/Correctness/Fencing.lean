import AgenticPlatform.Correctness.LeaseSystem
import Mathlib.Data.List.Induction

/-!
# Lease fencing

The abstract side is the history of one run as its callers see it: the leases that
were handed out, which of them is in force, and who wrote the result and the error
the accepted calls left. It is a fold over the answers alone and never looks at the
table. `Agrees` ties the row to that history; the fence `leased_by = :worker` is
what makes a stale caller's answer false, because worker ids are never reused.
-/
namespace AgenticPlatform.Correctness
open AgenticPlatform.Foundation AgenticPlatform.Identity AgenticPlatform.Db

/-- Who wrote an error. -/
inductive Writer where
  | worker (l : LeasedRun)
  | reaper
deriving DecidableEq

/-- The history of one run, as the answers tell it. -/
structure History where
  acquisitions : List LeasedRun
  holder : Option LeasedRun
  completions : List LeasedRun
  result : Option (LeasedRun × Json)
  error : Option (Writer × String)
deriving DecidableEq

namespace History

def initial : History := ⟨[], none, [], none, none⟩

/-- The lease in force ends with an accepted call; a heartbeat keeps it. -/
def settle (v : History) (l : LeasedRun) : HolderCall → History
  | .heartbeat _ => v
  | .complete result =>
    { v with
      holder := none
      completions := v.completions ++ [l]
      result := some (l, result.getD .emptyObj) }
  | .fail error .. => { v with holder := none, error := some (.worker l, clip 4000 error) }
  | .acknowledgeCancellation => { v with holder := none }

def expire (v : History) (x : Reaped) : History :=
  { v with
    holder := none
    error := if x.outcome = .failed then some (.reaper, exhaustedError) else v.error }

/-- One answer, read for the run `id`. -/
def observe (id : Uuid) (v : History) : LeaseEvent → History
  | .acquired l =>
    if l.runId = id then { v with acquisitions := v.acquisitions ++ [l], holder := some l } else v
  | .answered l call held => if held = true ∧ l.runId = id then v.settle l call else v
  | .reaped rows => (rows.find? (fun x => x.runId = id)).elim v v.expire
  | .admitted .. | .notAvailable | .cancelled _ => v

end History

def historyOf (log : LeaseLog) (id : Uuid) : History :=
  log.foldl (History.observe id) History.initial

theorem historyOf_snoc (log : LeaseLog) (e : LeaseEvent) (id : Uuid) :
    historyOf (log ++ [e]) id = (historyOf log id).observe id e := List.foldl_concat ..

theorem History.observe_of_not_concerns {id : Uuid} {v : History} {e : LeaseEvent}
    (h : ¬ e.concerns id) : v.observe id e = v := by
  cases e with
  | acquired l => exact if_neg h
  | answered l call held => exact if_neg h
  | reaped rows =>
    have hnone : rows.find? (fun x => x.runId = id) = none := by
      rw [List.find?_eq_none]
      intro x hx hid
      exact h ⟨x, hx, by simpa using hid⟩
    simp only [observe, hnone, Option.elim_none]
  | _ => rfl

/-- The acquisitions a history lists are the leases handed out for that run. -/
theorem acquisitions_eq (log : LeaseLog) (id : Uuid) :
    (historyOf log id).acquisitions = (issued log).filter (fun l => l.runId = id) := by
  induction log using List.reverseRecOn with
  | nil => rfl
  | append_singleton log e ih =>
    rw [historyOf_snoc, issued, List.filterMap_append, List.filter_append, ← issued, ← ih]
    cases e with
    | acquired l =>
      by_cases hid : l.runId = id
      · simp [History.observe, LeaseEvent.acquisition, hid]
      · simp [History.observe, LeaseEvent.acquisition, hid]
    | answered l call held =>
      simp only [History.observe, LeaseEvent.acquisition, List.filterMap_cons, List.filterMap_nil,
        List.filter_nil, List.append_nil]
      split
      · cases call <;> rfl
      · rfl
    | reaped rows =>
      simp only [History.observe, LeaseEvent.acquisition, List.filterMap_cons, List.filterMap_nil,
        List.filter_nil, List.append_nil]
      cases rows.find? (fun x => x.runId = id) <;> rfl
    | _ => simp [History.observe, LeaseEvent.acquisition]

/-- The row tells what the history tells. -/
structure Agrees (v : History) (r : RunRow) : Prop where
  leased : r.status = .leased ↔ v.holder.isSome
  leasedBy : r.leasedBy = v.holder.map LeasedRun.leasedBy
  last : ∀ l, v.holder = some l → v.acquisitions.getLast? = some l
  copy : ∀ l, v.holder = some l → l.attempt = r.attempt ∧ l.maxAttempts = r.maxAttempts
  result : r.result = v.result.map Prod.snd
  error : r.error = v.error.map Prod.snd
  succeeded : r.status = .succeeded → ∃ l j, v.result = some (l, j) ∧ v.completions = [l] ∧
    v.acquisitions.getLast? = some l
  unsucceeded : r.status ≠ .succeeded → v.result = none ∧ v.completions = []
  failed : r.status = .failed → ∃ w msg, v.error = some (w, msg) ∧
    (w = .reaper ∨ ∃ l, w = .worker l ∧ v.acquisitions.getLast? = some l)

/-- The worker ids of the leases handed out are pairwise distinct, a run that was
never admitted has no history, and every row agrees with its own. -/
structure FencingInv (s : LeaseState) : Prop where
  workers : ((issued s.log).map LeasedRun.leasedBy).Nodup
  unseen : ∀ id, id ∉ s.db.run.keys → historyOf s.log id = History.initial
  agrees : ∀ r ∈ s.db.run.rows, Agrees (historyOf s.log r.id) r

theorem agrees_newRun (now : Time) (release : String) (q : EnqueueRequest) (runId : Uuid) :
    Agrees History.initial (newRun now release q runId) where
  leased := by simp [newRun, History.initial]
  leasedBy := rfl
  last := nofun
  copy := nofun
  result := rfl
  error := rfl
  succeeded := nofun
  unsucceeded := fun _ => ⟨rfl, rfl⟩
  failed := nofun

theorem agrees_lease {v : History} {r : RunRow} {now lease : Time} {worker : String}
    {tenant : Tenant} (h : Agrees v r) (hl : leasable now r) :
    Agrees (v.observe r.id
      (.acquired (leasedRun tenant now lease worker (leaseRow now lease worker r))))
      (leaseRow now lease worker r) := by
  have hns : r.status ≠ .succeeded := by rw [hl.1]; decide
  have hobs : v.observe r.id
      (.acquired (leasedRun tenant now lease worker (leaseRow now lease worker r))) = { v with
          acquisitions :=
            v.acquisitions ++ [leasedRun tenant now lease worker (leaseRow now lease worker r)]
          holder := some (leasedRun tenant now lease worker (leaseRow now lease worker r)) } :=
            if_pos rfl
  rw [hobs]
  constructor
  · simp [leaseRow]
  · rfl
  · intro l hl'
    cases hl'
    exact List.getLast?_concat
  · intro l hl'
    cases hl'
    exact ⟨rfl, rfl⟩
  · exact h.result
  · exact h.error
  · intro hs
    cases hs
  · intro _
    exact h.unsucceeded hns
  · intro hs
    cases hs

/-- An accepted call is the current holder's: the fence compares worker ids, and no
two leases share one. -/
theorem holder_of_fenced {log : LeaseLog} {r : RunRow} {l : LeasedRun}
    (hw : ((issued log).map LeasedRun.leasedBy).Nodup) (ha : Agrees (historyOf log r.id) r)
    (hmem : l ∈ issued log) (hf : fenced l r) : (historyOf log r.id).holder = some l := by
  have hby := ha.leasedBy
  rw [hf.2.2] at hby
  obtain ⟨l', hl', heq⟩ := Option.map_eq_some_iff.mp hby.symm
  have hmem' : l' ∈ issued log := by
    have hlast := List.mem_of_getLast? (ha.last l' hl')
    rw [acquisitions_eq, List.mem_filter] at hlast
    exact hlast.1
  rw [hl', List.inj_on_of_nodup_map hw hmem' hmem heq]

theorem agrees_call {c : RetrySettings} {now : Time} {v : History} {r : RunRow} {l : LeasedRun}
    {call : HolderCall} (h : Agrees v r) (hid : r.id = l.runId) (hst : r.status = .leased)
    (hh : v.holder = some l) :
    Agrees (v.observe r.id (.answered l call true)) (call.set c now l r) := by
  have hns : r.status ≠ .succeeded := by rw [hst]; decide
  have hlast := h.last l hh
  have hobs : v.observe r.id (.answered l call true) = v.settle l call := if_pos ⟨rfl, hid.symm⟩
  obtain ⟨hres, hcomp⟩ := h.unsucceeded hns
  rw [hobs]
  cases call with
  | heartbeat extend =>
    exact ⟨h.leased, h.leasedBy, h.last, h.copy, h.result, h.error, h.succeeded,
      h.unsucceeded, h.failed⟩
  | complete result =>
    constructor
    · simp [HolderCall.set, completeRow, History.settle]
    · rfl
    · intro _ h
      cases h
    · intro _ h
      cases h
    · rfl
    · exact h.error
    · intro _
      exact ⟨l, result.getD .emptyObj, rfl, by simp [History.settle, hcomp], hlast⟩
    · intro hs
      exact absurd rfl hs
    · intro hs
      cases hs
  | fail error retryable retryAfter u =>
    have hst' : (failRow now error (failTerminal l retryable)
        (failDelay c l retryable retryAfter u) r).status ≠ .leased ∧
        (failRow now error (failTerminal l retryable)
        (failDelay c l retryable retryAfter u) r).status ≠ .succeeded := by
      simp only [failRow]
      split
      · decide
      · split <;> decide
    constructor
    · simp [HolderCall.set, hst'.1, History.settle]
    · rfl
    · intro _ h
      cases h
    · intro _ h
      cases h
    · exact h.result
    · rfl
    · intro hs
      exact absurd hs hst'.2
    · intro _
      exact ⟨hres, hcomp⟩
    · intro _
      exact ⟨.worker l, clip 4000 error, rfl, Or.inr ⟨l, rfl, hlast⟩⟩
  | acknowledgeCancellation =>
    constructor
    · simp [HolderCall.set, cancelledRow, History.settle]
    · rfl
    · intro _ h
      cases h
    · intro _ h
      cases h
    · exact h.result
    · exact h.error
    · intro hs
      cases hs
    · intro _
      exact ⟨hres, hcomp⟩
    · intro hs
      cases hs

theorem agrees_reap {c : RetrySettings} {now : Time} {draw : Uuid → Draw} {v : History} {r : RunRow}
    (h : Agrees v r) (hst : r.status = .leased) :
    Agrees (v.expire (reapedOf (reapRow c now draw r))) (reapRow c now draw r) := by
  have hns : r.status ≠ .succeeded := by rw [hst]; decide
  have hcases : (reapRow c now draw r).status = .cancelled ∨
      (reapRow c now draw r).status = .failed ∨ (reapRow c now draw r).status = .pending := by
    simp only [reapRow]
    split
    · exact Or.inl rfl
    · split
      · exact Or.inr (Or.inl rfl)
      · exact Or.inr (Or.inr rfl)
  have hfailed : (reapRow c now draw r).status = .failed ↔
      r.cancelRequestedAt = none ∧ r.maxAttempts ≤ r.attempt := by
    simp only [reapRow]
    by_cases hc : r.cancelRequestedAt = none
    · by_cases hm : r.maxAttempts ≤ r.attempt <;> simp [hc, hm]
    · simp [hc]
  constructor
  · rcases hcases with hc | hc | hc <;> simp [hc, History.expire]
  · rfl
  · nofun
  · nofun
  · exact h.result
  · by_cases hf : (reapRow c now draw r).status = .failed
    · have hexp : (v.expire (reapedOf (reapRow c now draw r))).error =
          some (.reaper, exhaustedError) :=
        if_pos hf
      obtain ⟨hc, hm⟩ := hfailed.mp hf
      rw [hexp]
      simp [reapRow, hc, hm]
    · have hexp : (v.expire (reapedOf (reapRow c now draw r))).error = v.error := if_neg hf
      rw [hexp, ← h.error]
      simp only [reapRow]
      split
      · rfl
      · split
        · exact absurd (hfailed.mpr ⟨by simpa using ‹¬ r.cancelRequestedAt ≠ none›, ‹_›⟩) hf
        · rfl
  · intro hs
    rcases hcases with hc | hc | hc <;> rw [hc] at hs <;> cases hs
  · intro _
    exact h.unsucceeded hns
  · intro hs
    exact ⟨.reaper, exhaustedError, if_pos hs, Or.inl rfl⟩

theorem agrees_cancel {now : Time} {by_ : Uuid} {v : History} {r : RunRow} (h : Agrees v r)
    (hc : cancellable r) : Agrees v (cancelRow now by_ r) := by
  rcases hc with hs | hs | hs
  · have hn : v.holder.isSome ≠ true := by
      rw [Ne, ← h.leased, hs]
      decide
    refine ⟨?_, h.leasedBy, h.last, h.copy, h.result, h.error, ?_, ?_, ?_⟩
    · simp [cancelRow, hs, hn]
    · intro hf
      simp [cancelRow, hs] at hf
    · intro _
      exact h.unsucceeded (by rw [hs]; decide)
    · intro hf
      simp [cancelRow, hs] at hf
  all_goals
    have hsame : (cancelRow now by_ r).status = r.status := by simp [cancelRow, hs]
    refine ⟨?_, h.leasedBy, h.last, h.copy, h.result, h.error, ?_, ?_, ?_⟩ <;> rw [hsame]
    · exact h.leased
    · exact h.succeeded
    · exact h.unsucceeded
    · exact h.failed

/-- One row step keeps the row and its history in agreement. -/
theorem agrees_rowStep {c : RetrySettings} {now : Time} {log : LeaseLog} {e : LeaseEvent}
    {r r' : RunRow} (hw : ((issued log).map LeasedRun.leasedBy).Nodup)
    (hcall : ∀ l call held, e = .answered l call held → l ∈ issued log)
    (ha : Agrees (historyOf log r.id) r) (h : RowStep c now e r r') :
    Agrees (historyOf (log ++ [e]) r.id) r' := by
  rw [historyOf_snoc]
  cases h with
  | same hn =>
    rw [History.observe_of_not_concerns hn]
    exact ha
  | lease tenant worker lease hv hl => exact agrees_lease ha hl
  | call call hid hf hg =>
    exact agrees_call ha hid hf.2.1 (holder_of_fenced hw ha (hcall _ _ _ rfl) hf)
  | reap grace draw hexp hmem honly =>
    rename_i rows
    have hfind : rows.find? (fun x => x.runId = r.id) = some (reapedOf (reapRow c now draw r)) := by
      cases hf : rows.find? (fun x => x.runId = r.id) with
      | none =>
        exact absurd (decide_eq_true rfl) (List.find?_eq_none.mp hf _ hmem)
      | some x =>
        have hx := List.mem_of_find?_eq_some hf
        have hid : x.runId = r.id := by simpa using List.find?_some hf
        rw [honly x hx hid]
    simp only [History.observe, hfind, Option.elim_some]
    exact agrees_reap ha hexp.1
  | cancel by_ hc => exact agrees_cancel ha hc

/-- A call that gets an answer was made with a lease that was handed out. -/
theorem issued_of_answered {c : RetrySettings} {db db' : Store} {now : Time} {op : LeaseOp}
    {e : LeaseEvent} {log : LeaseLog} (hex : exec c db now op = some (db', e))
    (hcall : callable log op) : ∀ l call held, e = .answered l call held → l ∈ issued log := by
  intro l call held he
  rw [he] at hex
  rw [exec_answered hex] at hcall
  exact hcall

/-- Every successful acquisition is made under a worker id no lease carried before. -/
def freshWorker (c : RetrySettings) (s : LeaseState) (a : Time × LeaseOp) : Prop :=
  ∀ x ∈ exec c s.db a.1 a.2, ∀ l ∈ x.2.acquisition,
    l.leasedBy ∉ (issued s.log).map LeasedRun.leasedBy

instance (c : RetrySettings) (s : LeaseState) (a : Time × LeaseOp) :
    Decidable (freshWorker c s a) :=
  inferInstanceAs (Decidable (∀ x ∈ exec c s.db a.1 a.2, ∀ l ∈ x.2.acquisition, _))

/-- The lease protocol among workers that never use an id again. -/
def fencedStep (c : RetrySettings) : LeaseState → Time × LeaseOp → Option LeaseState :=
  restrict (freshWorker c) (leaseStep c)

theorem workers_snoc {log : LeaseLog} {e : LeaseEvent}
    (h : ((issued log).map LeasedRun.leasedBy).Nodup)
    (hf : ∀ l ∈ e.acquisition, l.leasedBy ∉ (issued log).map LeasedRun.leasedBy) :
    ((issued (log ++ [e])).map LeasedRun.leasedBy).Nodup := by
  rw [issued_snoc, List.map_append]
  cases hl : e.acquisition with
  | none => simpa using h
  | some l =>
    have hnew := hf l hl
    rw [List.nodup_append]
    refine ⟨h, List.nodup_singleton _, ?_⟩
    intro x hx y hy hxy
    have hyl : y = l.leasedBy := by simpa using hy
    exact hnew (hyl ▸ hxy ▸ hx)

theorem fencingInv_initial : FencingInv LeaseState.initial where
  workers := List.nodup_nil
  unseen := fun _ _ => rfl
  agrees := fun _ hr => absurd hr Table.mem_empty

theorem fencingInv_step {c : RetrySettings} {s t : LeaseState} {a : Time × LeaseOp}
    (h : FencingInv s) (hstep : fencedStep c s a = some t) : FencingInv t := by
  obtain ⟨hfresh, hstep⟩ := restrict_eq_some.mp hstep
  obtain ⟨e, hex, hcall, hlog⟩ := leaseStep_eq_some.mp hstep
  have hans := issued_of_answered hex hcall
  refine ⟨by rw [hlog]; exact workers_snoc h.workers (hfresh _ hex), ?_, ?_⟩
  · intro id hid
    have hold : id ∉ s.db.run.keys ∧ ¬ e.concerns id := by
      rcases exec_rows hex with ⟨release, trace, q, runId, outboxId, -, rfl, -, hrows⟩ |
        ⟨g, hrows, hg, hkeys⟩
      · refine ⟨fun hk => hid ?_, fun hc => hc⟩
        rw [Table.keys, hrows, List.map_append]
        exact List.mem_append_left _ hk
      · have hsame : t.db.run.keys = s.db.run.keys := by
          rw [Table.keys, hrows, List.map_map]
          exact List.map_congr_left (fun r hr => (hg r hr).id_eq)
        rw [hsame] at hid
        exact ⟨hid, fun hc => hid (hkeys id hc)⟩
    rw [hlog, historyOf_snoc, History.observe_of_not_concerns hold.2]
    exact h.unseen id hold.1
  · intro r' hr'
    rw [hlog]
    rcases exec_rows hex with ⟨release, trace, q, runId, outboxId, -, rfl, hnew, hrows⟩ |
      ⟨g, hrows, hg, -⟩
    · rw [historyOf_snoc]
      change Agrees (historyOf s.log r'.id) r'
      rw [hrows, List.mem_append, List.mem_singleton] at hr'
      rcases hr' with hr' | rfl
      · exact h.agrees r' hr'
      · have hinit : historyOf s.log (newRun a.1 release q runId).id = History.initial :=
          h.unseen runId hnew
        rw [hinit]
        exact agrees_newRun a.1 release q runId
    · rw [hrows, List.mem_map] at hr'
      obtain ⟨r, hr, rfl⟩ := hr'
      rw [(hg r hr).id_eq]
      exact agrees_rowStep h.workers hans (h.agrees r hr) (hg r hr)

/-- The fence holds along every run of the system. -/
theorem fencingInv_reaches {c : RetrySettings} {acts : List (Time × LeaseOp)} {s : LeaseState}
    (h : Reaches (fencedStep c) LeaseState.initial acts s) : FencingInv s :=
  h.invariant (fun _ _ _ hs ht => fencingInv_step hs ht) fencingInv_initial

/-! ## What the fence gives the callers -/

/-- The lease is in force: the last one handed out for its run, ended by nothing
since, and the row is leased under it. -/
def heldUnder (s : LeaseState) (l : LeasedRun) : Prop :=
  (historyOf s.log l.runId).holder = some l ∧
  (historyOf s.log l.runId).acquisitions.getLast? = some l ∧
  ∃ r ∈ s.db.run.rows, r.id = l.runId ∧ r.status = .leased ∧ r.leasedBy = some l.leasedBy ∧
    r.attempt = l.attempt

/-- A call answered true was made under the lease in force. -/
theorem heldUnder_of_true {c : RetrySettings} {s : LeaseState} {now : Time} {l : LeasedRun}
    {call : HolderCall} (h : FencingInv s) (hmem : l ∈ issued s.log)
    (ht : (call.exec c s.db.run now l).2 = true) : heldUnder s l := by
  obtain ⟨hp, hset, heq⟩ := call.exec_eq c s.db.run now l
  rw [heq] at ht
  obtain ⟨r, hr, hid, hf, -⟩ := (fencedUpdate_spec s.db.run l call.guard _ hset).1.mp ht
  have hag := h.agrees r hr
  have hh := holder_of_fenced h.workers hag hmem hf
  rw [hid] at hh hag
  exact ⟨hh, hag.last l hh, r, hr, hid, hf.2.1, hf.2.2, (hag.copy l hh).1.symm⟩

/-- A call that answers false leaves the table as it was. -/
theorem unchanged_of_false {c : RetrySettings} {run : RunTable} {now : Time} {l : LeasedRun}
    {call : HolderCall} (hf : (call.exec c run now l).2 = false) :
    (call.exec c run now l).1 = run := by
  obtain ⟨hp, hset, heq⟩ := call.exec_eq c run now l
  rw [heq] at hf ⊢
  exact (fencedUpdate_spec run l call.guard _ hset).2 hf

theorem acquisitions_nodup {s : LeaseState} (h : FencingInv s) (id : Uuid) :
    (historyOf s.log id).acquisitions.Nodup := by
  rw [acquisitions_eq]
  exact List.Nodup.filter _ (List.Nodup.of_map _ h.workers)

/-- Of the acquisitions of a run only the last can be in force. -/
theorem last_of_heldUnder {s : LeaseState} {l : LeasedRun} {k : Nat} (h : FencingInv s)
    (hk : (historyOf s.log l.runId).acquisitions[k]? = some l) (hl : heldUnder s l) :
    k + 1 = (historyOf s.log l.runId).acquisitions.length := by
  obtain ⟨hlt, hget⟩ := List.getElem?_eq_some_iff.mp hk
  have hlast := hl.2.1
  rw [List.getLast?_eq_getElem?, List.getElem?_eq_some_iff] at hlast
  obtain ⟨hlt', hget'⟩ := hlast
  have heq := (List.Nodup.getElem_inj_iff (acquisitions_nodup h l.runId)).mp (hget.trans hget'.symm)
  omega

/-- Who wrote what a row stores, by its status. -/
structure WrittenBy (v : History) (r : RunRow) : Prop where
  result : r.result = v.result.map Prod.snd
  error : r.error = v.error.map Prod.snd
  succeeded : r.status = .succeeded → ∃ l j, v.result = some (l, j) ∧
    v.acquisitions.getLast? = some l
  failed : r.status = .failed → r.result = none ∧ ∃ w msg, v.error = some (w, msg) ∧
    (w = .reaper ∨ ∃ l, w = .worker l ∧ v.acquisitions.getLast? = some l)
  cancelled : r.status = .cancelled → r.result = none

theorem writtenBy_of_agrees {v : History} {r : RunRow} (h : Agrees v r) : WrittenBy v r := by
  have hnone : r.status ≠ .succeeded → r.result = none := by
    intro hs
    rw [h.result, (h.unsucceeded hs).1, Option.map_none]
  refine ⟨h.result, h.error, ?_, ?_, ?_⟩
  · intro hs
    obtain ⟨l, j, hres, -, hlast⟩ := h.succeeded hs
    exact ⟨l, j, hres, hlast⟩
  · intro hs
    exact ⟨hnone (by rw [hs]; decide), h.failed hs⟩
  · intro hs
    exact hnone (by rw [hs]; decide)

theorem completions_le_one {s : LeaseState} (h : FencingInv s) (id : Uuid) :
    (historyOf s.log id).completions.length ≤ 1 := by
  by_cases hid : id ∈ s.db.run.keys
  · obtain ⟨r, hr, rfl⟩ := Table.mem_keys.mp hid
    have hag := h.agrees r hr
    by_cases hs : r.status = .succeeded
    · obtain ⟨l, j, -, hc, -⟩ := hag.succeeded hs
      rw [hc]
      simp
    · rw [(hag.unsucceeded hs).2]
      simp
  · rw [h.unseen id hid]
    decide

/-- Lease fencing. A holder call is answered true only under the lease in force; any
other caller gets false and the tables stay as they are; of the acquisitions of a run
only the last can be in force, and at most one ever has an accepted completion. What
a row stores was written by accepted calls only: the result of a succeeded run and
the error of a failed one by its last acquisition (or the reaper), while the error
of an earlier accepted failure stays on a run that later succeeds or is cancelled. -/
theorem lease_fencing (c : RetrySettings) (acts : List (Time × LeaseOp)) (s : LeaseState)
    (h : Reaches (fencedStep c) LeaseState.initial acts s) :
    (∀ now l call t, leaseStep c s (now, .call l call) = some t →
      (t.log = s.log ++ [.answered l call true] → heldUnder s l) ∧
      (¬ heldUnder s l → t.log = s.log ++ [.answered l call false] ∧ t.db = s.db)) ∧
    (∀ k l, (historyOf s.log l.runId).acquisitions[k]? = some l → heldUnder s l →
      k + 1 = (historyOf s.log l.runId).acquisitions.length) ∧
    (∀ id, (historyOf s.log id).completions.length ≤ 1) ∧
    (∀ r ∈ s.db.run.rows, WrittenBy (historyOf s.log r.id) r) := by
  have hinv := fencingInv_reaches h
  refine ⟨?_, ?_, completions_le_one hinv, ?_⟩
  · intro now l call t hstep
    obtain ⟨e, hex, hmem, hlog⟩ := leaseStep_eq_some.mp hstep
    obtain ⟨he, hdb⟩ := exec_call hex
    rw [hlog, he]
    constructor
    · intro htrue
      have hheld : (call.exec c s.db.run now l).2 = true := by simpa using htrue
      exact heldUnder_of_true hinv hmem hheld
    · intro hnot
      have hfalse : (call.exec c s.db.run now l).2 = false :=
        Bool.eq_false_iff.mpr (fun ht => hnot (heldUnder_of_true hinv hmem ht))
      rw [hdb, hfalse, unchanged_of_false hfalse]
      exact ⟨rfl, rfl⟩
  · intro k l hk hl
    exact last_of_heldUnder hinv hk hl
  · intro r hr
    exact writtenBy_of_agrees (hinv.agrees r hr)

/-! A run that fails once and then succeeds under a second lease. -/

def noJitter : Draw := ⟨0, zero_isDraw⟩

def firstLease : LeasedRun := ⟨10, sampleTenant, "echo", .emptyObj, 1, 3, "w1", 60⟩

def secondLease : LeasedRun := ⟨10, sampleTenant, "echo", .emptyObj, 2, 3, "w2", 160⟩

def retriedRun : List (Time × LeaseOp) :=
  [(0, .enqueueRun "r1" .emptyObj sampleRequest 10 1),
   (0, .acquireSpecific sampleTenant 10 "w1" 60),
   (1, .call firstLease (.fail "E1" true none noJitter)),
   (100, .acquireSpecific sampleTenant 10 "w2" 60),
   (101, .call firstLease (.complete none)),
   (102, .call secondLease (.complete none))]

theorem retriedRun_runs :
    (retriedRun.foldlM (fencedStep .default) LeaseState.initial).isSome = true := by decide +kernel

/-- The fencing result at a run in which a superseded holder calls late. -/
theorem lease_fencing_retriedRun :
    ∃ s, Reaches (fencedStep .default) LeaseState.initial retriedRun s ∧
      (∀ id, (historyOf s.log id).completions.length ≤ 1) ∧
      (∀ r ∈ s.db.run.rows, WrittenBy (historyOf s.log r.id) r) :=
  ⟨_, reaches_get retriedRun_runs,
    (lease_fencing .default retriedRun _ (reaches_get retriedRun_runs)).2.2⟩

/-- The error a succeeded run stores may have been written by a superseded acquisition. -/
theorem superseded_error_survives :
    ∃ s, Reaches (fencedStep .default) LeaseState.initial retriedRun s ∧
      ∃ r ∈ s.db.run.rows, r.status = .succeeded ∧ r.error = some "E1" ∧
      (historyOf s.log r.id).error = some (.worker firstLease, "E1") ∧
      (historyOf s.log r.id).acquisitions = [firstLease, secondLease] ∧ firstLease ≠ secondLease :=
  ⟨_, reaches_get retriedRun_runs, by decide +kernel⟩

end AgenticPlatform.Correctness
