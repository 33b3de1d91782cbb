import AgenticPlatform.Observability.Ledger

/-!
# What a step of the ledger can do

Every step is one of the moves below, and every open transaction keeps what it has
established: the start of its transaction is not in the future, it has the advisory lock
once it has taken it, and while it has the lock nobody else changes the rows it has
written or adds to the totals it has read.
-/
namespace AgenticPlatform.Observability
open AgenticPlatform.Foundation AgenticPlatform.Identity AgenticPlatform.Db

/-! ## Moves -/

/-- The call has returned, and not with a metered reservation. -/
def Txn.spent : Txn → Bool
  | .reserveEnded (.ok b) => !b.metered
  | .reserveEnded (.error _) | .settleEnded .idempotent | .settleEnded .failed => true
  | _ => false

/-- The hold fits under both caps. -/
def Fits (env : LedgerEnv) (reservations : ReservationTable) (usage : List UsageRow) (now : Time)
    (h : Hold) : Prop :=
  projectedTokens (totals env reservations usage now) h < dailyCap env ∧
    projectedCost (totals env reservations usage now) h < monthlyCap env

/-- Everything a step can do. -/
inductive LedgerMove (env : LedgerEnv) (s t : LedgerState) : LedgerAct → Prop where
  | tick (now : Time) (hnow : s.clock ≤ now) (ht : t = { s with clock := now }) :
    LedgerMove env s t (.tick now)
  | beginReserve (n : Nat) (q : ReserveRequest) (h : Hold) (hn : s.txns n = .unused)
    (ht : t = s.setTxn n (.reserveBegun s.clock h)) : LedgerMove env s t (.beginReserve n q)
  | beginSettle (n : Nat) (b : BudgetReservation) (id : Uuid) (record : UsageRecord)
    (hn : s.txns n = .unused) (ht : t = s.setTxn n (.settleBegun s.clock id record)) :
    LedgerMove env s t (.beginSettle n b record)
  | lockReserve (n : Nat) (now : Time) (h : Hold) (hfree : s.holder = none)
    (hn : s.txns n = .reserveBegun now h)
    (ht : t = { s.setTxn n (.reserveLocked now h) with holder := some n }) :
    LedgerMove env s t (.lock n)
  | lockSettle (n : Nat) (now : Time) (id : Uuid) (record : UsageRecord) (hfree : s.holder = none)
    (hn : s.txns n = .settleBegun now id record)
    (ht : t = { s.setTxn n (.settleLocked now id record) with holder := some n }) :
    LedgerMove env s t (.lock n)
  | expire (n : Nat) (now : Time) (h : Hold) (hn : s.txns n = .reserveLocked now h)
    (ht : t = s.setTxn n (.expired now h (expirableIds s.reservations now))) :
    LedgerMove env s t (.expire n)
  | check (n : Nat) (now : Time) (h : Hold) (ids : List Uuid) (id : Uuid)
    (hn : s.txns n = .expired now h ids)
    (hfits : Fits env (markExpired s.reservations ids) s.usage now h)
    (ht : t = s.setTxn n (.reserved now h ids (newReservation env now h id))) :
    LedgerMove env s t (.check n id)
  | transition (n : Nat) (now : Time) (id : Uuid) (record : UsageRecord) (c : Charge)
    (r : ReservationRow) (hn : s.txns n = .settleLocked now id record)
    (hr : r ∈ s.reservations.rows) (hid : r.id = id) (hopen : settleable r)
    (hc : record.charge = some c) (ht : t = s.setTxn n (.settled now id record c)) :
    LedgerMove env s t (.transition n)
  | close {a : LedgerAct} (n : Nat) (x : Txn) (hx : x.spent = true) (ht : t = s.endTxn n x) :
    LedgerMove env s t a
  | commitReserve (n : Nat) (now : Time) (h : Hold) (ids : List Uuid) (row : ReservationRow)
    (reservations' : ReservationTable) (hn : s.txns n = .reserved now h ids row)
    (hfresh : row.id ∉ s.reservations.keys)
    (hrows : reservations'.rows = (markExpired s.reservations ids).rows ++ [row])
    (ht : t = { s.endTxn n (.reserveEnded (.ok (granted env h row.id))) with
      reservations := reservations' }) : LedgerMove env s t (.commit n)
  | commitSettle (n : Nat) (now : Time) (id : Uuid) (record : UsageRecord) (c : Charge)
    (u : UsageRow) (hn : s.txns n = .settled now id record c)
    (hu : usageRow env now record = some u) (ht : t = { s.endTxn n (.settleEnded .succeeded) with
        reservations :=
          s.reservations.updateWhere (fun r => r.id = id) (settleRow now c) (fun _ => rfl)
        usage := s.usage ++ [u]
        settlements := s.settlements ++ [(id, u)] }) : LedgerMove env s t (.commit n)
  | released (b : BudgetReservation) (id : Uuid) (reason : String) (now : Time)
    (hfree : ∀ n ∈ s.holder, id ∉ (s.txns n).written)
    (ht : t = { s with reservations := release s.reservations now id reason }) :
    LedgerMove env s t (.release b reason now)
  | idle {a : LedgerAct} (ht : t = s) : LedgerMove env s t a

@[simp] theorem markExpired_keys (reservations : ReservationTable) (ids : List Uuid) :
    (markExpired reservations ids).keys = reservations.keys :=
  Table.keys_updateWhere reservations _ _ _

theorem unavailable_spent (env : LedgerEnv) (h : Hold) :
    (Txn.reserveEnded (unavailable env h)).spent = true := by
  unfold unavailable
  split <;> rfl

theorem unsettled_spent (reservations : ReservationTable) (id : Uuid) :
    (Txn.settleEnded (unsettled reservations id)).spent = true := by
  unfold unsettled
  split <;> rfl

theorem checkHold_move {env : LedgerEnv} {s : LedgerState} {n : Nat} {now : Time} {h : Hold}
    {ids : List Uuid} {id : Uuid} (hn : s.txns n = .expired now h ids) :
    LedgerMove env s (checkHold env s n now h ids id) (.check n id) := by
  unfold checkHold
  simp only
  split
  · exact .close n _ rfl rfl
  · rename_i hover
    rw [not_or, not_le, not_le] at hover
    exact .check n now h ids id hn hover rfl

theorem transitionRow_move {env : LedgerEnv} {s : LedgerState} {n : Nat} {now : Time} {id : Uuid}
    {record : UsageRecord} (hn : s.txns n = .settleLocked now id record) :
    LedgerMove env s (transitionRow s n now id record) (.transition n) := by
  unfold transitionRow
  split
  · exact .close n _ (unsettled_spent _ _) rfl
  · rename_i r hr
    obtain ⟨hget, hopen⟩ := Option.filter_eq_some_iff.mp hr
    obtain ⟨hmem, hid⟩ := Table.get_eq_some.mp hget
    split
    · exact .close n _ rfl rfl
    · rename_i c hc
      exact .transition n now id record c r hn hmem hid (of_decide_eq_true hopen) hc rfl

theorem ledgerStep_move {env : LedgerEnv} {s t : LedgerState} {a : LedgerAct}
    (hstep : ledgerStep env s a = some t) : LedgerMove env s t a := by
  cases a with
  | tick now =>
    simp only [ledgerStep] at hstep
    split at hstep
    · cases hstep
      exact .tick now ‹_› rfl
    · cases hstep
  | beginReserve n q =>
    simp only [ledgerStep] at hstep
    split at hstep
    · split at hstep
      · cases hstep
        exact .close n _ rfl rfl
      · rename_i hn _ h _
        cases hstep
        exact .beginReserve n q h hn rfl
    · cases hstep
  | beginSettle n b record =>
    simp only [ledgerStep] at hstep
    split at hstep
    · rename_i _ _ id hn _
      cases hstep
      exact .beginSettle n b id record hn rfl
    · cases hstep
  | lock n =>
    simp only [ledgerStep] at hstep
    split at hstep
    · rename_i _ _ now h hfree hn
      cases hstep
      exact .lockReserve n now h hfree hn rfl
    · rename_i _ _ now id record hfree hn
      cases hstep
      exact .lockSettle n now id record hfree hn rfl
    · cases hstep
  | expire n =>
    simp only [ledgerStep] at hstep
    split at hstep
    · rename_i now h hn
      cases hstep
      exact .expire n now h hn rfl
    · cases hstep
  | check n id =>
    simp only [ledgerStep] at hstep
    split at hstep
    · rename_i now h ids hn
      cases hstep
      exact checkHold_move hn
    · cases hstep
  | transition n =>
    simp only [ledgerStep] at hstep
    split at hstep
    · rename_i now id record hn
      cases hstep
      exact transitionRow_move hn
    · cases hstep
  | commit n =>
    simp only [ledgerStep] at hstep
    split at hstep
    · rename_i now h ids row hn
      obtain ⟨reservations', hins, rfl⟩ := Option.map_eq_some_iff.mp hstep
      obtain ⟨hfresh, hrows⟩ := Table.tryInsert_eq_some hins
      rw [markExpired_keys] at hfresh
      exact .commitReserve n now h ids row reservations' hn hfresh hrows rfl
    · rename_i now id record c hn
      cases hstep
      unfold commitSettle
      split
      · exact .close n _ rfl rfl
      · rename_i u hu
        exact .commitSettle n now id record c u hn hu rfl
    · cases hstep
  | abort n =>
    simp only [ledgerStep] at hstep
    split at hstep
    all_goals cases hstep
    all_goals first
      | exact .close n _ (unavailable_spent _ _) rfl
      | exact .close n _ rfl rfl
  | release b reason now =>
    simp only [ledgerStep] at hstep
    split at hstep
    · cases hstep
      exact .idle rfl
    · rename_i id _
      split at hstep
      · cases hstep
      · rename_i hfree
        cases hstep
        refine .released b id reason now ?_ rfl
        intro n hn hmem
        exact hfree (Or.inr ⟨n, hn, hmem⟩)

/-! ## Open transactions -/

/-- These rows are the ones to expire. -/
def Marked (reservations : ReservationTable) (now : Time) (ids : List Uuid) : Prop :=
  ∀ r ∈ reservations.rows, r.id ∈ ids → expirable now r

/-- What an open transaction has established. -/
def TxnOk (env : LedgerEnv) (s : LedgerState) (n : Nat) : Txn → Prop
  | .unused | .reserveEnded _ | .settleEnded _ => True
  | .reserveBegun now _ | .settleBegun now _ _ => now ≤ s.clock
  | .reserveLocked now _ | .settleLocked now _ _ => now ≤ s.clock ∧ s.holder = some n
  | .expired now _ ids => now ≤ s.clock ∧ s.holder = some n ∧ Marked s.reservations now ids
  | .reserved now h ids row =>
    now ≤ s.clock ∧ s.holder = some n ∧ Marked s.reservations now ids ∧
      (∃ id, row = newReservation env now h id) ∧ Fits env s.reservations s.usage now h
  | .settled now id record c =>
    now ≤ s.clock ∧ s.holder = some n ∧ record.charge = some c ∧
      ∃ r ∈ s.reservations.rows, r.id = id ∧ settleable r

def LedgerInv (env : LedgerEnv) (s : LedgerState) : Prop := ∀ n, TxnOk env s n (s.txns n)

theorem ledgerInv_initial (env : LedgerEnv) (clock : Time) : LedgerInv env (.initial clock) :=
  fun _ => trivial

/-- A call without the lock survives any change of the tables. -/
theorem txnOk_waiting {env : LedgerEnv} {s t : LedgerState} {n : Nat} {x : Txn}
    (h : TxnOk env s n x) (hclock : s.clock ≤ t.clock) (hfree : s.holder ≠ some n) :
    TxnOk env t n x := by
  cases x with
  | unused => trivial
  | reserveEnded r => trivial
  | settleEnded outcome => trivial
  | reserveBegun now h' => exact le_trans h hclock
  | settleBegun now id record => exact le_trans h hclock
  | reserveLocked now h' => exact absurd h.2 hfree
  | settleLocked now id record => exact absurd h.2 hfree
  | expired now h' ids => exact absurd h.2.1 hfree
  | reserved now h' ids row => exact absurd h.2.1 hfree
  | settled now id record c => exact absurd h.2.1 hfree

/-- Every call survives a change of other parts of the state. -/
theorem txnOk_frame {env : LedgerEnv} {s t : LedgerState} {n : Nat} {x : Txn} (h : TxnOk env s n x)
    (hclock : s.clock ≤ t.clock) (hreservations : t.reservations = s.reservations)
    (husage : t.usage = s.usage) (hholder : s.holder = some n → t.holder = some n) :
    TxnOk env t n x := by
  cases x with
  | unused => trivial
  | reserveEnded r => trivial
  | settleEnded outcome => trivial
  | reserveBegun now h' => exact le_trans h hclock
  | settleBegun now id record => exact le_trans h hclock
  | reserveLocked now h' => exact ⟨le_trans h.1 hclock, hholder h.2⟩
  | settleLocked now id record => exact ⟨le_trans h.1 hclock, hholder h.2⟩
  | expired now h' ids =>
    refine ⟨le_trans h.1 hclock, hholder h.2.1, ?_⟩
    rw [hreservations]
    exact h.2.2
  | reserved now h' ids row =>
    refine ⟨le_trans h.1 hclock, hholder h.2.1, ?_⟩
    rw [hreservations, husage]
    exact h.2.2
  | settled now id record c =>
    refine ⟨le_trans h.1 hclock, hholder h.2.1, ?_⟩
    rw [hreservations]
    exact h.2.2

/-- A step of one call that leaves the tables alone. -/
theorem ledgerInv_setTxn {env : LedgerEnv} {s t : LedgerState} {n : Nat} {x : Txn}
    (hinv : LedgerInv env s) (hclock : s.clock ≤ t.clock)
    (hreservations : t.reservations = s.reservations) (husage : t.usage = s.usage)
    (htxns : t.txns = Function.update s.txns n x)
    (hholder : ∀ m, m ≠ n → s.holder = some m → t.holder = some m) (hx : TxnOk env t n x) :
    LedgerInv env t := by
  intro m
  rw [htxns]
  by_cases he : m = n
  · subst he
    rw [Function.update_self]
    exact hx
  · rw [Function.update_of_ne he]
    exact txnOk_frame (hinv m) hclock hreservations husage (hholder m he)

/-- A commit: the other calls do not have the lock. -/
theorem ledgerInv_commit {env : LedgerEnv} {s t : LedgerState} {n : Nat} {x : Txn}
    (hinv : LedgerInv env s) (hclock : s.clock ≤ t.clock) (hlock : s.holder = some n)
    (htxns : t.txns = Function.update s.txns n x) (hx : TxnOk env t n x) : LedgerInv env t := by
  intro m
  rw [htxns]
  by_cases he : m = n
  · subst he
    rw [Function.update_self]
    exact hx
  · rw [Function.update_of_ne he]
    refine txnOk_waiting (hinv m) hclock ?_
    rw [hlock]
    intro hsame
    exact he (Option.some.inj hsame).symm

theorem txnOk_of_spent {env : LedgerEnv} {s : LedgerState} {n : Nat} {x : Txn}
    (h : x.spent = true) : TxnOk env s n x := by
  cases x <;> trivial

theorem holder_endTxn {s : LedgerState} {n m : Nat} {x : Txn} (hne : m ≠ n)
    (h : s.holder = some m) : (s.endTxn n x).holder = some m := by
  show s.holder.filter _ = some m
  rw [h]
  simp [hne]

/-! ## The totals -/

theorem UsageRow.totalTokens_nonneg (u : UsageRow) : 0 ≤ u.totalTokens :=
  add_nonneg u.tokens_nonneg.1 u.tokens_nonneg.2

/-- The totals where the reservations that count are chosen by a condition. -/
def totalsWhere (env : LedgerEnv) (p : ReservationRow → Prop) [DecidablePred p]
    (reservations : ReservationTable) (usage : List UsageRow) (now : Time) : Totals :=
  { totals env reservations usage now with
    reservedTokens := sumWhere p ReservationRow.estimatedTokens reservations.rows
    reservedCost := sumWhere p ReservationRow.estimatedCostUsd reservations.rows }

structure Totals.Le (t u : Totals) : Prop where
  tokensToday : t.tokensToday ≤ u.tokensToday
  costMonth : t.costMonth ≤ u.costMonth
  reservedTokens : t.reservedTokens ≤ u.reservedTokens
  reservedCost : t.reservedCost ≤ u.reservedCost

theorem Fits.of_le {env : LedgerEnv} {reservations reservations' : ReservationTable}
    {usage usage' : List UsageRow} {now now' : Time} {h : Hold}
    (hfits : Fits env reservations usage now h)
    (hle : (totals env reservations' usage' now').Le (totals env reservations usage now)) :
    Fits env reservations' usage' now' h := by
  constructor
  · apply lt_of_le_of_lt _ hfits.1
    exact add_le_add (add_le_add hle.tokensToday hle.reservedTokens) (le_refl _)
  · apply lt_of_le_of_lt _ hfits.2
    exact add_le_add (add_le_add hle.costMonth hle.reservedCost) (le_refl _)

/-- Rewriting reservations row by row, and letting time pass, lowers the totals where no
row comes to count and no estimate changes. -/
theorem totalsWhere_le {env : LedgerEnv} {p q : ReservationRow → Prop} [DecidablePred p]
    [DecidablePred q] {reservations reservations' : ReservationTable} {usage : List UsageRow}
    {now now' : Time} {κ : Type} {rows : List κ} {g k : κ → ReservationRow}
    (hrows : reservations'.rows = rows.map g) (hrows' : reservations.rows = rows.map k)
    (hnow : now ≤ now') (hcounts : ∀ r ∈ rows, q (g r) → p (k r))
    (htokens : ∀ r, (g r).estimatedTokens = (k r).estimatedTokens)
    (hcost : ∀ r, (g r).estimatedCostUsd = (k r).estimatedCostUsd) :
    (totalsWhere env q reservations' usage now').Le (totalsWhere env p reservations usage now) where
  tokensToday := by
    apply sumWhere_le UsageRow.totalTokens_nonneg
    intro u _ hu
    exact le_trans (env.calendar.dayStart_mono hnow) hu
  costMonth := by
    apply sumWhere_le (fun u => u.cost_nonneg)
    intro u _ hu
    exact le_trans (env.calendar.monthStart_mono hnow) hu
  reservedTokens := by
    show sumWhere _ _ reservations'.rows ≤ sumWhere _ _ reservations.rows
    rw [hrows, hrows']
    apply sumWhere_map_le (fun r => r.estimate_nonneg.1)
    intro r hr hq
    exact ⟨hcounts r hr hq, le_of_eq (htokens r)⟩
  reservedCost := by
    show sumWhere _ _ reservations'.rows ≤ sumWhere _ _ reservations.rows
    rw [hrows, hrows']
    apply sumWhere_map_le (fun r => r.estimate_nonneg.2)
    intro r hr hq
    exact ⟨hcounts r hr hq, le_of_eq (hcost r)⟩

/-- One UPDATE that keeps the estimates, and time. -/
theorem totalsWhere_updateWhere_le {env : LedgerEnv} {p q : ReservationRow → Prop} [DecidablePred p]
    [DecidablePred q] {reservations : ReservationTable} {usage : List UsageRow} {now now' : Time}
    {c : ReservationRow → Prop} [DecidablePred c] {f : ReservationRow → ReservationRow}
    (hf : ∀ r, (f r).id = r.id) (hnow : now ≤ now')
    (hcounts : ∀ r ∈ reservations.rows, q (Table.rewrite c f r) → p r)
    (htokens : ∀ r, (f r).estimatedTokens = r.estimatedTokens)
    (hcost : ∀ r, (f r).estimatedCostUsd = r.estimatedCostUsd) :
    (totalsWhere env q (reservations.updateWhere c f hf) usage now').Le
      (totalsWhere env p reservations usage now) :=
  totalsWhere_le rfl (List.map_id reservations.rows).symm hnow hcounts (Table.key_rewrite htokens)
    (Table.key_rewrite hcost)

/-- The rows to expire did not count anyway. -/
theorem totals_le_markExpired {env : LedgerEnv} {reservations : ReservationTable}
    {usage : List UsageRow} {now : Time} {ids : List Uuid} (hmarked : Marked reservations now ids) :
    (totals env reservations usage now).Le
      (totals env (markExpired reservations ids) usage now) := by
  apply totalsWhere_le (List.map_id reservations.rows).symm rfl (le_refl now)
  · intro r hr hl
    have hkeep : r.id ∉ ids := by
      intro hmem
      exact absurd (hmarked r hr hmem).2 (not_le.mpr hl.2)
    rw [Table.rewrite, if_neg hkeep]
    exact hl
  · intro r
    exact (Table.key_rewrite (f := expireRow) (fun _ => rfl) r).symm
  · intro r
    exact (Table.key_rewrite (f := expireRow) (fun _ => rfl) r).symm

theorem totals_release_le {env : LedgerEnv} {reservations : ReservationTable}
    {usage : List UsageRow} {now start : Time} {id : Uuid} {reason : String} :
    (totals env (release reservations start id reason) usage now).Le
      (totals env reservations usage now) := by
  apply totalsWhere_updateWhere_le (p := live now) (q := live now) (f := releaseRow start reason)
    (c := fun r => r.id = id ∧ r.status = .reserved) (fun _ => rfl) (le_refl now) _ (fun _ => rfl)
    (fun _ => rfl)
  intro r _ hl
  unfold Table.rewrite at hl
  split at hl
  · cases hl.1
  · exact hl

/-! ## Every step keeps them -/

theorem marked_expirableIds (reservations : ReservationTable) (now : Time) :
    Marked reservations now (expirableIds reservations now) := by
  intro r hr hmem
  obtain ⟨r', hr', hid⟩ := List.mem_map.mp hmem
  obtain ⟨hrow, hexpirable⟩ := List.mem_filter.mp hr'
  rw [← Table.eq_of_key hrow hr hid]
  exact of_decide_eq_true hexpirable

/-- The rows of the table after a release that a call has not written are as before. -/
theorem mem_release {reservations : ReservationTable} {now : Time} {id : Uuid} {reason : String}
    {r' : ReservationRow} (h : r' ∈ (release reservations now id reason).rows) :
    (r' ∈ reservations.rows ∧ ¬ (r'.id = id ∧ r'.status = .reserved)) ∨
      ∃ r ∈ reservations.rows, (r.id = id ∧ r.status = .reserved) ∧ r' = releaseRow now reason r :=
  Table.mem_updateWhere (f := releaseRow now reason) (fun _ => rfl) h

theorem marked_release {reservations : ReservationTable} {now start : Time} {id : Uuid}
    {reason : String} {ids : List Uuid} (h : Marked reservations now ids) (hfree : id ∉ ids) :
    Marked (release reservations start id reason) now ids := by
  intro r' hr' hmem
  rcases mem_release hr' with ⟨hr, -⟩ | ⟨r, hr, ⟨hid, -⟩, rfl⟩
  · exact h r' hr hmem
  · exact absurd (hid ▸ hmem) hfree

theorem txnOk_release {env : LedgerEnv} {s : LedgerState} {n : Nat} {x : Txn} {id : Uuid}
    {reason : String} {now : Time} (h : TxnOk env s n x)
    (hfree : s.holder = some n → id ∉ x.written) :
    TxnOk env { s with reservations := release s.reservations now id reason } n x := by
  cases x with
  | unused => trivial
  | reserveEnded r => trivial
  | settleEnded outcome => trivial
  | reserveBegun now h' => exact h
  | settleBegun now id record => exact h
  | reserveLocked now h' => exact h
  | settleLocked now id record => exact h
  | expired now h' ids => exact ⟨h.1, h.2.1, marked_release h.2.2 (hfree h.2.1)⟩
  | reserved now h' ids row =>
    obtain ⟨hnow, hlock, hmarked, hrow, hfits⟩ := h
    exact ⟨hnow, hlock, marked_release hmarked (hfree hlock), hrow, hfits.of_le totals_release_le⟩
  | settled now id' record c =>
    obtain ⟨hnow, hlock, hcharge, r, hr, hid, hopen⟩ := h
    have hne : ¬ (r.id = id ∧ r.status = .reserved) := by
      rintro ⟨hsame, -⟩
      exact hfree hlock (List.mem_singleton.mpr (hsame.symm.trans hid))
    refine ⟨hnow, hlock, hcharge, r, List.mem_map.mpr ⟨r, hr, ?_⟩, hid, hopen⟩
    rw [Table.rewrite, if_neg hne]

theorem ledgerInv_step {env : LedgerEnv} {s t : LedgerState} {a : LedgerAct}
    (hinv : LedgerInv env s) (hmove : LedgerMove env s t a) : LedgerInv env t := by
  cases hmove with
  | tick now hnow ht =>
    subst ht
    intro n
    exact txnOk_frame (hinv n) hnow rfl rfl id
  | beginReserve n q h hn ht =>
    subst ht
    exact ledgerInv_setTxn hinv (le_refl _) rfl rfl rfl (fun _ _ h => h) (le_refl s.clock)
  | beginSettle n b id record hn ht =>
    subst ht
    exact ledgerInv_setTxn hinv (le_refl _) rfl rfl rfl (fun _ _ h => h) (le_refl s.clock)
  | lockReserve n now h hfree hn ht =>
    subst ht
    have hnow := hinv n
    rw [hn] at hnow
    refine ledgerInv_setTxn hinv (le_refl _) rfl rfl rfl ?_ ⟨hnow, rfl⟩
    intro m _ hm
    rw [hfree] at hm
    cases hm
  | lockSettle n now id record hfree hn ht =>
    subst ht
    have hnow := hinv n
    rw [hn] at hnow
    refine ledgerInv_setTxn hinv (le_refl _) rfl rfl rfl ?_ ⟨hnow, rfl⟩
    intro m _ hm
    rw [hfree] at hm
    cases hm
  | expire n now h hn ht =>
    subst ht
    have hlocked := hinv n
    rw [hn] at hlocked
    exact ledgerInv_setTxn hinv (le_refl _) rfl rfl rfl (fun _ _ h => h)
      ⟨hlocked.1, hlocked.2, marked_expirableIds s.reservations now⟩
  | check n now h ids id hn hfits ht =>
    subst ht
    have hmarked := hinv n
    rw [hn] at hmarked
    refine ledgerInv_setTxn hinv (le_refl _) rfl rfl rfl (fun _ _ h => h)
      ⟨hmarked.1, hmarked.2.1, hmarked.2.2, ⟨id, rfl⟩, ?_⟩
    exact hfits.of_le (totals_le_markExpired hmarked.2.2)
  | transition n now id record c r hn hr hid hopen hc ht =>
    subst ht
    have hlocked := hinv n
    rw [hn] at hlocked
    exact ledgerInv_setTxn hinv (le_refl _) rfl rfl rfl (fun _ _ h => h)
      ⟨hlocked.1, hlocked.2, hc, r, hr, hid, hopen⟩
  | close n x hx ht =>
    subst ht
    exact ledgerInv_setTxn hinv (le_refl _) rfl rfl rfl (fun _ => holder_endTxn) (txnOk_of_spent hx)
  | commitReserve n now h ids row reservations' hn hfresh hrows ht =>
    subst ht
    have hlocked := hinv n
    rw [hn] at hlocked
    exact ledgerInv_commit hinv (le_refl _) hlocked.2.1 rfl trivial
  | commitSettle n now id record c u hn hu ht =>
    subst ht
    have hlocked := hinv n
    rw [hn] at hlocked
    exact ledgerInv_commit hinv (le_refl _) hlocked.2.1 rfl trivial
  | released b id reason now hfree ht =>
    subst ht
    intro n
    exact txnOk_release (hinv n) (hfree n)
  | idle ht =>
    subst ht
    exact hinv

theorem ledgerInv_reaches {env : LedgerEnv} {clock : Time} {acts : List LedgerAct} {s : LedgerState}
    (h : Reaches (ledgerStep env) (.initial clock) acts s) : LedgerInv env s :=
  h.invariant (fun _ _ _ hinv hstep => ledgerInv_step hinv (ledgerStep_move hstep))
    (ledgerInv_initial env clock)

end AgenticPlatform.Observability
