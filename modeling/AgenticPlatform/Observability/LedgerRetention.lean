import AgenticPlatform.Foundation.Pruning
import AgenticPlatform.Observability.BudgetCeiling

/-!
# The ledger under retention

The retention pass deletes old usage and old reservations that are no longer reserved, while
calls are under way, with a reservation or without. Beside it runs the ledger that keeps
everything: as long as no call names a reservation that is gone, and none stays open for a
day, the two answer every call alike and charge the same.
-/
namespace AgenticPlatform.Observability
open AgenticPlatform.Foundation AgenticPlatform.Identity AgenticPlatform.Db

/-! ## Charges without a reservation -/

inductive SpendAct where
  | ledger (a : LedgerAct)
  /-- `record`, and `settle` of a call without a reservation; the transaction began then. -/
  | record (usage : UsageRecord) (now : Time)

/-- A row that a CHECK refuses is logged and dropped; one that is lost on the way is no step. -/
def spendStep (env : LedgerEnv) (s : LedgerState) : SpendAct → Option LedgerState
  | .ledger a => ledgerStep env s a
  | .record usage now => if s.clock < now then none
    else some { s with usage := s.usage ++ (usageRow env now usage).toList }

/-! ## The pass -/

/-- `usage_ledger_retention_days` and `terminal_run_retention_days`. -/
structure RetentionDays where
  usage : Nat
  runs : Nat
  usage_bounds : 365 ≤ usage ∧ usage ≤ 3650
  runs_bounds : 7 ≤ runs ∧ runs ≤ 3650

/-- WHERE of the DELETE from `budget_reservation`. -/
def removable (days : RetentionDays) (now : Time) (r : ReservationRow) : Prop :=
  (r.status = .settled ∨ r.status = .released ∨ r.status = .expired) ∧
    r.createdAt < now - 86400 * days.runs

instance (days : RetentionDays) (now : Time) : DecidablePred (removable days now) :=
  fun _ => inferInstanceAs (Decidable (_ ∧ _))

def removableIds (days : RetentionDays) (now : Time) (reservations : ReservationTable) :
    List Uuid :=
  (reservations.rows.filter (fun r => removable days now r)).map ReservationRow.id

/-- `platform_enforce_retention`, as far as it concerns the ledger. -/
def enforceRetention (days : RetentionDays) (now : Time) (s : LedgerState) : LedgerState :=
  { s with
    reservations := s.reservations.deleteWhere (removable days now)
    usage := s.usage.filter (fun u => ¬ u.recordedAt < now - 86400 * days.usage) }

structure RetainedState where
  ledger : LedgerState
  /-- The reservations that are deleted. -/
  gone : List Uuid
  /-- The calls that have begun. -/
  calls : List Nat

def RetainedState.start (clock : Time) : RetainedState := ⟨.initial clock, [], []⟩

/-- The call that begins. -/
def LedgerAct.begins : LedgerAct → List Nat
  | .beginReserve n _ | .beginSettle n _ _ => [n]
  | _ => []

def SpendAct.begins : SpendAct → List Nat
  | .ledger a => a.begins
  | .record _ _ => []

inductive RetainAct where
  | spend (a : SpendAct)
  /-- A pass whose transaction began then. -/
  | retain (now : Time)

/-- What the ledger that keeps everything does. -/
def RetainAct.spendAct : RetainAct → Option SpendAct
  | .spend a => some a
  | .retain _ => none

section
variable (env : LedgerEnv) (days : RetentionDays)

def retainedStep (s : RetainedState) : RetainAct → Option RetainedState
  | .spend a => (spendStep env s.ledger a).map (fun ledger => ⟨ledger, s.gone, a.begins ++ s.calls⟩)
  | .retain now =>
    -- the DELETE waits for a row that an open transaction has written
    if s.ledger.clock < now ∨ ∃ n ∈ s.ledger.holder,
      ∃ id ∈ removableIds days now s.ledger.reservations, id ∈ (s.ledger.txns n).written then none
    else some ⟨enforceRetention days now s.ledger,
      s.gone ++ removableIds days now s.ledger.reservations, s.calls⟩

/-! ## Calls in time -/

/-- When an open transaction began. -/
def Txn.start : Txn → Option Time
  | .reserveBegun now _ | .reserveLocked now _ | .expired now _ _ | .reserved now _ _ _ => some now
  | .settleBegun now _ _ | .settleLocked now _ _ | .settled now _ _ _ => some now
  | .unused | .reserveEnded _ | .settleEnded _ => none

/-- The reservation an open transaction is about to insert or to settle. -/
def Txn.names : Txn → Option Uuid
  | .reserved _ _ _ row => some row.id
  | .settleBegun _ id _ | .settleLocked _ id _ | .settled _ id _ _ => some id
  | _ => none

/-- A new id is new, nobody settles what is gone, and no transaction is open for a day, or names
what is about to go. -/
def Timely (s : RetainedState) : RetainAct → Prop
  | .spend (.ledger (.check _ id)) => id ∉ s.gone
  | .spend (.ledger (.beginSettle _ reservation _)) => ∀ id ∈ reservation.id, id ∉ s.gone
  | .spend _ => True
  | .retain now => ∀ n ∈ s.calls,
    (∀ start ∈ (s.ledger.txns n).start, s.ledger.clock ≤ start + 86400) ∧
    ∀ id ∈ (s.ledger.txns n).names, id ∉ removableIds days now s.ledger.reservations

instance (s : RetainedState) : (a : RetainAct) → Decidable (Timely days s a)
  | .spend (.ledger (.check _ id)) => inferInstanceAs (Decidable (id ∉ s.gone))
  | .spend (.ledger (.beginSettle _ reservation _)) =>
    inferInstanceAs (Decidable (∀ id ∈ reservation.id, id ∉ s.gone))
  | .spend (.ledger (.tick _)) | .spend (.ledger (.beginReserve ..)) | .spend (.ledger (.lock _))
  | .spend (.ledger (.expire _)) | .spend (.ledger (.transition _)) | .spend (.ledger (.commit _))
  | .spend (.ledger (.abort _)) | .spend (.ledger (.release ..)) | .spend (.record ..) =>
    isTrue trivial
  | .retain now =>
    inferInstanceAs (Decidable (∀ n ∈ s.calls, (∀ start ∈ (s.ledger.txns n).start, _) ∧
      ∀ id ∈ (s.ledger.txns n).names, id ∉ removableIds days now s.ledger.reservations))

/-- No day and no month is longer than 32 days. -/
def ShortMonths (calendar : Calendar) : Prop :=
  ∀ t, t - 86400 * 32 ≤ calendar.dayStart t ∧ t - 86400 * 32 ≤ calendar.monthStart t

end

/-! ## Beside the ledger that keeps everything -/

/-- The same calls over other tables. -/
def LedgerState.withTables (s : LedgerState) (reservations : ReservationTable)
    (usage : List UsageRow) : LedgerState :=
  { s with reservations := reservations, usage := usage }

/-- Past the horizon nothing is missing, and no transaction looks before it. -/
structure SeesFrom (env : LedgerEnv) (horizon : Time) (s : LedgerState) (usage : List UsageRow) :
    Prop where
  usage : s.usage.filter (fun u => horizon ≤ u.recordedAt) =
    usage.filter (fun u => horizon ≤ u.recordedAt)
  now : horizon ≤ env.calendar.dayStart s.clock ∧ horizon ≤ env.calendar.monthStart s.clock
  started : ∀ n, ∀ start ∈ (s.txns n).start, horizon ≤ env.calendar.dayStart start ∧
    horizon ≤ env.calendar.monthStart start

/-- The ledger is the other one without closed reservations and old usage. -/
structure Trimmed (env : LedgerEnv) (s : RetainedState) (reservations : ReservationTable)
    (usage : List UsageRow) : Prop where
  reservations : Pruned (fun r => r.status ≠ .reserved) s.gone s.ledger.reservations reservations
  sees : ∃ horizon, SeesFrom env horizon s.ledger usage
  names : ∀ n, ∀ id ∈ (s.ledger.txns n).names, id ∉ s.gone

section
variable {env : LedgerEnv} {days : RetentionDays} {s : RetainedState}
  {reservations : ReservationTable} {usage : List UsageRow}

/-! ### What a call reads -/

theorem Trimmed.expirableIds (h : Trimmed env s reservations usage) (now : Time) :
    Observability.expirableIds s.ledger.reservations now =
      Observability.expirableIds reservations now := by
  unfold Observability.expirableIds
  rw [h.reservations.filter (fun r hr hexpirable => hr hexpirable.1)]

theorem pruned_markExpired {gone : List Uuid} {kept whole : ReservationTable}
    (h : Pruned (fun r => r.status ≠ .reserved) gone kept whole) (ids : List Uuid) :
    Pruned (fun r => r.status ≠ .reserved) gone (markExpired kept ids) (markExpired whole ids) :=
  h.updateWhere (f := expireRow) (fun _ => rfl) (fun _ _ _ _ => (by rintro ⟨⟩))

/-- Both ledgers add up to the same, as of any transaction that may look. -/
theorem totals_eq {gone : List Uuid} {kept whole : ReservationTable} {horizon now : Time}
    {seen : List UsageRow} (h : Pruned (fun r => r.status ≠ .reserved) gone kept whole)
    (husage : seen.filter (fun u => horizon ≤ u.recordedAt) =
      usage.filter (fun u => horizon ≤ u.recordedAt))
    (hnow : horizon ≤ env.calendar.dayStart now ∧ horizon ≤ env.calendar.monthStart now) :
    totals env kept seen now = totals env whole usage now := by
  have hlive : ∀ r : ReservationRow, r.status ≠ .reserved → ¬ live now r :=
    fun r hr hlive => hr hlive.1
  unfold totals
  rw [sumWhere_of_filter husage (fun u hu => hnow.1.trans hu),
    sumWhere_of_filter husage (fun u hu => hnow.2.trans hu), h.sumWhere hlive, h.sumWhere hlive]

/-! ### What a step leaves -/

/-- A transaction goes on. -/
theorem Trimmed.txn (h : Trimmed env s reservations usage) {ledger : LedgerState} {n : Nat}
    {x : Txn} (htxns : ledger.txns = Function.update s.ledger.txns n x)
    (hclock : ledger.clock = s.ledger.clock)
    (htables : ledger.reservations = s.ledger.reservations ∧ ledger.usage = s.ledger.usage)
    (hstart : ∀ start ∈ x.start, start = s.ledger.clock ∨ start ∈ (s.ledger.txns n).start)
    (hnames : ∀ id ∈ x.names, id ∉ s.gone) :
    Trimmed env { s with ledger := ledger } reservations usage where
  reservations := htables.1 ▸ h.reservations
  sees := by
    obtain ⟨horizon, hsees⟩ := h.sees
    refine ⟨horizon, htables.2 ▸ hsees.usage, hclock ▸ hsees.now, ?_⟩
    intro m start hm
    simp only [htxns] at hm
    by_cases hmn : m = n
    · subst hmn
      rw [Function.update_self] at hm
      rcases hstart start hm with rfl | hold
      · exact hsees.now
      · exact hsees.started m start hold
    · rw [Function.update_of_ne hmn] at hm
      exact hsees.started m start hm
  names := by
    intro m id hm
    simp only [htxns] at hm
    by_cases hmn : m = n
    · subst hmn
      rw [Function.update_self] at hm
      exact hnames id hm
    · rw [Function.update_of_ne hmn] at hm
      exact h.names m id hm

/-- A transaction ends. -/
theorem Trimmed.endTxn (h : Trimmed env s reservations usage) (n : Nat) {x : Txn}
    (hstart : x.start = none) (hnames : x.names = none) :
    Trimmed env { s with ledger := s.ledger.endTxn n x } reservations usage := by
  refine h.txn rfl rfl ⟨rfl, rfl⟩ ?_ ?_
  · intro start hx
    rw [hstart] at hx
    cases hx
  · intro id hx
    rw [hnames] at hx
    cases hx

/-- The tables of a ledger change alike, with the transaction that changes them. -/
theorem Trimmed.commit (h : Trimmed env s reservations usage) (n : Nat) {x : Txn}
    (hstart : x.start = none) (hnames : x.names = none) {kept whole : ReservationTable}
    {new : List UsageRow} (hpruned : Pruned (fun r => r.status ≠ .reserved) s.gone kept whole)
    (settlements : List (Uuid × UsageRow)) : Trimmed env { s with ledger :=
      { s.ledger.endTxn n x with
        reservations := kept, usage := s.ledger.usage ++ new, settlements := settlements } }
      whole (usage ++ new) where
  reservations := hpruned
  sees := by
    obtain ⟨horizon, hsees⟩ := (h.endTxn n hstart hnames).sees
    refine ⟨horizon, ?_, hsees.now, hsees.started⟩
    have hold : s.ledger.usage.filter (fun u => horizon ≤ u.recordedAt) =
        usage.filter (fun u => horizon ≤ u.recordedAt) :=
      hsees.usage
    rw [List.filter_append, List.filter_append, hold]
  names := (h.endTxn n hstart hnames).names

/-- The tables of reservations change alike. -/
theorem Trimmed.withReservations (h : Trimmed env s reservations usage)
    {kept whole : ReservationTable}
    (hpruned : Pruned (fun r => r.status ≠ .reserved) s.gone kept whole) :
    Trimmed env { s with ledger := { s.ledger with reservations := kept } } whole usage where
  reservations := hpruned
  sees := by
    obtain ⟨horizon, hsees⟩ := h.sees
    exact ⟨horizon, hsees.usage, hsees.now, hsees.started⟩
  names := h.names

/-! ### Every step -/

/-- The other ledger follows. -/
def Follows (env : LedgerEnv) (s : RetainedState) (reservations : ReservationTable)
    (usage : List UsageRow) (a : LedgerAct) (ledger : LedgerState) : Prop :=
  ∃ reservations' usage', ledgerStep env (s.ledger.withTables reservations usage) a =
    some (ledger.withTables reservations' usage') ∧
    Trimmed env { s with ledger := ledger } reservations' usage'

theorem follows_tick (h : Trimmed env s reservations usage) {now : Time} {ledger : LedgerState}
    (hstep : ledgerStep env s.ledger (.tick now) = some ledger) :
    Follows env s reservations usage (.tick now) ledger := by
  simp only [ledgerStep] at hstep
  split at hstep
  · rename_i hle
    cases hstep
    refine ⟨reservations, usage, if_pos hle, h.reservations, ?_, h.names⟩
    obtain ⟨horizon, hsees⟩ := h.sees
    exact ⟨horizon, hsees.usage, ⟨hsees.now.1.trans (env.calendar.dayStart_mono hle),
      hsees.now.2.trans (env.calendar.monthStart_mono hle)⟩, hsees.started⟩
  · cases hstep

theorem checkHold_withTables {ledger : LedgerState} {n : Nat} {now : Time} {hold : Hold}
    {ids : List Uuid} (id : Uuid)
    (h : totals env (markExpired ledger.reservations ids) ledger.usage now =
      totals env (markExpired reservations ids) usage now) :
    checkHold env (ledger.withTables reservations usage) n now hold ids id =
      (checkHold env ledger n now hold ids id).withTables reservations usage := by
  have htotals : totals env (markExpired (ledger.withTables reservations usage).reservations ids)
      (ledger.withTables reservations usage).usage now =
      totals env (markExpired ledger.reservations ids) ledger.usage now :=
    h.symm
  unfold checkHold
  rw [htotals]
  simp only
  split <;> rfl

theorem transitionRow_withTables {ledger : LedgerState} {n : Nat} {now : Time} {id : Uuid}
    {record : UsageRecord} (h : ledger.reservations.get id = reservations.get id) :
    transitionRow (ledger.withTables reservations usage) n now id record =
      (transitionRow ledger n now id record).withTables reservations usage := by
  have hget : (ledger.withTables reservations usage).reservations.get id =
      ledger.reservations.get id := h.symm
  unfold transitionRow unsettled
  rw [hget]
  split
  · rfl
  · split <;> rfl

theorem follows_check (h : Trimmed env s reservations usage) {n : Nat} {id : Uuid}
    (hid : id ∉ s.gone) {ledger : LedgerState}
    (hstep : ledgerStep env s.ledger (.check n id) = some ledger) :
    Follows env s reservations usage (.check n id) ledger := by
  simp only [ledgerStep] at hstep
  split at hstep
  · rename_i now hold ids hn
    cases hstep
    obtain ⟨horizon, hsees⟩ := h.sees
    have hnow := hsees.started n now (by rw [hn]; rfl)
    have htotals : totals env (markExpired s.ledger.reservations ids) s.ledger.usage now =
        totals env (markExpired reservations ids) usage now :=
      totals_eq (pruned_markExpired h.reservations ids) hsees.usage hnow
    have hother : ledgerStep env (s.ledger.withTables reservations usage) (.check n id) =
        some (checkHold env (s.ledger.withTables reservations usage) n now hold ids id) := by
      simp only [ledgerStep, LedgerState.withTables, hn]
    refine ⟨reservations, usage, hother.trans (congrArg some (checkHold_withTables id htotals)), ?_⟩
    · unfold checkHold
      simp only
      split
      · exact h.endTxn n rfl rfl
      · refine h.txn rfl rfl ⟨rfl, rfl⟩ ?_ ?_
        · rintro start ⟨⟩
          exact Or.inr (by rw [hn]; rfl)
        · rintro id' ⟨⟩
          exact hid
  · cases hstep

theorem follows_transition (h : Trimmed env s reservations usage) {n : Nat} {ledger : LedgerState}
    (hstep : ledgerStep env s.ledger (.transition n) = some ledger) :
    Follows env s reservations usage (.transition n) ledger := by
  simp only [ledgerStep] at hstep
  split at hstep
  · rename_i now id record hn
    cases hstep
    have hid : id ∉ s.gone := h.names n id (by rw [hn]; rfl)
    have hget := h.reservations.get hid
    have hother : ledgerStep env (s.ledger.withTables reservations usage) (.transition n) =
        some (transitionRow (s.ledger.withTables reservations usage) n now id record) := by
      simp only [ledgerStep, LedgerState.withTables, hn]
    refine ⟨reservations, usage, hother.trans (congrArg some (transitionRow_withTables hget)), ?_⟩
    · unfold transitionRow
      split
      · exact h.endTxn n rfl rfl
      · split
        · exact h.endTxn n rfl rfl
        · refine h.txn rfl rfl ⟨rfl, rfl⟩ ?_ ?_
          · rintro start ⟨⟩
            exact Or.inr (by rw [hn]; rfl)
          · rintro id' ⟨⟩
            exact hid
  · cases hstep

theorem follows_commit (h : Trimmed env s reservations usage) {n : Nat} {ledger : LedgerState}
    (hstep : ledgerStep env s.ledger (.commit n) = some ledger) :
    Follows env s reservations usage (.commit n) ledger := by
  simp only [ledgerStep] at hstep
  split at hstep
  · rename_i now hold ids row hn
    obtain ⟨kept, hinsert, rfl⟩ := Option.map_eq_some_iff.mp hstep
    have hid : row.id ∉ s.gone := h.names n row.id (by rw [hn]; rfl)
    obtain ⟨whole, hwhole, hpruned⟩ := (pruned_markExpired h.reservations ids).tryInsert hid hinsert
    refine ⟨whole, usage, ?_,
      (h.endTxn n (x := .reserveEnded (.ok (granted env hold row.id))) rfl rfl).withReservations
      hpruned⟩
    simp only [ledgerStep, LedgerState.withTables, hn, commitReserve, hwhole]
    rfl
  · rename_i now id record c hn
    cases hstep
    have hother : ledgerStep env (s.ledger.withTables reservations usage) (.commit n) =
        some (commitSettle env (s.ledger.withTables reservations usage) n now id record c) := by
      simp only [ledgerStep, LedgerState.withTables, hn]
    unfold commitSettle at hother ⊢
    split
    · rename_i hnone
      rw [hnone] at hother
      exact ⟨reservations, usage, hother, h.endTxn n rfl rfl⟩
    · rename_i u hu
      rw [hu] at hother
      refine ⟨_, _, hother, ?_⟩
      exact h.commit n rfl rfl (h.reservations.updateWhere (f := settleRow now c) (fun _ => rfl)
        (fun _ _ _ _ => (by rintro ⟨⟩))) _
  · cases hstep

/-- A transaction goes on, and its tables are not touched. -/
theorem Trimmed.follows_txn (h : Trimmed env s reservations usage) {a : LedgerAct}
    {ledger : LedgerState} {n : Nat} {x : Txn}
    (hother : ledgerStep env (s.ledger.withTables reservations usage) a =
      some (ledger.withTables reservations usage))
    (htxns : ledger.txns = Function.update s.ledger.txns n x)
    (hclock : ledger.clock = s.ledger.clock)
    (htables : ledger.reservations = s.ledger.reservations ∧ ledger.usage = s.ledger.usage)
    (hstart : ∀ start ∈ x.start, start = s.ledger.clock ∨ start ∈ (s.ledger.txns n).start)
    (hnames : ∀ id ∈ x.names, id ∉ s.gone) : Follows env s reservations usage a ledger :=
  ⟨reservations, usage, hother, h.txn htxns hclock htables hstart hnames⟩

/-- Whatever the ledger does in time, the other does. -/
theorem ledgerStep_follows (h : Trimmed env s reservations usage) {a : LedgerAct}
    (htimely : Timely days s (.spend (.ledger a))) {ledger : LedgerState}
    (hstep : ledgerStep env s.ledger a = some ledger) :
    Follows env s reservations usage a ledger := by
  cases a with
  | tick now => exact follows_tick h hstep
  | beginReserve n q =>
    simp only [ledgerStep] at hstep
    split at hstep
    · rename_i hn
      split at hstep
      · rename_i hq
        cases hstep
        exact ⟨reservations, usage,
          by simp only [ledgerStep, LedgerState.withTables, hn, hq]; rfl, h.endTxn n rfl rfl⟩
      · rename_i hold hq
        cases hstep
        refine h.follows_txn (by simp only [ledgerStep, LedgerState.withTables, hn, hq]; rfl) rfl
          rfl ⟨rfl, rfl⟩ ?_ ?_
        · rintro start ⟨⟩
          exact Or.inl rfl
        · rintro id ⟨⟩
    · cases hstep
  | beginSettle n reservation record =>
    simp only [ledgerStep] at hstep
    split at hstep
    · rename_i id hn hid
      cases hstep
      refine h.follows_txn (by simp only [ledgerStep, LedgerState.withTables, hn, hid]; rfl) rfl rfl
        ⟨rfl, rfl⟩ ?_ ?_
      · rintro start ⟨⟩
        exact Or.inl rfl
      · rintro id' ⟨⟩
        exact htimely id hid
    · cases hstep
  | lock n =>
    simp only [ledgerStep] at hstep
    split at hstep
    · rename_i now hold hfree hn
      cases hstep
      refine h.follows_txn (by simp only [ledgerStep, LedgerState.withTables, hn, hfree]; rfl) rfl
        rfl ⟨rfl, rfl⟩ ?_ ?_
      · rintro start ⟨⟩
        exact Or.inr (by rw [hn]; rfl)
      · rintro id ⟨⟩
    · rename_i now id record hfree hn
      cases hstep
      refine h.follows_txn (by simp only [ledgerStep, LedgerState.withTables, hn, hfree]; rfl) rfl
        rfl ⟨rfl, rfl⟩ ?_ ?_
      · rintro start ⟨⟩
        exact Or.inr (by rw [hn]; rfl)
      · rintro id' ⟨⟩
        exact h.names n id (by rw [hn]; rfl)
    · cases hstep
  | expire n =>
    simp only [ledgerStep] at hstep
    split at hstep
    · rename_i now hold hn
      cases hstep
      refine h.follows_txn
        (by simp only [ledgerStep, LedgerState.withTables, hn, h.expirableIds now]; rfl) rfl rfl
        ⟨rfl, rfl⟩ ?_ ?_
      · rintro start ⟨⟩
        exact Or.inr (by rw [hn]; rfl)
      · rintro id ⟨⟩
    · cases hstep
  | check n id => exact follows_check h htimely hstep
  | transition n => exact follows_transition h hstep
  | commit n => exact follows_commit h hstep
  | abort n =>
    simp only [ledgerStep] at hstep
    split at hstep
    all_goals first
      | cases hstep; done
      | rename_i hn
        cases hstep
        exact ⟨reservations, usage,
          by simp only [ledgerStep, LedgerState.withTables, hn]; rfl, h.endTxn n rfl rfl⟩
  | release reservation reason now =>
    simp only [ledgerStep] at hstep
    split at hstep
    · rename_i hid
      cases hstep
      exact ⟨reservations, usage, by simp only [ledgerStep, hid], h⟩
    · rename_i id hid
      split at hstep
      · cases hstep
      · rename_i hfree
        cases hstep
        refine ⟨release reservations now id reason, usage, ?_, ?_⟩
        · simp only [ledgerStep, hid]
          exact if_neg hfree
        · exact h.withReservations
            (h.reservations.updateWhere (f := releaseRow now reason) (fun _ => rfl)
              (fun _ _ _ _ => (by rintro ⟨⟩)))

/-- A charge without a reservation is added to both. -/
theorem follows_record (h : Trimmed env s reservations usage) {record : UsageRecord} {now : Time}
    {ledger : LedgerState} (hstep : spendStep env s.ledger (.record record now) = some ledger) :
    ∃ usage', spendStep env (s.ledger.withTables reservations usage) (.record record now) =
      some (ledger.withTables reservations usage') ∧
      Trimmed env { s with ledger := ledger } reservations usage' := by
  simp only [spendStep] at hstep
  split at hstep
  · cases hstep
  · rename_i hbegan
    cases hstep
    refine ⟨usage ++ (usageRow env now record).toList, if_neg hbegan, h.reservations, ?_, h.names⟩
    obtain ⟨horizon, hsees⟩ := h.sees
    refine ⟨horizon, ?_, hsees.now, hsees.started⟩
    simp only [List.filter_append, hsees.usage]

/-- The calls that are not unused have begun. -/
def Begun (s : RetainedState) : Prop := ∀ n, s.ledger.txns n ≠ .unused → n ∈ s.calls

/-- The transaction that goes on has begun. -/
theorem Begun.update (h : Begun s) {ledger : LedgerState} {n : Nat} {x : Txn} {calls : List Nat}
    (htxns : ledger.txns = Function.update s.ledger.txns n x) (hn : n ∈ calls ++ s.calls) :
    Begun ⟨ledger, s.gone, calls ++ s.calls⟩ := by
  intro m hm
  simp only [htxns] at hm
  by_cases hmn : m = n
  · exact hmn ▸ hn
  · rw [Function.update_of_ne hmn] at hm
    exact List.mem_append_right calls (h m hm)

/-- A transaction that is not unused goes on. -/
theorem Begun.goes_on (h : Begun s) {ledger : LedgerState} {n : Nat} {x y : Txn}
    (hn : s.ledger.txns n = x) (hx : x ≠ .unused)
    (htxns : ledger.txns = Function.update s.ledger.txns n y) :
    Begun ⟨ledger, s.gone, s.calls⟩ := by
  have hmem : n ∈ [] ++ s.calls := h n (hn ▸ hx)
  exact h.update htxns hmem

theorem begun_step {a : LedgerAct} {ledger : LedgerState} (h : Begun s)
    (hstep : ledgerStep env s.ledger a = some ledger) :
    Begun ⟨ledger, s.gone, a.begins ++ s.calls⟩ := by
  cases a with
  | tick now =>
    simp only [ledgerStep] at hstep
    split at hstep
    · cases hstep
      exact h
    · cases hstep
  | beginReserve n q =>
    simp only [ledgerStep] at hstep
    split at hstep
    · split at hstep
      all_goals
        cases hstep
        exact h.update rfl (List.mem_append_left _ List.mem_cons_self)
    · cases hstep
  | beginSettle n reservation record =>
    simp only [ledgerStep] at hstep
    split at hstep
    · cases hstep
      exact h.update rfl (List.mem_append_left _ List.mem_cons_self)
    · cases hstep
  | lock n =>
    simp only [ledgerStep] at hstep
    split at hstep
    · rename_i hn
      cases hstep
      exact h.goes_on hn (by simp) rfl
    · rename_i hn
      cases hstep
      exact h.goes_on hn (by simp) rfl
    · cases hstep
  | expire n =>
    simp only [ledgerStep] at hstep
    split at hstep
    · rename_i hn
      cases hstep
      exact h.goes_on hn (by simp) rfl
    · cases hstep
  | check n id =>
    simp only [ledgerStep] at hstep
    split at hstep
    · rename_i hn
      cases hstep
      unfold checkHold
      simp only
      split
      all_goals exact h.goes_on hn (by simp) rfl
    · cases hstep
  | transition n =>
    simp only [ledgerStep] at hstep
    split at hstep
    · rename_i hn
      cases hstep
      unfold transitionRow
      split
      · exact h.goes_on hn (by simp) rfl
      · split
        all_goals exact h.goes_on hn (by simp) rfl
    · cases hstep
  | commit n =>
    simp only [ledgerStep] at hstep
    split at hstep
    · rename_i hn
      obtain ⟨kept, -, rfl⟩ := Option.map_eq_some_iff.mp hstep
      exact h.goes_on hn (by simp) rfl
    · rename_i hn
      cases hstep
      unfold commitSettle
      split
      all_goals exact h.goes_on hn (by simp) rfl
    · cases hstep
  | abort n =>
    simp only [ledgerStep] at hstep
    split at hstep
    all_goals first
      | cases hstep; done
      | rename_i hn
        cases hstep
        exact h.goes_on hn (by simp) rfl
  | release reservation reason now =>
    simp only [ledgerStep] at hstep
    split at hstep
    · cases hstep
      exact h
    · split at hstep
      · cases hstep
      · cases hstep
        exact h

theorem begun_record {record : UsageRecord} {now : Time} {ledger : LedgerState} (h : Begun s)
    (hstep : spendStep env s.ledger (.record record now) = some ledger) :
    Begun ⟨ledger, s.gone, s.calls⟩ := by
  simp only [spendStep] at hstep
  split at hstep
  · cases hstep
  · cases hstep
    exact h

/-- A pass takes nothing that anybody looks at. -/
theorem retain_trimmed (hshort : ShortMonths env.calendar) (h : Trimmed env s reservations usage)
    (hbegun : Begun s) {now : Time} (htimely : Timely days s (.retain now))
    (hnow : now ≤ s.ledger.clock) :
    Trimmed env ⟨enforceRetention days now s.ledger,
      s.gone ++ removableIds days now s.ledger.reservations, s.calls⟩
      reservations usage where
  reservations := by
    refine h.reservations.deleteWhere ?_
    rintro r - ⟨hstatus, -⟩ hreserved
    rw [hreserved] at hstatus
    simp at hstatus
  sees := by
    obtain ⟨horizon, hsees⟩ := h.sees
    have hdays : (365 : ℚ) ≤ days.usage := by exact_mod_cast days.usage_bounds.1
    have hcut : ∀ t : Time, s.ledger.clock ≤ t + 86400 →
        now - 86400 * days.usage ≤ t - 86400 * 32 := by
      intro t ht
      linarith
    have hpast : ∀ t : Time, s.ledger.clock ≤ t + 86400 →
        (horizon ≤ env.calendar.dayStart t ∧ horizon ≤ env.calendar.monthStart t) →
        max horizon (now - 86400 * days.usage) ≤ env.calendar.dayStart t ∧
          max horizon (now - 86400 * days.usage) ≤ env.calendar.monthStart t := by
      rintro t ht ⟨hday, hmonth⟩
      exact ⟨max_le hday ((hcut t ht).trans (hshort t).1),
        max_le hmonth ((hcut t ht).trans (hshort t).2)⟩
    refine ⟨max horizon (now - 86400 * days.usage), ?_,
      hpast _ (by change s.ledger.clock ≤ s.ledger.clock + 86400; linarith) hsees.now, ?_⟩
    · change (s.ledger.usage.filter (fun u => ¬ u.recordedAt < now - 86400 * days.usage)).filter _ =
        _
      rw [filter_of_imp (fun u hu => not_lt.mpr ((le_max_right _ _).trans hu))]
      exact filter_narrow hsees.usage (fun u hu => (le_max_left _ _).trans hu)
    · intro n start hstart
      have hcall : n ∈ s.calls := hbegun n (fun hunused => by
        change start ∈ (s.ledger.txns n).start at hstart
        rw [hunused] at hstart
        cases hstart)
      exact hpast start ((htimely n hcall).1 start hstart) (hsees.started n start hstart)
  names := by
    intro n id hid hgone
    rcases List.mem_append.mp hgone with hgone | hnew
    · exact h.names n id hid hgone
    · have hcall : n ∈ s.calls := hbegun n (fun hunused => by
        change id ∈ (s.ledger.txns n).names at hid
        rw [hunused] at hid
        cases hid)
      exact (htimely n hcall).2 id hid hnew

theorem trimmed_start (env : LedgerEnv) (clock : Time) :
    Trimmed env (.start clock) Table.empty [] where
  reservations := .refl _ _
  sees := by
    refine ⟨min (env.calendar.dayStart clock) (env.calendar.monthStart clock), rfl,
      ⟨min_le_left _ _, min_le_right _ _⟩, ?_⟩
    rintro n start ⟨⟩
  names := by
    rintro n id ⟨⟩

/-- The state of the ledger that keeps everything. -/
def Beside (env : LedgerEnv) (s : RetainedState) (t : LedgerState) : Prop :=
  Begun s ∧ ∃ reservations usage, t = s.ledger.withTables reservations usage ∧
    Trimmed env s reservations usage

theorem retainedStep_beside (hshort : ShortMonths env.calendar) {t : LedgerState} {a : RetainAct}
    {s' : RetainedState} (h : Beside env s t) (htimely : Timely days s a)
    (hstep : retainedStep env days s a = some s') :
    ∃ t', Reaches (spendStep env) t a.spendAct.toList t' ∧ Beside env s' t' := by
  obtain ⟨hbegun, reservations, usage, rfl, htrimmed⟩ := h
  cases a with
  | spend a =>
    obtain ⟨ledger, hspend, rfl⟩ := Option.map_eq_some_iff.mp hstep
    cases a with
    | ledger a =>
      obtain ⟨reservations', usage', hother, htrimmed'⟩ :=
        ledgerStep_follows htrimmed htimely hspend
      exact ⟨_, reaches_single.mpr hother, begun_step hbegun hspend, reservations', usage', rfl,
        htrimmed'.reservations, htrimmed'.sees, htrimmed'.names⟩
    | record record now =>
      obtain ⟨usage', hother, htrimmed'⟩ := follows_record htrimmed hspend
      refine ⟨_, reaches_single.mpr hother, begun_record hbegun hspend, reservations, usage', rfl,
        htrimmed'.reservations, htrimmed'.sees, htrimmed'.names⟩
  | retain now =>
    simp only [retainedStep] at hstep
    split at hstep
    · cases hstep
    · rename_i hwaits
      cases hstep
      exact ⟨_, .nil _ _, hbegun, reservations, usage, rfl,
        retain_trimmed hshort htrimmed hbegun htimely (not_lt.mp (fun hlt => hwaits (Or.inl hlt)))⟩

/-- A run of timely calls under retention is answered as it is where nothing is deleted: every
call stands where it does there, the same is charged, and what is added up is the same for
whoever looks from now on. -/
theorem retention_unseen (hshort : ShortMonths env.calendar) {clock : Time} {acts : List RetainAct}
    {t : RetainedState}
    (hrun : Reaches (restrict (Timely days) (retainedStep env days)) (.start clock) acts t) :
    ∃ reservations usage, Reaches (spendStep env) (.initial clock)
      (acts.filterMap RetainAct.spendAct) (t.ledger.withTables reservations usage) ∧
      Pruned (fun r => r.status ≠ .reserved) t.gone t.ledger.reservations reservations ∧
      ∀ now, t.ledger.clock ≤ now →
      totals env t.ledger.reservations t.ledger.usage now = totals env reservations usage now := by
  have hstart : Beside env (.start clock) (.initial clock) :=
    ⟨fun _ hused => absurd rfl hused, Table.empty, [], rfl, trimmed_start env clock⟩
  obtain ⟨t', hrun', -, reservations, usage, rfl, htrimmed⟩ :=
    hrun.simulated (fun _ _ _ _ hR hcond hstep => retainedStep_beside hshort hR hcond hstep) hstart
  refine ⟨reservations, usage, hrun', htrimmed.reservations, ?_⟩
  intro now hnow
  obtain ⟨horizon, hsees⟩ := htrimmed.sees
  exact totals_eq htrimmed.reservations hsees.usage
    ⟨hsees.now.1.trans (env.calendar.dayStart_mono hnow),
      hsees.now.2.trans (env.calendar.monthStart_mono hnow)⟩

end

/-! ## A reservation of last year -/

theorem daysInMonth_le (m : Nat) : Gregorian.daysInMonth m ≤ 31 := by
  unfold Gregorian.daysInMonth
  split
  · split <;> decide
  all_goals decide

theorem daysInMonth_pos (m : Nat) : 0 < Gregorian.daysInMonth m := by
  unfold Gregorian.daysInMonth
  split
  · split <;> decide
  all_goals decide

theorem le_daysBefore (m : Nat) : m ≤ Gregorian.daysBefore m := by
  induction m with
  | zero => exact Nat.le_refl 0
  | succ m ih =>
    have hpos := daysInMonth_pos m
    rw [Gregorian.daysBefore]
    omega

/-- The month has not ended. -/
theorem lt_daysBefore_month (d : Nat) : d < Gregorian.daysBefore (Gregorian.month d) + 31 := by
  have hnext : d < Gregorian.daysBefore (Gregorian.month d + 1) := by
    by_contra hnot
    have hle := not_lt.mp hnot
    exact Nat.findGreatest_is_greatest (P := fun m => Gregorian.daysBefore m ≤ d)
      (Nat.lt_succ_self (Gregorian.month d)) ((le_daysBefore _).trans hle) hle
  rw [Gregorian.daysBefore] at hnext
  have hmonth := daysInMonth_le (Gregorian.month d)
  omega

theorem gregorian_shortMonths : ShortMonths .gregorian := by
  intro t
  have hday : t / 86400 < Gregorian.day t + 1 := Nat.lt_floor_add_one _
  have hmonth : (Gregorian.day t : ℚ) + 1 ≤
      Gregorian.daysBefore (Gregorian.month (Gregorian.day t)) + 31 := by
    exact_mod_cast lt_daysBefore_month (Gregorian.day t)
  rw [div_lt_iff₀ (by norm_num)] at hday
  constructor
  · change t - 86400 * 32 ≤ 86400 * (Gregorian.day t : ℚ)
    linarith
  · change t - 86400 * 32 ≤ 86400 * (Gregorian.daysBefore (Gregorian.month (Gregorian.day t)) : ℚ)
    linarith

def yearDays : RetentionDays := ⟨365, 90, by decide, by decide⟩

def settledCall : List LedgerAct :=
  [.beginReserve 0 (chatRequest 600 1), .lock 0, .expire 0, .check 0 10, .commit 0,
    .beginSettle 1 ⟨some 10, 1, 600, 1, true⟩ (chatUsage 500 99 1), .lock 1, .transition 1,
    .commit 1]

/-- A call settles and another is charged without a reservation; more than a year later a third
one is open while the first two are deleted, and a fourth is charged. -/
def lastYear : List RetainAct :=
  settledCall.map (fun a => .spend (.ledger a)) ++
  [.spend (.record (chatUsage 200 50 1) 1000), .spend (.ledger (.tick 34560000)),
    .spend (.ledger (.beginReserve 2 (chatRequest 400 1))), .retain 34559990,
    .spend (.record (chatUsage 100 20 1) 34559995)] ++
  ([.lock 2, .expire 2, .check 2 11, .commit 2] : List LedgerAct).map (fun a => .spend (.ledger a))

theorem lastYear_run :
    (lastYear.foldlM (restrict (Timely yearDays) (retainedStep smallTenant yearDays))
      (.start 1000)).map
      (fun s => (s.gone, s.ledger.usage.map UsageRow.totalTokens, s.ledger.reservations.keys)) =
      some ([10], [120], [11]) := by
  decide +kernel

theorem retention_unseen_lastYear :
    ∃ (t : RetainedState) (reservations : ReservationTable) (usage : List UsageRow),
      (t.gone, t.ledger.usage.map UsageRow.totalTokens, t.ledger.reservations.keys) =
      ([10], [120], [11]) ∧
      Reaches (spendStep smallTenant) (.initial 1000) (lastYear.filterMap RetainAct.spendAct)
      (t.ledger.withTables reservations usage) ∧
      Pruned (fun r => r.status ≠ .reserved) t.gone t.ledger.reservations reservations ∧
      ∀ now, t.ledger.clock ≤ now →
      totals smallTenant t.ledger.reservations t.ledger.usage now =
      totals smallTenant reservations usage now := by
  obtain ⟨t, hrun, hfacts⟩ := Option.map_eq_some_iff.mp lastYear_run
  obtain ⟨reservations, usage, hbeside⟩ := retention_unseen gregorian_shortMonths hrun
  exact ⟨t, reservations, usage, hfacts, hbeside⟩

end AgenticPlatform.Observability
