import AgenticPlatform.Observability.Ledger

/-!
# Ledger calls that nothing comes between

`reserve`, `settle` and `record` of one caller at a time, each from its first statement to
its commit. They are the runs of the ledger in which no other transaction is open.
-/
namespace AgenticPlatform.Observability
open AgenticPlatform.Foundation AgenticPlatform.Identity AgenticPlatform.Db

/-- The two tables of one tenant. -/
structure LedgerTables where
  reservations : ReservationTable
  usage : List UsageRow

def LedgerTables.empty : LedgerTables := ⟨Table.empty, []⟩

/-- The request meets one of the caps. -/
def OverCap (env : LedgerEnv) (t : LedgerTables) (now : Time) (h : Hold) : Prop :=
  let sums := totals env (markExpired t.reservations (expirableIds t.reservations now)) t.usage now
  dailyCap env ≤ projectedTokens sums h ∨ monthlyCap env ≤ projectedCost sums h

instance (env : LedgerEnv) (t : LedgerTables) (now : Time) (h : Hold) :
    Decidable (OverCap env t now h) :=
  inferInstanceAs (Decidable (_ ∨ _))

/-- The tenant has used up one of its caps. -/
def AtCap (env : LedgerEnv) (t : LedgerTables) (now : Time) : Prop :=
  let sums := totals env (markExpired t.reservations (expirableIds t.reservations now)) t.usage now
  dailyCap env ≤ sums.tokensToday + sums.reservedTokens ∨
    monthlyCap env ≤ sums.costMonth + sums.reservedCost

instance (env : LedgerEnv) (t : LedgerTables) (now : Time) : Decidable (AtCap env t now) :=
  inferInstanceAs (Decidable (_ ∨ _))

/-- The error of a request that meets a cap. -/
def exceededError (env : LedgerEnv) (t : LedgerTables) (now : Time) (h : Hold) : ReserveError :=
  let sums := totals env (markExpired t.reservations (expirableIds t.reservations now)) t.usage now
  .exceeded (projectedTokens sums h) (dailyCap env) (projectedCost sums h) (monthlyCap env)

/-- `reserve`; a database that is down fails every statement. -/
def reserveAlone (env : LedgerEnv) (t : LedgerTables) (now : Time) (id : Uuid) (down : Bool)
    (q : ReserveRequest) : LedgerTables × ReserveResult :=
  match q.hold with
  | none => (t, .error .negativeEstimate)
  | some h =>
    if down then (t, unavailable env h)
    else if OverCap env t now h then (t, .error (exceededError env t now h))
    else
      match (markExpired t.reservations (expirableIds t.reservations now)).tryInsert
          (newReservation env now h id) with
      | some reservations => ({ t with reservations := reservations }, .ok (granted env h id))
      | none => (t, unavailable env h)

/-- `record`: a row that a CHECK refuses is logged and dropped. -/
def recordAlone (env : LedgerEnv) (t : LedgerTables) (now : Time) (record : UsageRecord) :
    LedgerTables :=
  { t with usage := t.usage ++ (usageRow env now record).toList }

theorem settleRow_id (now : Time) (c : Charge) (r : ReservationRow) :
    (settleRow now c r).id = r.id :=
  rfl

/-- `settle`; nothing is written where a statement fails. -/
def settleAlone (env : LedgerEnv) (t : LedgerTables) (now : Time) (reservation : BudgetReservation)
    (record : UsageRecord) : LedgerTables :=
  match reservation.id with
  | none => recordAlone env t now record
  | some id =>
    match (t.reservations.get id).filter (fun r => settleable r), record.charge,
        usageRow env now record with
    | some _, some c, some u =>
      ⟨t.reservations.updateWhere (fun r => r.id = id) (settleRow now c) (settleRow_id now c),
        t.usage ++ [u]⟩
    | _, _, _ => t

/-- At a cap, every request meets it. -/
theorem overCap_of_atCap {env : LedgerEnv} {t : LedgerTables} {now : Time} (hcap : AtCap env t now)
    (h : Hold) : OverCap env t now h := by
  refine hcap.imp (fun htokens => htokens.trans ?_) (fun hcost => hcost.trans ?_)
  · exact le_add_of_nonneg_right h.nonneg.1
  · exact le_add_of_nonneg_right h.nonneg.2

/-- And is refused, while the database is up. -/
theorem refused_of_atCap {env : LedgerEnv} {t : LedgerTables} {now : Time} (hcap : AtCap env t now)
    (id : Uuid) (q : ReserveRequest) : (reserveAlone env t now id false q).2.isOk = false := by
  unfold reserveAlone
  cases q.hold with
  | none => rfl
  | some h =>
    simp only [Bool.false_eq_true, if_false]
    rw [if_pos (overCap_of_atCap hcap h)]
    rfl

/-- Up to the expiring UPDATE, nothing is written that others see. -/
theorem reaches_expired (env : LedgerEnv) {s : LedgerState} {n : Nat} {q : ReserveRequest}
    {h : Hold} (hfree : s.holder = none) (hn : s.txns n = .unused) (hhold : q.hold = some h) :
    ∃ t, Reaches (ledgerStep env) s [.beginReserve n q, .lock n, .expire n] t ∧
      t.reservations = s.reservations ∧ t.usage = s.usage ∧
      t.txns n = .expired s.clock h (expirableIds s.reservations s.clock) := by
  let locked : LedgerState :=
    { (s.setTxn n (.reserveBegun s.clock h)).setTxn n (.reserveLocked s.clock h) with
      holder := some n }
  have hbegun : ledgerStep env s (.beginReserve n q) =
      some (s.setTxn n (.reserveBegun s.clock h)) := by
    simp only [ledgerStep, hn, hhold]
  have hlocked : ledgerStep env (s.setTxn n (.reserveBegun s.clock h)) (.lock n) = some locked := by
    simp only [ledgerStep, LedgerState.setTxn, hfree, Function.update_self, locked]
  have hexpired : ledgerStep env locked (.expire n) =
      some (locked.setTxn n (.expired s.clock h (expirableIds s.reservations s.clock))) := by
    simp only [ledgerStep, LedgerState.setTxn, Function.update_self, locked]
  exact ⟨_, reaches_cons.mpr
    ⟨_, hbegun, reaches_cons.mpr ⟨_, hlocked, reaches_single.mpr hexpired⟩⟩, rfl, rfl,
    Function.update_self _ _ _⟩

/-- The decision is about the tables as they are. -/
theorem checkHold_eq (env : LedgerEnv) (s : LedgerState) (n : Nat) (now : Time) (h : Hold)
    (id : Uuid) : checkHold env s n now h (expirableIds s.reservations now) id =
      if OverCap env ⟨s.reservations, s.usage⟩ now h then
        s.endTxn n (.reserveEnded (.error (exceededError env ⟨s.reservations, s.usage⟩ now h)))
      else s.setTxn n
        (.reserved now h (expirableIds s.reservations now) (newReservation env now h id)) :=
        rfl

/-- A `reserve` that nothing comes between is a run of the ledger: it begins, takes the lock,
expires, checks, and commits or fails. -/
theorem reserveAlone_reaches {env : LedgerEnv} {s : LedgerState} {n : Nat} (hfree : s.holder = none)
    (hn : s.txns n = .unused) (id : Uuid) (q : ReserveRequest) :
    ∃ acts t, Reaches (ledgerStep env) s acts t ∧
      (⟨t.reservations, t.usage⟩ : LedgerTables) =
      (reserveAlone env ⟨s.reservations, s.usage⟩ s.clock id false q).1 ∧
      t.txns n =
      .reserveEnded (reserveAlone env ⟨s.reservations, s.usage⟩ s.clock id false q).2 := by
  unfold reserveAlone
  cases hhold : q.hold with
  | none =>
    refine ⟨[.beginReserve n q], s.endTxn n (.reserveEnded (.error .negativeEstimate)), ?_, rfl, ?_⟩
    · rw [reaches_single]
      simp only [ledgerStep, hn, hhold]
    · exact Function.update_self _ _ _
  | some h =>
    obtain ⟨m, hexpired, hreservations, husage, htxn⟩ := reaches_expired env hfree hn hhold
    have hchecked : Reaches (ledgerStep env) s [.beginReserve n q, .lock n, .expire n, .check n id]
        (checkHold env m n s.clock h (expirableIds m.reservations s.clock) id) := by
      refine reaches_snoc.mpr ⟨m, hexpired, ?_⟩
      simp only [ledgerStep, htxn, hreservations]
    simp only [Bool.false_eq_true, if_false]
    rw [← hreservations, ← husage]
    rw [checkHold_eq] at hchecked
    by_cases hover : OverCap env ⟨m.reservations, m.usage⟩ s.clock h
    · rw [if_pos hover] at hchecked
      refine ⟨_, _, hchecked, ?_⟩
      rw [if_pos hover]
      exact ⟨rfl, Function.update_self _ _ _⟩
    · rw [if_neg hover] at hchecked
      rw [if_neg hover]
      let reserved : LedgerState :=
        m.setTxn n (.reserved s.clock h (expirableIds m.reservations s.clock)
          (newReservation env s.clock h id))
      have htxn' : reserved.txns n = .reserved s.clock h (expirableIds m.reservations s.clock)
          (newReservation env s.clock h id) := Function.update_self _ _ _
      cases hinsert : (markExpired m.reservations (expirableIds m.reservations s.clock)).tryInsert
          (newReservation env s.clock h id) with
      | none =>
        -- the INSERT fails, and with it the call
        have haborted : ledgerStep env reserved (.abort n) =
            some (reserved.endTxn n (.reserveEnded (unavailable env h))) := by
          simp only [ledgerStep, htxn']
        exact ⟨_, _, reaches_snoc.mpr ⟨_, hchecked, haborted⟩, rfl, Function.update_self _ _ _⟩
      | some reservations =>
        have hcommitted : ledgerStep env reserved (.commit n) =
            some { reserved.endTxn n (.reserveEnded (.ok (granted env h id))) with
              reservations := reservations } := by
          simp only [ledgerStep, htxn', commitReserve]
          exact Option.map_eq_some_iff.mpr ⟨reservations, hinsert, rfl⟩
        exact ⟨_, _, reaches_snoc.mpr ⟨_, hchecked, hcommitted⟩, rfl, Function.update_self _ _ _⟩

end AgenticPlatform.Observability
