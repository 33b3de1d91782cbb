import AgenticPlatform.Observability.Settlement

/-!
# The ledger as its callers see it

Of a transaction its caller sees whether it is under way, what a reservation has come to,
and which reservation a settlement is about. A statement of a transaction changes nothing
else of this than the end of its own transaction, and the tables only at the commit.
-/
namespace AgenticPlatform.Observability
open AgenticPlatform.Foundation AgenticPlatform.Identity AgenticPlatform.Db

/-- What a caller sees of a transaction. -/
inductive TxnView where
  | unused
  | reserving
  | refused
  | granted (b : BudgetReservation)
  | settling (id : Uuid) (record : UsageRecord)
  | settleEnded
deriving DecidableEq

def Txn.view : Txn → TxnView
  | .unused => .unused
  | .reserveBegun _ _ | .reserveLocked _ _ | .expired _ _ _ | .reserved _ _ _ _ => .reserving
  | .reserveEnded (.ok b) => .granted b
  | .reserveEnded (.error _) => .refused
  | .settleBegun _ id record | .settleLocked _ id record | .settled _ id record _ =>
    .settling id record
  | .settleEnded _ => .settleEnded

def LedgerState.views (s : LedgerState) (n : Nat) : TxnView := (s.txns n).view

/-- What a transaction does between its beginning and its end, and the clock. -/
def LedgerAct.internal : LedgerAct → Bool
  | .tick _ | .lock _ | .expire _ | .check _ _ | .transition _ | .commit _ => true
  | .beginReserve _ _ | .beginSettle _ _ _ | .abort _ | .release _ _ _ => false

/-- The reservation is neither settled nor released. -/
def OpenReservation (s : LedgerState) (id : Uuid) : Prop :=
  ∃ r ∈ s.reservations.rows, r.id = id ∧ settleable r

/-- The amounts pass the CHECK constraints. -/
def UsageRecord.nonneg (record : UsageRecord) : Prop :=
  (0 ≤ record.inputTokens ∧ 0 ≤ record.outputTokens) ∧ 0 ≤ record.costUsd

/-- The tables are as they were. -/
structure SameTables (s t : LedgerState) : Prop where
  reservations : t.reservations = s.reservations
  settlements : t.settlements = s.settlements

/-- What a statement of a transaction leads to. -/
inductive Advance (env : LedgerEnv) (s t : LedgerState) : Prop
  | quiet (hviews : t.views = s.views) (htables : SameTables s t)
  | refuses (n : Nat) (hn : s.views n = .reserving)
    (hviews : t.views = Function.update s.views n .refused) (htables : SameTables s t)
  | grants (n : Nat) (b : BudgetReservation) (row : ReservationRow) (ids : List Uuid)
    (hn : s.views n = .reserving) (hb : b.id = some row.id) (hfresh : row.id ∉ s.reservations.keys)
    (hnew : row.status = .reserved) (hviews : t.views = Function.update s.views n (.granted b))
    (hrows : t.reservations.rows = (markExpired s.reservations ids).rows ++ [row])
    (hmarked : ∀ r ∈ s.reservations.rows, r.id ∈ ids → r.status = .reserved)
    (hsettlements : t.settlements = s.settlements)
  | fails (n : Nat) (id : Uuid) (record : UsageRecord) (hn : s.views n = .settling id record)
    (hwhy : ¬ (OpenReservation s id ∧ record.nonneg))
    (hviews : t.views = Function.update s.views n .settleEnded) (htables : SameTables s t)
  | settles (n : Nat) (id : Uuid) (record : UsageRecord) (now : Time) (c : Charge) (u : UsageRow)
    (hn : s.views n = .settling id record) (hopen : OpenReservation s id)
    (hu : usageRow env now record = some u)
    (hviews : t.views = Function.update s.views n .settleEnded)
    (hreservations : t.reservations =
      s.reservations.updateWhere (fun r => r.id = id) (settleRow now c) (fun _ => rfl))
    (hsettlements : t.settlements = s.settlements ++ [(id, u)])

section
variable {env : LedgerEnv} {s t : LedgerState}

theorem views_of_txns {n : Nat} {x : Txn} {v : TxnView}
    (htxns : t.txns = Function.update s.txns n x) (hx : x.view = v) :
    t.views = Function.update s.views n v := by
  funext m
  rw [LedgerState.views, htxns]
  by_cases hm : m = n
  · rw [hm, Function.update_self, Function.update_self]
    exact hx
  · rw [Function.update_of_ne hm, Function.update_of_ne hm]
    rfl

/-- A statement after which the caller sees what it saw. -/
theorem views_eq_of_view {n : Nat} {x : Txn} (htxns : t.txns = Function.update s.txns n x)
    (hx : x.view = (s.txns n).view) : t.views = s.views := by
  rw [views_of_txns htxns hx]
  exact Function.update_eq_self n s.views

theorem charge_of_nonneg {record : UsageRecord} (h : record.nonneg) :
    ∃ c, record.charge = some c := by
  have hcharge : 0 ≤ record.tokens ∧ 0 ≤ record.costUsd := ⟨Int.add_nonneg h.1.1 h.1.2, h.2⟩
  exact ⟨_, dif_pos hcharge⟩

theorem usageRow_of_nonneg {record : UsageRecord} (now : Time) (h : record.nonneg) :
    ∃ u, usageRow env now record = some u :=
  ⟨_, dif_pos h⟩

/-- A settlement whose UPDATE fails was about a reservation that is settled or released, or
about amounts that a CHECK refuses. -/
theorem advance_transition {n : Nat} {now : Time} {id : Uuid} {record : UsageRecord}
    (hn : s.txns n = .settleLocked now id record) :
    Advance env s (transitionRow s n now id record) := by
  have hview : s.views n = .settling id record := by rw [LedgerState.views, hn]; rfl
  unfold transitionRow
  split
  · rename_i hnone
    refine .fails n id record hview ?_ (views_of_txns rfl rfl) ⟨rfl, rfl⟩
    rintro ⟨⟨r, hr, hid, hopen⟩, -⟩
    rw [Table.get_eq_some.mpr ⟨hr, hid⟩, Option.filter_some_pos (by simpa using hopen)] at hnone
    cases hnone
  · split
    · rename_i hcharge
      refine .fails n id record hview ?_ (views_of_txns rfl rfl) ⟨rfl, rfl⟩
      rintro ⟨-, hnonneg⟩
      obtain ⟨c, hc⟩ := charge_of_nonneg hnonneg
      rw [hcharge] at hc
      cases hc
    · exact .quiet (views_eq_of_view rfl (by rw [hn]; rfl)) ⟨rfl, rfl⟩

theorem advance_commit (hinv : LedgerInv env s) {n : Nat}
    (h : ledgerStep env s (.commit n) = some t) : Advance env s t := by
  have hok := hinv n
  simp only [ledgerStep] at h
  split at h
  · rename_i now hold ids row hn
    rw [hn] at hok
    obtain ⟨-, -, hmarked, ⟨id, rfl⟩, -⟩ := hok
    obtain ⟨reservations', hins, rfl⟩ := Option.map_eq_some_iff.mp h
    obtain ⟨hfresh, hrows⟩ := Table.tryInsert_eq_some hins
    rw [markExpired_keys] at hfresh
    exact .grants n (granted env hold id) _ ids (by rw [LedgerState.views, hn]; rfl) rfl hfresh rfl
      (views_of_txns rfl rfl) hrows (fun r hr hid => (hmarked r hr hid).1) rfl
  · rename_i now id record c hn
    rw [hn] at hok
    obtain ⟨-, -, -, r, hr, hid, hopen⟩ := hok
    have hview : s.views n = .settling id record := by rw [LedgerState.views, hn]; rfl
    cases h
    unfold commitSettle
    split
    · rename_i hnone
      refine .fails n id record hview ?_ (views_of_txns rfl rfl) ⟨rfl, rfl⟩
      rintro ⟨-, hnonneg⟩
      have hrow : ∃ u, usageRow env now record = some u := usageRow_of_nonneg now hnonneg
      obtain ⟨u, hu⟩ := hrow
      rw [hnone] at hu
      cases hu
    · rename_i u hu
      exact .settles n id record now c u hview ⟨r, hr, hid, hopen⟩ hu
        (views_of_txns rfl rfl) rfl rfl
  · cases h

theorem ledgerStep_advance (hinv : LedgerInv env s) {a : LedgerAct} (ha : a.internal = true)
    (h : ledgerStep env s a = some t) : Advance env s t := by
  cases a with
  | tick now =>
    simp only [ledgerStep] at h
    split at h
    · cases h
      exact .quiet rfl ⟨rfl, rfl⟩
    · cases h
  | lock n =>
    simp only [ledgerStep] at h
    split at h
    · rename_i now hold hfree hn
      cases h
      exact .quiet (views_eq_of_view rfl (by rw [hn]; rfl)) ⟨rfl, rfl⟩
    · rename_i now id record hfree hn
      cases h
      exact .quiet (views_eq_of_view rfl (by rw [hn]; rfl)) ⟨rfl, rfl⟩
    · cases h
  | expire n =>
    simp only [ledgerStep] at h
    split at h
    · rename_i now hold hn
      cases h
      exact .quiet (views_eq_of_view rfl (by rw [hn]; rfl)) ⟨rfl, rfl⟩
    · cases h
  | check n id =>
    simp only [ledgerStep] at h
    split at h
    · rename_i now hold ids hn
      cases h
      unfold checkHold
      dsimp only
      split
      · exact .refuses n (by rw [LedgerState.views, hn]; rfl) (views_of_txns rfl rfl) ⟨rfl, rfl⟩
      · exact .quiet (views_eq_of_view rfl (by rw [hn]; rfl)) ⟨rfl, rfl⟩
    · cases h
  | transition n =>
    simp only [ledgerStep] at h
    split at h
    · rename_i now id record hn
      cases h
      exact advance_transition hn
    · cases h
  | commit n => exact advance_commit hinv h
  | beginReserve n q => cases ha
  | beginSettle n b record => cases ha
  | abort n => cases ha
  | release b reason now => cases ha

end

end AgenticPlatform.Observability
