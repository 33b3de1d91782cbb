import AgenticPlatform.Observability.BudgetCeiling

/-!
# One settlement per reservation

A settlement turns its reservation and inserts its usage row in one transaction, and
only from a status a settled reservation does not have. So each reservation is charged
at most once, however often it is settled and whoever else releases or expires it.
-/
namespace AgenticPlatform.Observability
open AgenticPlatform.Foundation AgenticPlatform.Identity AgenticPlatform.Db

/-! ## What a step does to a reservation -/

inductive RowMove (r : ReservationRow) : ReservationRow → Prop where
  | same : RowMove r r
  | expired (h : r.status = .reserved) : RowMove r (expireRow r)
  | released (h : r.status = .reserved) (now : Time) (reason : String) :
    RowMove r (releaseRow now reason r)
  | settled (h : settleable r) (now : Time) (c : Charge) : RowMove r (settleRow now c r)

/-- The moves of a status. -/
def statusMoves : ReservationStatus → ReservationStatus → Bool
  | .reserved, .settled | .reserved, .released | .reserved, .expired | .expired, .settled => true
  | _, _ => false

theorem RowMove.id {r r' : ReservationRow} (h : RowMove r r') : r'.id = r.id := by
  cases h <;> rfl

theorem RowMove.status {r r' : ReservationRow} (h : RowMove r r') :
    r'.status = r.status ∨ statusMoves r.status r'.status = true := by
  cases h with
  | same => exact Or.inl rfl
  | expired h =>
    rw [h]
    exact Or.inr rfl
  | released h now reason =>
    rw [h]
    exact Or.inr rfl
  | settled h now c =>
    rcases h with h | h
    · rw [h]
      exact Or.inr rfl
    · rw [h]
      exact Or.inr rfl

theorem RowMove.eq_of_final {r r' : ReservationRow} (h : RowMove r r')
    (hfinal : r.status = .settled ∨ r.status = .released) : r' = r := by
  cases h with
  | same => rfl
  | expired h => simp [h] at hfinal
  | released h now reason => simp [h] at hfinal
  | settled h now c => rcases h with h | h <;> simp [h] at hfinal

/-- Every reservation is still there after a step, and has made one of the moves. -/
theorem row_moves {env : LedgerEnv} {s t : LedgerState} {a : LedgerAct} (hinv : LedgerInv env s)
    (hmove : LedgerMove env s t a) {r : ReservationRow} (hr : r ∈ s.reservations.rows) :
    ∃ r' ∈ t.reservations.rows, RowMove r r' := by
  cases hmove with
  | tick now hnow ht => exact ⟨r, ht ▸ hr, .same⟩
  | beginReserve n q h hn ht => exact ⟨r, ht ▸ hr, .same⟩
  | beginSettle n b id record hn ht => exact ⟨r, ht ▸ hr, .same⟩
  | lockReserve n now h hfree hn ht => exact ⟨r, ht ▸ hr, .same⟩
  | lockSettle n now id record hfree hn ht => exact ⟨r, ht ▸ hr, .same⟩
  | expire n now h hn ht => exact ⟨r, ht ▸ hr, .same⟩
  | check n now h ids id hn hfits ht => exact ⟨r, ht ▸ hr, .same⟩
  | transition n now id record c r' hn hr' hid hopen hc ht => exact ⟨r, ht ▸ hr, .same⟩
  | close n x hx ht => exact ⟨r, ht ▸ hr, .same⟩
  | idle ht => exact ⟨r, ht ▸ hr, .same⟩
  | commitReserve n now h ids row reservations' hn hfresh hrows ht =>
    have hok := hinv n
    rw [hn] at hok
    have hmarked := hok.2.2.1
    refine ⟨Table.rewrite (fun r => r.id ∈ ids) expireRow r, ?_, ?_⟩
    · subst ht
      show _ ∈ reservations'.rows
      rw [hrows]
      exact List.mem_append_left _ (List.mem_map_of_mem hr)
    · unfold Table.rewrite
      split
      · exact .expired (hmarked r hr ‹_›).1
      · exact .same
  | commitSettle n now id record c u hn hu ht =>
    have hok := hinv n
    rw [hn] at hok
    obtain ⟨-, -, -, r', hr', hid', hopen⟩ := hok
    refine ⟨Table.rewrite (fun r => r.id = id) (settleRow now c) r, ?_, ?_⟩
    · subst ht
      exact List.mem_map_of_mem hr
    · unfold Table.rewrite
      split
      · rename_i hid
        rw [Table.eq_of_key hr hr' (hid.trans hid'.symm)]
        exact .settled hopen now c
      · exact .same
  | released b id reason now hfree ht =>
    refine ⟨Table.rewrite (fun r => r.id = id ∧ r.status = .reserved) (releaseRow now reason) r, ?_,
      ?_⟩
    · subst ht
      exact List.mem_map_of_mem hr
    · unfold Table.rewrite
      split
      · rename_i hreserved
        exact .released hreserved.2 now reason
      · exact .same

/-- A settled or released reservation is never written again. -/
theorem final_reaches {env : LedgerEnv} {s t : LedgerState} {acts : List LedgerAct}
    (hinv : LedgerInv env s) (h : Reaches (ledgerStep env) s acts t) {r : ReservationRow}
    (hr : r ∈ s.reservations.rows) (hfinal : r.status = .settled ∨ r.status = .released) :
    r ∈ t.reservations.rows := by
  have hboth : LedgerInv env t ∧ r ∈ t.reservations.rows := by
    apply Reaches.invariant (P := fun s => LedgerInv env s ∧ r ∈ s.reservations.rows) _ h ⟨hinv, hr⟩
    rintro s a t ⟨hinv, hr⟩ hstep
    have hmove := ledgerStep_move hstep
    obtain ⟨r', hr', hrow⟩ := row_moves hinv hmove hr
    exact ⟨ledgerInv_step hinv hmove, hrow.eq_of_final hfinal ▸ hr'⟩
  exact hboth.2

/-! ## Counting settlements -/

/-- The usage rows the settlements of a reservation have inserted. -/
def usageRowsOf (s : LedgerState) (id : Uuid) : List UsageRow :=
  (s.settlements.filter (fun p => p.1 = id)).map Prod.snd

structure SettlementInv (s : LedgerState) : Prop where
  counted : ∀ r ∈ s.reservations.rows,
    (usageRowsOf s r.id).length = if r.status = .settled then 1 else 0
  inserted : s.usage = s.settlements.map Prod.snd
  known : ∀ p ∈ s.settlements, p.1 ∈ s.reservations.keys

theorem settlementInv_initial (clock : Time) : SettlementInv (.initial clock) where
  counted := by
    intro r hr
    cases hr
  inserted := rfl
  known := by
    intro p hp
    cases hp

/-- A step that leaves the tables alone. -/
theorem settlementInv_frame {s t : LedgerState} (h : SettlementInv s)
    (hreservations : t.reservations = s.reservations) (husage : t.usage = s.usage)
    (hsettlements : t.settlements = s.settlements) : SettlementInv t := by
  constructor
  · unfold usageRowsOf
    rw [hreservations, hsettlements]
    exact h.counted
  · rw [husage, hsettlements]
    exact h.inserted
  · rw [hreservations, hsettlements]
    exact h.known

/-- An UPDATE that neither settles a reservation nor touches a settled one. -/
theorem settlementInv_updateWhere {s t : LedgerState} {p : ReservationRow → Prop} [DecidablePred p]
    {f : ReservationRow → ReservationRow} (hf : ∀ r, (f r).id = r.id) (h : SettlementInv s)
    (hreservations : t.reservations = s.reservations.updateWhere p f hf)
    (husage : t.usage = s.usage) (hsettlements : t.settlements = s.settlements)
    (hbefore : ∀ r ∈ s.reservations.rows, p r → r.status ≠ .settled)
    (hafter : ∀ r, (f r).status ≠ .settled) : SettlementInv t := by
  constructor
  · intro r' hr'
    rw [hreservations] at hr'
    unfold usageRowsOf
    rw [hsettlements]
    rcases Table.mem_updateWhere hf hr' with ⟨hr, -⟩ | ⟨r, hr, hp, rfl⟩
    · exact h.counted r' hr
    · have hcount := h.counted r hr
      rw [if_neg (hbefore r hr hp)] at hcount
      rw [if_neg (hafter r), hf r]
      exact hcount
  · rw [husage, hsettlements]
    exact h.inserted
  · rw [hreservations, hsettlements, Table.keys_updateWhere]
    exact h.known

theorem settlementInv_insert {s t : LedgerState} {row : ReservationRow} (h : SettlementInv s)
    (hfresh : row.id ∉ s.reservations.keys)
    (hrows : t.reservations.rows = s.reservations.rows ++ [row]) (hnew : row.status ≠ .settled)
    (husage : t.usage = s.usage) (hsettlements : t.settlements = s.settlements) :
    SettlementInv t := by
  constructor
  · intro r hr
    rw [hrows] at hr
    unfold usageRowsOf
    rw [hsettlements]
    rcases List.mem_append.mp hr with hr | hr
    · exact h.counted r hr
    · rw [List.mem_singleton.mp hr, if_neg hnew, List.length_map, List.length_eq_zero_iff,
        List.filter_eq_nil_iff]
      intro p hp hsame
      exact hfresh (of_decide_eq_true hsame ▸ h.known p hp)
  · rw [husage, hsettlements]
    exact h.inserted
  · intro p hp
    rw [hsettlements] at hp
    rw [Table.keys, hrows, List.map_append]
    exact List.mem_append_left _ (h.known p hp)

theorem settlementInv_commitSettle {s t : LedgerState} {now : Time} {id : Uuid} {c : Charge}
    {u : UsageRow} {r : ReservationRow} (h : SettlementInv s) (hr : r ∈ s.reservations.rows)
    (hid : r.id = id) (hopen : settleable r)
    (hreservations : t.reservations =
      s.reservations.updateWhere (fun r => r.id = id) (settleRow now c) (fun _ => rfl))
    (husage : t.usage = s.usage ++ [u])
    (hsettlements : t.settlements = s.settlements ++ [(id, u)]) : SettlementInv t := by
  have hunsettled : r.status ≠ .settled := by
    rcases hopen with hopen | hopen <;> rw [hopen] <;> decide
  constructor
  · intro r' hr'
    rw [hreservations] at hr'
    unfold usageRowsOf
    rw [hsettlements, List.filter_append, List.map_append, List.length_append]
    rcases Table.mem_updateWhere (f := settleRow now c) (fun _ => rfl) hr' with ⟨hr', hne⟩ |
      ⟨r'', hr'', hid', rfl⟩
    · have hother : [(id, u)].filter (fun p => decide (p.1 = r'.id)) = [] := by
        simp [Ne.symm hne]
      rw [hother]
      exact h.counted r' hr'
    · have hsame : r'' = r := Table.eq_of_key hr'' hr (hid'.trans hid.symm)
      have hcount := h.counted r hr
      rw [if_neg hunsettled] at hcount
      have hone : [(id, u)].filter (fun p => decide (p.1 = (settleRow now c r'').id)) =
          [(id, u)] := by
        simp [settleRow, hid']
      have hold : (s.settlements.filter (fun p => decide (p.1 = (settleRow now c r'').id))).map
          Prod.snd =
          usageRowsOf s r.id := by
        rw [hsame]
        rfl
      rw [hone, hold, hcount]
      rfl
  · rw [husage, hsettlements, h.inserted, List.map_append]
    rfl
  · have hkeys : t.reservations.keys = s.reservations.keys := by
      rw [hreservations]
      exact Table.keys_updateWhere s.reservations _ _ _
    intro p hp
    rw [hkeys]
    rw [hsettlements] at hp
    rcases List.mem_append.mp hp with hp | hp
    · exact h.known p hp
    · rw [List.mem_singleton.mp hp, ← hid]
      exact Table.key_mem_keys hr

theorem settlementInv_step {env : LedgerEnv} {s t : LedgerState} {a : LedgerAct}
    (h : SettlementInv s) (hinv : LedgerInv env s) (hmove : LedgerMove env s t a) :
    SettlementInv t := by
  cases hmove with
  | tick now hnow ht => exact ht ▸ settlementInv_frame h rfl rfl rfl
  | beginReserve n q h' hn ht => exact ht ▸ settlementInv_frame h rfl rfl rfl
  | beginSettle n b id record hn ht => exact ht ▸ settlementInv_frame h rfl rfl rfl
  | lockReserve n now h' hfree hn ht => exact ht ▸ settlementInv_frame h rfl rfl rfl
  | lockSettle n now id record hfree hn ht => exact ht ▸ settlementInv_frame h rfl rfl rfl
  | expire n now h' hn ht => exact ht ▸ settlementInv_frame h rfl rfl rfl
  | check n now h' ids id hn hfits ht => exact ht ▸ settlementInv_frame h rfl rfl rfl
  | transition n now id record c r hn hr hid hopen hc ht =>
    exact ht ▸ settlementInv_frame h rfl rfl rfl
  | close n x hx ht => exact ht ▸ settlementInv_frame h rfl rfl rfl
  | idle ht => exact ht ▸ h
  | commitReserve n now h' ids row reservations' hn hfresh hrows ht =>
    subst ht
    have hok := hinv n
    rw [hn] at hok
    obtain ⟨-, -, hmarked, ⟨id, hrow⟩, -⟩ := hok
    have hbefore : ∀ r ∈ s.reservations.rows, r.id ∈ ids → r.status ≠ .settled := by
      intro r hr hmem
      rw [(hmarked r hr hmem).1]
      decide
    have hexpired : SettlementInv { s with reservations := markExpired s.reservations ids } :=
      settlementInv_updateWhere (f := expireRow) (fun _ => rfl) h rfl rfl rfl hbefore
        (fun _ => nofun)
    refine settlementInv_insert hexpired ?_ hrows ?_ rfl rfl
    · rw [markExpired_keys]
      exact hfresh
    · rw [hrow]
      nofun
  | commitSettle n now id record c u hn hu ht =>
    subst ht
    have hok := hinv n
    rw [hn] at hok
    obtain ⟨-, -, -, r, hr, hid, hopen⟩ := hok
    exact settlementInv_commitSettle h hr hid hopen rfl rfl rfl
  | released b id reason now hfree ht =>
    subst ht
    refine settlementInv_updateWhere (f := releaseRow now reason) (fun _ => rfl) h rfl rfl rfl ?_
      (fun _ => nofun)
    intro r _ hreserved
    rw [hreserved.2]
    decide

theorem settlementInv_reaches {env : LedgerEnv} {clock : Time} {acts : List LedgerAct}
    {s : LedgerState} (h : Reaches (ledgerStep env) (.initial clock) acts s) : SettlementInv s := by
  have hboth : LedgerInv env s ∧ SettlementInv s := by
    apply Reaches.invariant (P := fun s => LedgerInv env s ∧ SettlementInv s) _ h
      ⟨ledgerInv_initial env clock, settlementInv_initial clock⟩
    rintro s a t ⟨hinv, hsettled⟩ hstep
    have hmove := ledgerStep_move hstep
    exact ⟨ledgerInv_step hinv hmove, settlementInv_step hsettled hinv hmove⟩
  exact hboth.2

/-! ## A settlement that fails -/

def Txn.isSettle : Txn → Bool
  | .settleBegun _ _ _ | .settleLocked _ _ _ | .settled _ _ _ _ | .settleEnded _ => true
  | _ => false

/-- The step belongs to the settle call `n`. -/
def SettleStep (s : LedgerState) (n : Nat) (a : LedgerAct) : Prop :=
  (∃ b record, a = .beginSettle n b record) ∨
    ((s.txns n).isSettle = true ∧ (a = .lock n ∨ a = .transition n ∨ a = .commit n ∨ a = .abort n))

/-- No step of a settle call but a successful commit touches a table. -/
theorem settleStep_keeps {env : LedgerEnv} {s t : LedgerState} {n : Nat} {a : LedgerAct}
    (hstep : ledgerStep env s a = some t) (hcall : SettleStep s n a)
    (hfailed : t.txns n ≠ .settleEnded .succeeded) :
    t.reservations = s.reservations ∧ t.usage = s.usage := by
  have hmove := ledgerStep_move hstep
  cases hmove with
  | tick now hnow ht => exact ht ▸ ⟨rfl, rfl⟩
  | beginReserve m q h hn ht => exact ht ▸ ⟨rfl, rfl⟩
  | beginSettle m b id record hn ht => exact ht ▸ ⟨rfl, rfl⟩
  | lockReserve m now h hfree hn ht => exact ht ▸ ⟨rfl, rfl⟩
  | lockSettle m now id record hfree hn ht => exact ht ▸ ⟨rfl, rfl⟩
  | expire m now h hn ht => exact ht ▸ ⟨rfl, rfl⟩
  | check m now h ids id hn hfits ht => exact ht ▸ ⟨rfl, rfl⟩
  | transition m now id record c r hn hr hid hopen hc ht => exact ht ▸ ⟨rfl, rfl⟩
  | close m x hx ht => exact ht ▸ ⟨rfl, rfl⟩
  | idle ht => exact ht ▸ ⟨rfl, rfl⟩
  | commitReserve m now h ids row reservations' hn hfresh hrows ht =>
    obtain ⟨hsettle, rfl⟩ : (s.txns n).isSettle = true ∧ m = n := by simpa [SettleStep] using hcall
    rw [hn] at hsettle
    cases hsettle
  | commitSettle m now id record c u hn hu ht =>
    obtain ⟨-, rfl⟩ : (s.txns n).isSettle = true ∧ m = n := by simpa [SettleStep] using hcall
    subst ht
    have hend : Function.update s.txns m (.settleEnded .succeeded) m = .settleEnded .succeeded :=
      Function.update_self _ _ _
    exact absurd hend hfailed
  | released b id reason now hfree ht => simp [SettleStep] at hcall

/-- The usage row is refused: the call ends as failed. -/
theorem failed_of_refused {env : LedgerEnv} {s t : LedgerState} {n : Nat} {now : Time} {id : Uuid}
    {record : UsageRecord} {c : Charge} (hn : s.txns n = .settled now id record c)
    (hrefused : usageRow env now record = none) (hstep : ledgerStep env s (.commit n) = some t) :
    t.txns n = .settleEnded .failed := by
  simp only [ledgerStep, hn, commitSettle, hrefused, Option.some.injEq] at hstep
  subst hstep
  exact Function.update_self n (Txn.settleEnded .failed) s.txns

/-! ## The laws of a reservation -/

/-- In the state `s`: each reservation has one usage row if it is settled and none
otherwise, a step moves its status along the edges, a settled or released one is never
written again, and of a settle call whose insert fails, or that fails otherwise, nothing
is left. -/
structure OneSettlement (env : LedgerEnv) (s : LedgerState) : Prop where
  counted : ∀ r ∈ s.reservations.rows,
    (usageRowsOf s r.id).length = if r.status = .settled then 1 else 0
  inserted : s.usage = s.settlements.map Prod.snd
  moves : ∀ a t, ledgerStep env s a = some t →
    ∀ r ∈ s.reservations.rows, ∃ r' ∈ t.reservations.rows, r'.id = r.id ∧
    (r'.status = r.status ∨ statusMoves r.status r'.status = true)
  final : ∀ acts t, Reaches (ledgerStep env) s acts t → ∀ r ∈ s.reservations.rows,
    r.status = .settled ∨ r.status = .released → r ∈ t.reservations.rows
  refused : ∀ n now id record c t, s.txns n = .settled now id record c →
    usageRow env now record = none → ledgerStep env s (.commit n) = some t →
    t.txns n = .settleEnded .failed
  undone : ∀ n a t, ledgerStep env s a = some t → SettleStep s n a →
    t.txns n ≠ .settleEnded .succeeded → t.reservations = s.reservations ∧ t.usage = s.usage

theorem one_settlement_per_reservation {env : LedgerEnv} {clock : Time} {acts : List LedgerAct}
    {s : LedgerState} (h : Reaches (ledgerStep env) (.initial clock) acts s) :
    OneSettlement env s where
  counted := (settlementInv_reaches h).counted
  inserted := (settlementInv_reaches h).inserted
  moves := by
    intro a t hstep r hr
    obtain ⟨r', hr', hrow⟩ := row_moves (ledgerInv_reaches h) (ledgerStep_move hstep) hr
    exact ⟨r', hr', hrow.id, hrow.status⟩
  final := fun _ _ hrun _ hr hfinal => final_reaches (ledgerInv_reaches h) hrun hr hfinal
  refused := fun _ _ _ _ _ _ hn hrefused hstep => failed_of_refused hn hrefused hstep
  undone := fun _ _ _ hstep hcall hfailed => settleStep_keeps hstep hcall hfailed

/-- A reservation expires, a settlement of it fails at its insert, and two settlements
and a release of it race. -/
def racingSettlements : List LedgerAct :=
  [.beginReserve 0 (chatRequest 600 1), .lock 0, .expire 0, .check 0 10, .commit 0, .tick 90000,
    .beginReserve 1 (chatRequest 100 1), .lock 1, .expire 1, .check 1 11, .commit 1,
    .beginSettle 2 ⟨some 10, 1, 600, 1, true⟩ (chatUsage (-5) 10 1), .lock 2, .transition 2,
    .commit 2, .beginSettle 3 ⟨some 10, 1, 600, 1, true⟩ (chatUsage 500 50 1),
    .beginSettle 4 ⟨some 10, 1, 600, 1, true⟩ (chatUsage 500 50 1), .lock 4, .transition 4,
    .commit 4, .lock 3, .transition 3, .release ⟨some 10, 1, 600, 1, true⟩ "late" 90000]

theorem racingSettlements_run :
    (racingSettlements.foldlM (ledgerStep smallTenant) (.initial 86390)).isSome = true := by
  decide +kernel

theorem one_settlement_racingSettlements :
    ∃ s, Reaches (ledgerStep smallTenant) (.initial 86390) racingSettlements s ∧
      OneSettlement smallTenant s ∧
      s.reservations.rows.map ReservationRow.status = [.settled, .reserved] ∧ s.usage.length = 1 :=
  ⟨_, reaches_get racingSettlements_run,
    one_settlement_per_reservation (reaches_get racingSettlements_run),
    by decide +kernel, by decide +kernel⟩

end AgenticPlatform.Observability
