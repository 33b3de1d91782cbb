import AgenticPlatform.Observability.Llm

/-!
# What a chat call is charged

A reservation has one holder, from its grant on, and nobody else settles or releases it.
So a call that comes to settle a response finds its reservation open, and its settlement
is the one that commits. Every other end of a call leaves the reservation without a usage
row.
-/
namespace AgenticPlatform.Observability
open AgenticPlatform.Foundation AgenticPlatform.Identity AgenticPlatform.Db

/-! ## Reservations -/

/-- The reservation is settled, and the record is in the one usage row that settled it. -/
def Charged (l : LedgerState) (id : Uuid) (record : UsageRecord) : Prop :=
  (∃ r ∈ l.reservations.rows, r.id = id ∧ r.status = .settled) ∧
    ∃ u, usageRowsOf l id = [u] ∧ u.toUsageRecord = record

/-- A release has passed: it counts no more, unless it had expired before. -/
def ClosedReservation (l : LedgerState) (id : Uuid) : Prop :=
  ∃ r ∈ l.reservations.rows, r.id = id ∧ (r.status = .released ∨ r.status = .expired)

/-- The reservation is what it was, or it has expired. -/
def Kept (l l' : LedgerState) (id : Uuid) : Prop :=
  ∀ r ∈ l.reservations.rows, r.id = id → ∃ r' ∈ l'.reservations.rows, r'.id = id ∧
    (r'.status = r.status ∨ (r.status = .reserved ∧ r'.status = .expired))

section
variable {env : LedgerEnv} {l l' : LedgerState} {id : Uuid}

theorem open_of_kept (h : Kept l l' id) (hopen : OpenReservation l id) : OpenReservation l' id := by
  obtain ⟨r, hr, hid, hsettleable⟩ := hopen
  obtain ⟨r', hr', hid', hsame | ⟨-, hexpired⟩⟩ := h r hr hid
  · refine ⟨r', hr', hid', ?_⟩
    unfold settleable
    rw [hsame]
    exact hsettleable
  · exact ⟨r', hr', hid', Or.inr hexpired⟩

theorem closed_of_kept (h : Kept l l' id) (hclosed : ClosedReservation l id) :
    ClosedReservation l' id := by
  obtain ⟨r, hr, hid, hstatus⟩ := hclosed
  obtain ⟨r', hr', hid', hsame | ⟨-, hexpired⟩⟩ := h r hr hid
  · exact ⟨r', hr', hid', hsame.symm ▸ hstatus⟩
  · exact ⟨r', hr', hid', Or.inr hexpired⟩

theorem kept_of_rows (h : l'.reservations = l.reservations) : Kept l l' id := by
  intro r hr hid
  exact ⟨r, h.symm ▸ hr, hid, Or.inl rfl⟩

/-- An UPDATE of another reservation. -/
theorem kept_of_updateWhere {p : ReservationRow → Prop} [DecidablePred p]
    {f : ReservationRow → ReservationRow} (hf : ∀ r, (f r).id = r.id)
    (h : l'.reservations = l.reservations.updateWhere p f hf) (hp : ∀ r, p r → r.id ≠ id) :
    Kept l l' id := by
  intro r hr hid
  refine ⟨r, ?_, hid, Or.inl rfl⟩
  rw [h]
  refine List.mem_map.mpr ⟨r, hr, if_neg ?_⟩
  intro hr
  exact hp r hr hid

/-- Only the settlement of the reservation itself does more to it than to let it expire. -/
theorem kept_of_advance (h : Advance env l l')
    (hid : ∀ n record, l.views n = .settling id record → l'.views n ≠ .settleEnded) :
    Kept l l' id := by
  cases h with
  | quiet hviews htables => exact kept_of_rows htables.reservations
  | refuses n hn hviews htables => exact kept_of_rows htables.reservations
  | fails n id record hn hwhy hviews htables => exact kept_of_rows htables.reservations
  | grants n b row ids hn hb hfresh hnew hviews hrows hmarked hsettlements =>
    intro r hr hrid
    refine ⟨Table.rewrite (fun r => r.id ∈ ids) expireRow r, ?_, ?_, ?_⟩
    · rw [hrows]
      exact List.mem_append_left _ (List.mem_map_of_mem hr)
    · exact (Table.key_rewrite (f := expireRow) (fun _ => rfl) r).trans hrid
    · unfold Table.rewrite
      split
      · exact Or.inr ⟨hmarked r hr ‹_›, rfl⟩
      · exact Or.inl rfl
  | settles n id' record now c u hn hopen hu hviews hreservations hsettlements =>
    refine kept_of_updateWhere (f := settleRow now c) (fun _ => rfl) hreservations ?_
    rintro r rfl rfl
    refine hid n record hn ?_
    rw [hviews, Function.update_self]

theorem unsettled_rows (hs : SettlementInv l) {r : ReservationRow} (hr : r ∈ l.reservations.rows)
    (hid : r.id = id) (hstatus : r.status ≠ .settled) : usageRowsOf l id = [] := by
  have hcount := hs.counted r hr
  rw [if_neg hstatus, hid] at hcount
  exact List.length_eq_zero_iff.mp hcount

theorem rows_of_open (hs : SettlementInv l) (h : OpenReservation l id) : usageRowsOf l id = [] := by
  obtain ⟨r, hr, hid, hopen⟩ := h
  refine unsettled_rows hs hr hid ?_
  rcases hopen with hopen | hopen <;> rw [hopen] <;> decide

theorem rows_of_closed (hs : SettlementInv l) (h : ClosedReservation l id) :
    usageRowsOf l id = [] := by
  obtain ⟨r, hr, hid, hclosed⟩ := h
  refine unsettled_rows hs hr hid ?_
  rcases hclosed with hclosed | hclosed <;> rw [hclosed] <;> decide

theorem settlements_grow {a : LedgerAct} (h : LedgerMove env l l' a) :
    ∃ more, l'.settlements = l.settlements ++ more := by
  have hsame : ∀ {x : LedgerState}, x.settlements = l.settlements →
      ∃ more, x.settlements = l.settlements ++ more := by
    intro x hx
    exact ⟨[], hx.trans (List.append_nil _).symm⟩
  cases h with
  | tick now hnow ht => exact hsame (ht ▸ rfl)
  | beginReserve n q h hn ht => exact hsame (ht ▸ rfl)
  | beginSettle n b id record hn ht => exact hsame (ht ▸ rfl)
  | lockReserve n now h hfree hn ht => exact hsame (ht ▸ rfl)
  | lockSettle n now id record hfree hn ht => exact hsame (ht ▸ rfl)
  | expire n now h hn ht => exact hsame (ht ▸ rfl)
  | check n now h ids id hn hfits ht => exact hsame (ht ▸ rfl)
  | transition n now id record c r hn hr hid hopen hc ht => exact hsame (ht ▸ rfl)
  | close n x hx ht => exact hsame (ht ▸ rfl)
  | commitReserve n now h ids row reservations' hn hfresh hrows ht => exact hsame (ht ▸ rfl)
  | commitSettle n now id record c u hn hu ht => exact ⟨[(id, u)], ht ▸ rfl⟩
  | released b id reason now hfree ht => exact hsame (ht ▸ rfl)
  | idle ht => exact hsame (ht ▸ rfl)

/-- A charge stays, and stays the only one. -/
theorem charged_mono {a : LedgerAct} {record : UsageRecord} (hinv : LedgerInv env l)
    (hs' : SettlementInv l') (h : LedgerMove env l l' a) (hcharged : Charged l id record) :
    Charged l' id record := by
  obtain ⟨⟨r, hr, hid, hstatus⟩, u, hu, hrecord⟩ := hcharged
  obtain ⟨r', hr', hmove⟩ := row_moves hinv h hr
  cases hmove.eq_of_final (Or.inl hstatus)
  obtain ⟨more, hmore⟩ := settlements_grow h
  have hrows : usageRowsOf l' id =
      usageRowsOf l id ++ (more.filter (fun p => p.1 = id)).map Prod.snd := by
    rw [usageRowsOf, hmore, List.filter_append, List.map_append]
    rfl
  have hcount := hs'.counted r hr'
  rw [if_pos hstatus, hid, hrows, hu, List.length_append, List.length_singleton, Nat.add_eq_left,
    List.length_eq_zero_iff] at hcount
  exact ⟨⟨r, hr', hid, hstatus⟩, u, by rw [hrows, hu, hcount]; rfl, hrecord⟩

theorem keys_mono {a : LedgerAct} (hinv : LedgerInv env l) (h : LedgerMove env l l' a) :
    ∀ id ∈ l.reservations.keys, id ∈ l'.reservations.keys := by
  intro id hid
  obtain ⟨r, hr, rfl⟩ := Table.mem_keys.mp hid
  obtain ⟨r', hr', hmove⟩ := row_moves hinv h hr
  exact hmove.id ▸ Table.key_mem_keys hr'

theorem usageRow_record {now : Time} {record : UsageRecord} {u : UsageRow}
    (h : usageRow env now record = some u) : u.toUsageRecord = record := by
  unfold usageRow at h
  split at h
  · cases h
    rfl
  · cases h

/-- The settlement that commits is the charge. -/
theorem charged_of_settles {now : Time} {c : Charge} {u : UsageRow} {record : UsageRecord}
    (hs : SettlementInv l) (hopen : OpenReservation l id) (hu : usageRow env now record = some u)
    (hreservations : l'.reservations =
      l.reservations.updateWhere (fun r => r.id = id) (settleRow now c) (fun _ => rfl))
    (hsettlements : l'.settlements = l.settlements ++ [(id, u)]) : Charged l' id record := by
  have hnone := rows_of_open hs hopen
  obtain ⟨r, hr, hid, -⟩ := hopen
  refine ⟨⟨settleRow now c r, ?_, hid, rfl⟩, u, ?_, usageRow_record hu⟩
  · rw [hreservations]
    exact List.mem_map.mpr ⟨r, hr, if_pos hid⟩
  · rw [usageRowsOf, hsettlements, List.filter_append, List.map_append]
    change usageRowsOf l id ++ _ = _
    rw [hnone]
    simp

/-! ## Beginning and releasing -/

theorem beginReserve_spec {n : Nat} {q : ReserveRequest}
    (h : ledgerStep env l (.beginReserve n q) = some l') :
    l.views n = .unused ∧ SameTables l l' ∧
      (l'.views = Function.update l.views n .reserving ∨
        l'.views = Function.update l.views n .refused) := by
  simp only [ledgerStep] at h
  split at h
  · rename_i hn
    refine ⟨by rw [LedgerState.views, hn]; rfl, ?_⟩
    split at h
    · cases h
      exact ⟨⟨rfl, rfl⟩, Or.inr (views_of_txns rfl rfl)⟩
    · cases h
      exact ⟨⟨rfl, rfl⟩, Or.inl (views_of_txns rfl rfl)⟩
  · cases h

theorem beginSettle_spec {n : Nat} {b : BudgetReservation} {record : UsageRecord}
    (hb : b.id = some id) (h : ledgerStep env l (.beginSettle n b record) = some l') :
    l.views n = .unused ∧ SameTables l l' ∧
      l'.views = Function.update l.views n (.settling id record) := by
  simp only [ledgerStep] at h
  split at h
  · rename_i id' hn hid'
    rw [hb] at hid'
    cases hid'
    cases h
    exact ⟨by rw [LedgerState.views, hn]; rfl, ⟨rfl, rfl⟩, views_of_txns rfl rfl⟩
  · cases h

theorem release_spec {b : BudgetReservation} {reason : String} {now : Time} (hb : b.id = some id)
    (h : ledgerStep env l (.release b reason now) = some l') :
    l'.views = l.views ∧ l'.reservations = release l.reservations now id reason := by
  simp only [ledgerStep, hb] at h
  split at h
  · cases h
  · cases h
    exact ⟨rfl, rfl⟩

/-- A reservation that has expired stays as it is. -/
theorem closed_of_release {reason : String} {now : Time} (hopen : OpenReservation l id)
    (h : l'.reservations = release l.reservations now id reason) : ClosedReservation l' id := by
  obtain ⟨r, hr, hid, hstatus⟩ := hopen
  refine ⟨Table.rewrite (fun r => r.id = id ∧ r.status = .reserved) (releaseRow now reason) r,
    ?_, ?_, ?_⟩
  · rw [h]
    exact List.mem_map_of_mem hr
  · exact (Table.key_rewrite (f := releaseRow now reason) (fun _ => rfl) r).trans hid
  · unfold Table.rewrite
    split
    · exact Or.inl rfl
    · rename_i hnot
      exact Or.inr (hstatus.resolve_left (fun hreserved => hnot ⟨hid, hreserved⟩))

end

/-! ## Calls -/

def TxnView.grantedId : TxnView → Option Uuid
  | .granted b => b.id
  | _ => none

/-- The reservation that is a call's, also where the call has yet to look. -/
def ChatPhase.holds (views : Nat → TxnView) : ChatPhase → Option Uuid
  | .reserving n => (views n).grantedId
  | p => p.reservation.bind BudgetReservation.id

/-- The transaction that a call is waiting for. -/
def ChatPhase.txn : ChatPhase → Option Nat
  | .reserving n | .settling _ _ _ _ n => some n
  | _ => none

/-- What a call can rely on. -/
def PhaseOk (q : ChatCall) (l : LedgerState) : ChatPhase → Prop
  | .called | .ended .unreserved => True
  | .reserving n =>
    l.views n = .reserving ∨ l.views n = .refused ∨
      ∃ b id, l.views n = .granted b ∧ b.id = some id ∧ OpenReservation l id
  | .reserved b | .hit b | .dispatching b _ | .delivered b _ _ | .ended (.undelivered b) =>
    ∃ id, b.id = some id ∧ OpenReservation l id
  | .ended (.malformed b r) => r.read = none ∧ ∃ id, b.id = some id ∧ OpenReservation l id
  | .read b r d _ => r.read = some d ∧ ∃ id, b.id = some id ∧ OpenReservation l id
  | .released b | .ended (.cached b) => ∃ id, b.id = some id ∧ ClosedReservation l id
  | .settling b r d _ n =>
    r.read = some d ∧ ∃ id, b.id = some id ∧
      ((l.views n = .settling id (q.metered d) ∧ OpenReservation l id) ∨
        (l.views n = .settleEnded ∧ ((q.metered d).nonneg → Charged l id (q.metered d))))
  | .ended (.answered b r d _) =>
    r.read = some d ∧ ∃ id, b.id = some id ∧ ((q.metered d).nonneg → Charged l id (q.metered d))

section
variable {env : LlmEnv} {l l' : LedgerState} {q : ChatCall} {p : ChatPhase}

theorem holds_congr {views views' : Nat → TxnView} (h : ∀ n, p.txn = some n → views' n = views n) :
    p.holds views' = p.holds views := by
  cases p with
  | reserving n => exact congrArg TxnView.grantedId (h n rfl)
  | called | reserved | hit | released | dispatching | delivered | read | settling | ended => rfl

theorem phaseOk_frame (hviews : ∀ n, p.txn = some n → l'.views n = l.views n)
    (hkept : ∀ id, p.holds l.views = some id → Kept l l' id)
    (hcharged : ∀ id record, Charged l id record → Charged l' id record) (h : PhaseOk q l p) :
    PhaseOk q l' p := by
  cases p with
  | called => trivial
  | reserving n =>
    rcases h with h | h | ⟨b, id, hn, hb, hopen⟩
    · exact Or.inl ((hviews n rfl).trans h)
    · exact Or.inr (Or.inl ((hviews n rfl).trans h))
    · refine Or.inr (Or.inr ⟨b, id, (hviews n rfl).trans hn, hb, open_of_kept (hkept id ?_) hopen⟩)
      rw [ChatPhase.holds, hn]
      exact hb
  | reserved b | hit b | dispatching b attempt | delivered b r attempts =>
    obtain ⟨id, hb, hopen⟩ := h
    exact ⟨id, hb, open_of_kept (hkept id hb) hopen⟩
  | released b =>
    obtain ⟨id, hb, hclosed⟩ := h
    exact ⟨id, hb, closed_of_kept (hkept id hb) hclosed⟩
  | read b r d attempts =>
    obtain ⟨hr, id, hb, hopen⟩ := h
    exact ⟨hr, id, hb, open_of_kept (hkept id hb) hopen⟩
  | settling b r d attempts n =>
    obtain ⟨hr, id, hb, ⟨hn, hopen⟩ | ⟨hn, hc⟩⟩ := h
    · exact ⟨hr, id, hb, Or.inl ⟨(hviews n rfl).trans hn, open_of_kept (hkept id hb) hopen⟩⟩
    · exact ⟨hr, id, hb,
        Or.inr ⟨(hviews n rfl).trans hn, fun hnonneg => hcharged id _ (hc hnonneg)⟩⟩
  | ended e =>
    cases e with
    | unreserved => trivial
    | cached b =>
      obtain ⟨id, hb, hclosed⟩ := h
      exact ⟨id, hb, closed_of_kept (hkept id hb) hclosed⟩
    | undelivered b =>
      obtain ⟨id, hb, hopen⟩ := h
      exact ⟨id, hb, open_of_kept (hkept id hb) hopen⟩
    | malformed b r =>
      obtain ⟨hr, id, hb, hopen⟩ := h
      exact ⟨hr, id, hb, open_of_kept (hkept id hb) hopen⟩
    | answered b r d response =>
      obtain ⟨hr, id, hb, hc⟩ := h
      exact ⟨hr, id, hb, fun hnonneg => hcharged id _ (hc hnonneg)⟩

/-- The calls, their reservations and their transactions. -/
structure ChatInv (env : LlmEnv) (s : ChatState) : Prop where
  ledger : LedgerInv env.ledger s.ledger
  settlement : SettlementInv s.ledger
  phases : ∀ i c, s.calls i = some c → PhaseOk c.call s.ledger c.phase
  held : ∀ i c id, s.calls i = some c → c.phase.holds s.ledger.views = some id →
    id ∈ s.ledger.reservations.keys
  apart : ∀ i j c d id, s.calls i = some c → s.calls j = some d →
    c.phase.holds s.ledger.views = some id → d.phase.holds s.ledger.views = some id → i = j
  settles : ∀ n id record, s.ledger.views n = .settling id record →
    ∃ i c, s.calls i = some c ∧ c.phase.txn = some n ∧ c.phase.holds s.ledger.views = some id
  txns : ∀ i j c d n, s.calls i = some c → s.calls j = some d → c.phase.txn = some n →
    d.phase.txn = some n → i = j
  used : ∀ i c n, s.calls i = some c → c.phase.txn = some n → s.ledger.views n ≠ .unused

theorem chatInv_initial (clock : Time) : ChatInv env (.initial clock) where
  ledger := ledgerInv_initial env.ledger clock
  settlement := settlementInv_initial clock
  phases := by
    intro i c hc
    cases hc
  held := by
    intro i c id hc
    cases hc
  apart := by
    intro i j c d id hc
    cases hc
  settles := by
    intro n id record h
    cases h
  txns := by
    intro i j c d n hc
    cases hc
  used := by
    intro i c n hc
    cases hc

/-! ## Statements -/

theorem holds_update {views : Nat → TxnView} {n : Nat} {v : TxnView}
    (h : v.grantedId = (views n).grantedId) :
    p.holds (Function.update views n v) = p.holds views := by
  cases p with
  | reserving m =>
    by_cases hm : m = n
    · rw [ChatPhase.holds, ChatPhase.holds, hm, Function.update_self]
      exact h
    · rw [ChatPhase.holds, ChatPhase.holds, Function.update_of_ne hm]
  | called | reserved | hit | released | dispatching | delivered | read | settling | ended => rfl

theorem views_of_ne {views views' : Nat → TxnView} {n : Nat} {v : TxnView}
    (h : views' = Function.update views n v) (hp : p.txn ≠ some n) :
    ∀ m, p.txn = some m → views' m = views m := by
  intro m hm
  rw [h]
  refine Function.update_of_ne ?_ _ _
  rintro rfl
  exact hp hm

variable {s : ChatState}

/-- A statement of another transaction leaves the reservation of a call alone. -/
theorem kept_held (hs : ChatInv env s) (h : Advance env.ledger s.ledger l') {i : Nat} {c : ChatRow}
    {id : Uuid} (hc : s.calls i = some c) (hid : c.phase.holds s.ledger.views = some id)
    (hviews : ∀ m, c.phase.txn = some m → l'.views m = s.ledger.views m) : Kept s.ledger l' id := by
  refine kept_of_advance h ?_
  intro m record hm hend
  obtain ⟨j, d, hd, htxn, hholds⟩ := hs.settles m id record hm
  cases hs.apart i j c d id hc hd hid hholds
  cases Option.some.inj (hc.symm.trans hd)
  rw [hviews m htxn, hm] at hend
  cases hend

theorem phaseOk_other (hs : ChatInv env s) (h : Advance env.ledger s.ledger l') {i : Nat}
    {c : ChatRow} (hcharged : ∀ id record, Charged s.ledger id record → Charged l' id record)
    (hc : s.calls i = some c) (hviews : ∀ m, c.phase.txn = some m → l'.views m = s.ledger.views m) :
    PhaseOk c.call l' c.phase :=
  phaseOk_frame hviews (fun _ hid => kept_held hs h hc hid hviews) hcharged (hs.phases i c hc)

/-- A statement after which nobody holds anything new. -/
theorem chatInv_sameHolds (hs : ChatInv env s) (hl : LedgerInv env.ledger l')
    (hsettlement : SettlementInv l')
    (hkeys : ∀ id ∈ s.ledger.reservations.keys, id ∈ l'.reservations.keys)
    (hphases : ∀ i c, s.calls i = some c → PhaseOk c.call l' c.phase)
    (hholds : ∀ p : ChatPhase, p.holds l'.views = p.holds s.ledger.views)
    (hsettles : ∀ n id record, l'.views n = .settling id record →
      s.ledger.views n = .settling id record)
    (hused : ∀ n, l'.views n = .unused → s.ledger.views n = .unused) :
    ChatInv env { s with ledger := l' } where
  ledger := hl
  settlement := hsettlement
  phases := hphases
  held := by
    intro i c id hc hid
    exact hkeys id (hs.held i c id hc ((hholds _).symm.trans hid))
  apart := by
    intro i j c d id hc hd hci hdi
    exact hs.apart i j c d id hc hd ((hholds _).symm.trans hci) ((hholds _).symm.trans hdi)
  settles := by
    intro n id record hn
    obtain ⟨i, c, hc, htxn, hid⟩ := hs.settles n id record (hsettles n id record hn)
    exact ⟨i, c, hc, htxn, (hholds _).trans hid⟩
  txns := hs.txns
  used := by
    intro i c n hc htxn hn
    exact hs.used i c n hc htxn (hused n hn)

theorem reserving_of_txn {n : Nat} (hp : PhaseOk q l p) (htxn : p.txn = some n)
    (hn : l.views n = .reserving) : p = .reserving n := by
  cases p with
  | reserving m =>
    cases htxn
    rfl
  | settling b r d attempts m =>
    cases htxn
    obtain ⟨-, id, -, ⟨hm, -⟩ | ⟨hm, -⟩⟩ := hp
    · rw [hn] at hm
      cases hm
    · rw [hn] at hm
      cases hm
  | called | reserved | hit | released | dispatching | delivered | read | ended => cases htxn

theorem settling_of_txn {n : Nat} {id : Uuid} {record : UsageRecord} (hp : PhaseOk q l p)
    (htxn : p.txn = some n) (hn : l.views n = .settling id record) :
    ∃ b r d attempts, p = .settling b r d attempts n ∧ r.read = some d ∧ b.id = some id ∧
      record = q.metered d ∧ OpenReservation l id := by
  cases p with
  | reserving m =>
    cases htxn
    rcases hp with hm | hm | ⟨b, id', hm, -⟩
    all_goals
      rw [hn] at hm
      cases hm
  | settling b r d attempts m =>
    cases htxn
    obtain ⟨hr, id', hb, ⟨hm, hopen⟩ | ⟨hm, -⟩⟩ := hp
    · rw [hn] at hm
      cases hm
      exact ⟨b, r, d, attempts, rfl, hr, hb, rfl, hopen⟩
    · rw [hn] at hm
      cases hm
  | called | reserved | hit | released | dispatching | delivered | read | ended => cases htxn

theorem chatInv_grants (hs : ChatInv env s) (hl : LedgerInv env.ledger l')
    (hsettlement : SettlementInv l')
    (hkeys : ∀ id ∈ s.ledger.reservations.keys, id ∈ l'.reservations.keys)
    (hcharged : ∀ id record, Charged s.ledger id record → Charged l' id record)
    (h : Advance env.ledger s.ledger l') {n : Nat} {b : BudgetReservation} {row : ReservationRow}
    (hn : s.ledger.views n = .reserving) (hb : b.id = some row.id)
    (hfresh : row.id ∉ s.ledger.reservations.keys) (hnew : row.status = .reserved)
    (hrow : row ∈ l'.reservations.rows)
    (hviews : l'.views = Function.update s.ledger.views n (.granted b)) :
    ChatInv env { s with ledger := l' } := by
  have hself : l'.views n = .granted b := by rw [hviews, Function.update_self]
  have hold : ∀ i c, s.calls i = some c → c.phase.txn ≠ some n →
      c.phase.holds l'.views = c.phase.holds s.ledger.views :=
    fun i c _ htxn => holds_congr (views_of_ne hviews htxn)
  have hgranted : ∀ i c, s.calls i = some c → c.phase.txn = some n → c.phase = .reserving n :=
    fun i c hc htxn => reserving_of_txn (hs.phases i c hc) htxn hn
  have hholds : ∀ i c id, s.calls i = some c → c.phase.holds l'.views = some id →
      (c.phase.txn = some n ∧ id = row.id) ∨ c.phase.holds s.ledger.views = some id := by
    intro i c id hc hid
    by_cases htxn : c.phase.txn = some n
    · rw [hgranted i c hc htxn, ChatPhase.holds, hself] at hid
      exact Or.inl ⟨htxn, Option.some.inj (hid.symm.trans hb)⟩
    · exact Or.inr ((hold i c hc htxn).symm.trans hid)
  constructor
  case ledger => exact hl
  case settlement => exact hsettlement
  case txns => exact hs.txns
  case phases =>
    intro i c hc
    by_cases htxn : c.phase.txn = some n
    · rw [hgranted i c hc htxn]
      exact Or.inr (Or.inr ⟨b, row.id, hself, hb, row, hrow, rfl, Or.inl hnew⟩)
    · exact phaseOk_other hs h hcharged hc (views_of_ne hviews htxn)
  case held =>
    intro i c id hc hid
    rcases hholds i c id hc hid with ⟨-, rfl⟩ | hid
    · exact Table.key_mem_keys hrow
    · exact hkeys id (hs.held i c id hc hid)
  case apart =>
    -- The new id is nobody's yet.
    intro i j c d id hc hd hci hdi
    rcases hholds i c id hc hci with ⟨htxn, rfl⟩ | hci
    · rcases hholds j d row.id hd hdi with ⟨htxn', -⟩ | hdi
      · exact hs.txns i j c d n hc hd htxn htxn'
      · exact absurd (hs.held j d row.id hd hdi) hfresh
    · rcases hholds j d id hd hdi with ⟨-, rfl⟩ | hdi
      · exact absurd (hs.held i c row.id hc hci) hfresh
      · exact hs.apart i j c d id hc hd hci hdi
  case settles =>
    intro m id record hm
    have hmn : m ≠ n := by
      rintro rfl
      rw [hself] at hm
      cases hm
    change l'.views m = _ at hm
    rw [hviews, Function.update_of_ne hmn] at hm
    obtain ⟨i, c, hc, htxn, hid⟩ := hs.settles m id record hm
    refine ⟨i, c, hc, htxn, (hold i c hc ?_).trans hid⟩
    rw [htxn]
    exact fun h => hmn (Option.some.inj h)
  case used =>
    intro i c m hc htxn hm
    by_cases hmn : m = n
    · rw [hmn] at hm
      rw [hself] at hm
      cases hm
    · change l'.views m = _ at hm
      rw [hviews, Function.update_of_ne hmn] at hm
      exact hs.used i c m hc htxn hm

theorem chatInv_advance (hs : ChatInv env s) (hl : LedgerInv env.ledger l')
    (hsettlement : SettlementInv l')
    (hkeys : ∀ id ∈ s.ledger.reservations.keys, id ∈ l'.reservations.keys)
    (hcharged : ∀ id record, Charged s.ledger id record → Charged l' id record)
    (h : Advance env.ledger s.ledger l') : ChatInv env { s with ledger := l' } := by
  -- A transaction that ends without a grant: its own call is looked at, the others go on.
  have hends : ∀ (n : Nat) (v : TxnView), v.grantedId = (s.ledger.views n).grantedId →
      (∀ id record, v ≠ .settling id record) → v ≠ .unused →
      l'.views = Function.update s.ledger.views n v →
      (∀ i c, s.calls i = some c → c.phase.txn = some n → PhaseOk c.call l' c.phase) →
      ChatInv env { s with ledger := l' } := by
    intro n v hgranted hsettling hunused hviews hown
    have hself : l'.views n = v := by rw [hviews, Function.update_self]
    refine chatInv_sameHolds hs hl hsettlement hkeys ?_ ?_ ?_ ?_
    · intro i c hc
      by_cases htxn : c.phase.txn = some n
      · exact hown i c hc htxn
      · exact phaseOk_other hs h hcharged hc (views_of_ne hviews htxn)
    · intro p
      rw [hviews]
      exact holds_update hgranted
    · intro m id record hm
      by_cases hmn : m = n
      · rw [hmn, hself] at hm
        exact absurd hm (hsettling id record)
      · rw [hviews, Function.update_of_ne hmn] at hm
        exact hm
    · intro m hm
      by_cases hmn : m = n
      · rw [hmn, hself] at hm
        exact absurd hm hunused
      · rw [hviews, Function.update_of_ne hmn] at hm
        exact hm
  cases h with
  | quiet hviews htables =>
    refine chatInv_sameHolds hs hl hsettlement hkeys ?_ (fun p => by rw [hviews]) ?_ ?_
    · intro i c hc
      exact phaseOk_other hs (.quiet hviews htables) hcharged hc (fun m _ => by rw [hviews])
    · intro n id record hn
      exact hviews ▸ hn
    · intro n hn
      exact hviews ▸ hn
  | refuses n hn hviews htables =>
    refine hends n .refused (by rw [hn]; rfl) nofun nofun hviews ?_
    intro i c hc htxn
    rw [reserving_of_txn (hs.phases i c hc) htxn hn]
    exact Or.inr (Or.inl (by rw [hviews, Function.update_self]))
  | grants n b row ids hn hb hfresh hnew hviews hrows hmarked hsettlements =>
    refine chatInv_grants hs hl hsettlement hkeys hcharged
      (.grants n b row ids hn hb hfresh hnew hviews hrows hmarked hsettlements) hn hb hfresh
      hnew ?_ hviews
    rw [hrows]
    exact List.mem_append_right _ (List.mem_singleton.mpr rfl)
  | fails n id record hn hwhy hviews htables =>
    refine hends n .settleEnded (by rw [hn]; rfl) nofun nofun hviews ?_
    intro i c hc htxn
    obtain ⟨b, r, d, attempts, hphase, hr, hb, hrecord, hopen⟩ :=
      settling_of_txn (hs.phases i c hc) htxn hn
    rw [hphase]
    refine ⟨hr, id, hb, Or.inr ⟨by rw [hviews, Function.update_self], ?_⟩⟩
    intro hnonneg
    exact absurd ⟨hopen, hrecord.symm ▸ hnonneg⟩ hwhy
  | settles n id record now c u hn hopen hu hviews hreservations hsettlements =>
    refine hends n .settleEnded (by rw [hn]; rfl) nofun nofun hviews ?_
    intro i x hx htxn
    obtain ⟨b, r, d, attempts, hphase, hr, hb, hrecord, -⟩ :=
      settling_of_txn (hs.phases i x hx) htxn hn
    rw [hphase]
    refine ⟨hr, id, hb, Or.inr ⟨by rw [hviews, Function.update_self], ?_⟩⟩
    intro hnonneg
    exact charged_of_settles hs.settlement hopen (hrecord ▸ hu) hreservations hsettlements

/-! ## Calls that move on -/

/-- What a call changes when it moves on: of the transactions at most its own, of the
reservations at most its own, and it holds nothing it did not hold. -/
structure OwnMove (env : LlmEnv) (s : ChatState) (i : Nat) (q : ChatCall) (p p' : ChatPhase)
    (l' : LedgerState) : Prop where
  ledger : LedgerInv env.ledger l'
  settlement : SettlementInv l'
  keys : ∀ id ∈ s.ledger.reservations.keys, id ∈ l'.reservations.keys
  charged : ∀ id record, Charged s.ledger id record → Charged l' id record
  views : ∀ m, p'.txn ≠ some m → l'.views m = s.ledger.views m
  fresh : ∀ m, p'.txn = some m → (p.txn = some m ∨ s.ledger.views m = .unused) ∧
    l'.views m ≠ .unused
  kept : ∀ j c id, j ≠ i → s.calls j = some c → c.phase.holds s.ledger.views = some id →
    Kept s.ledger l' id
  ok : PhaseOk q l' p'
  holds : ∀ id, p'.holds l'.views = some id → p.holds s.ledger.views = some id
  settles : ∀ m id record, p'.txn = some m → l'.views m = .settling id record →
    p'.holds l'.views = some id
  leaves : ∀ m id record, p.txn = some m → s.ledger.views m = .settling id record → p'.txn = some m

theorem chatInv_move {i : Nat} {p' : ChatPhase} (hs : ChatInv env s) (hc : s.calls i = some ⟨q, p⟩)
    (h : OwnMove env s i q p p' l') (recorded : List (Nat × UsageRow)) :
    ChatInv env ⟨l', Function.update s.calls i (some ⟨q, p'⟩), recorded⟩ := by
  have hothers : ∀ j c m, j ≠ i → s.calls j = some c → c.phase.txn = some m → p'.txn ≠ some m := by
    intro j c m hj hcj htxn hm
    rcases (h.fresh m hm).1 with hown | hunused
    · exact hj (hs.txns j i c ⟨q, p⟩ m hcj hc htxn hown)
    · exact hs.used j c m hcj htxn hunused
  have hviews : ∀ j c, j ≠ i → s.calls j = some c → ∀ m, c.phase.txn = some m →
      l'.views m = s.ledger.views m :=
    fun j c hj hcj m htxn => h.views m (hothers j c m hj hcj htxn)
  have hcalls : ∀ j c, Function.update s.calls i (some ⟨q, p'⟩) j = some c →
      (j = i ∧ c = ⟨q, p'⟩) ∨ (j ≠ i ∧ s.calls j = some c) :=
    fun j c hcj => update_eq_some hcj
  have hholds : ∀ j c id, j ≠ i → s.calls j = some c → c.phase.holds l'.views = some id →
      c.phase.holds s.ledger.views = some id :=
    fun j c id hj hcj hid => (holds_congr (hviews j c hj hcj)).symm.trans hid
  constructor
  case ledger => exact h.ledger
  case settlement => exact h.settlement
  case phases =>
    intro j c hcj
    rcases hcalls j c hcj with ⟨rfl, rfl⟩ | ⟨hj, hjs⟩
    · exact h.ok
    · exact phaseOk_frame (hviews j c hj hjs) (fun id hid => h.kept j c id hj hjs hid) h.charged
        (hs.phases j c hjs)
  case held =>
    intro j c id hcj hid
    rcases hcalls j c hcj with ⟨rfl, rfl⟩ | ⟨hj, hjs⟩
    · exact h.keys id (hs.held j ⟨q, p⟩ id hc (h.holds id hid))
    · exact h.keys id (hs.held j c id hjs (hholds j c id hj hjs hid))
  case apart =>
    intro j k c d id hcj hdk hci hdi
    rcases hcalls j c hcj with ⟨rfl, rfl⟩ | ⟨hj, hjs⟩
    · rcases hcalls k d hdk with ⟨rfl, rfl⟩ | ⟨hk, hks⟩
      · rfl
      · exact hs.apart j k ⟨q, p⟩ d id hc hks (h.holds id hci) (hholds k d id hk hks hdi)
    · rcases hcalls k d hdk with ⟨rfl, rfl⟩ | ⟨hk, hks⟩
      · exact hs.apart j k c ⟨q, p⟩ id hjs hc (hholds j c id hj hjs hci) (h.holds id hdi)
      · exact hs.apart j k c d id hjs hks (hholds j c id hj hjs hci) (hholds k d id hk hks hdi)
  case settles =>
    intro m id record hm
    by_cases hown : p'.txn = some m
    · exact ⟨i, ⟨q, p'⟩, Function.update_self _ _ _, hown, h.settles m id record hown hm⟩
    · have hold : s.ledger.views m = .settling id record := (h.views m hown).symm.trans hm
      obtain ⟨j, c, hcj, htxn, hid⟩ := hs.settles m id record hold
      have hj : j ≠ i := by
        rintro rfl
        cases Option.some.inj (hcj.symm.trans hc)
        exact hown (h.leaves m id record htxn hold)
      exact ⟨j, c, (Function.update_of_ne hj _ _).trans hcj, htxn,
        (holds_congr (hviews j c hj hcj)).trans hid⟩
  case txns =>
    intro j k c d m hcj hdk htxn htxn'
    rcases hcalls j c hcj with ⟨rfl, rfl⟩ | ⟨hj, hjs⟩
    · rcases hcalls k d hdk with ⟨rfl, rfl⟩ | ⟨hk, hks⟩
      · rfl
      · exact absurd htxn (hothers k d m hk hks htxn')
    · rcases hcalls k d hdk with ⟨rfl, rfl⟩ | ⟨hk, hks⟩
      · exact absurd htxn' (hothers j c m hj hjs htxn)
      · exact hs.txns j k c d m hjs hks htxn htxn'
  case used =>
    intro j c m hcj htxn hm
    rcases hcalls j c hcj with ⟨rfl, rfl⟩ | ⟨hj, hjs⟩
    · exact (h.fresh m htxn).2 hm
    · exact hs.used j c m hjs htxn ((hviews j c hj hjs m htxn).symm.trans hm)

/-- A call that moves on without the ledger, and out of its transaction if it was in one. -/
theorem ownMove_alone {i : Nat} (hs : ChatInv env s) (p' : ChatPhase) (htxn : p'.txn = none)
    (hok : PhaseOk q s.ledger p')
    (hholds : ∀ id, p'.holds s.ledger.views = some id → p.holds s.ledger.views = some id)
    (hleaves : ∀ m id record, p.txn = some m → s.ledger.views m ≠ .settling id record) :
    OwnMove env s i q p p' s.ledger where
  ledger := hs.ledger
  settlement := hs.settlement
  keys := fun _ hid => hid
  charged := fun _ _ h => h
  views := fun _ _ => rfl
  fresh := by
    intro m hm
    rw [htxn] at hm
    cases hm
  kept := fun _ _ _ _ _ _ => kept_of_rows rfl
  ok := hok
  holds := hholds
  settles := by
    intro m id record hm
    rw [htxn] at hm
    cases hm
  leaves := by
    intro m id record hm hsettling
    exact absurd hsettling (hleaves m id record hm)

/-- A call that begins a transaction. -/
theorem ownMove_begin {i n : Nat} {v : TxnView} (p' : ChatPhase) (hp : p.txn = none)
    (hp' : p'.txn = some n) (hl : LedgerInv env.ledger l') (hsettlement : SettlementInv l')
    (htables : SameTables s.ledger l') (hunused : s.ledger.views n = .unused)
    (hviews : l'.views = Function.update s.ledger.views n v) (hv : v ≠ .unused)
    (hok : PhaseOk q l' p')
    (hholds : ∀ id, p'.holds l'.views = some id → p.holds s.ledger.views = some id)
    (hsettles : ∀ id record, v = .settling id record → p'.holds l'.views = some id) :
    OwnMove env s i q p p' l' where
  ledger := hl
  settlement := hsettlement
  keys := by
    intro id hid
    rw [htables.reservations]
    exact hid
  charged := by
    intro id record h
    unfold Charged usageRowsOf
    rw [htables.reservations, htables.settlements]
    exact h
  views := by
    intro m hm
    rw [hviews]
    refine Function.update_of_ne ?_ _ _
    rintro rfl
    exact hm hp'
  fresh := by
    intro m hm
    cases Option.some.inj (hp'.symm.trans hm)
    refine ⟨Or.inr hunused, ?_⟩
    rw [hviews, Function.update_self]
    exact hv
  kept := fun _ _ _ _ _ _ => kept_of_rows htables.reservations
  ok := hok
  holds := hholds
  settles := by
    intro m id record hm hsettling
    cases Option.some.inj (hp'.symm.trans hm)
    rw [hviews, Function.update_self] at hsettling
    exact hsettles id record hsettling
  leaves := by
    intro m id record hm
    rw [hp] at hm
    cases hm

/-- A call that hands on the reservation it has, or ends with it. -/
theorem chatInv_keep {i : Nat} (hs : ChatInv env s) (hc : s.calls i = some ⟨q, p⟩) (p' : ChatPhase)
    (hp : p.txn = none) (htxn : p'.txn = none)
    (hsame : p'.holds s.ledger.views = p.holds s.ledger.views) (hok : PhaseOk q s.ledger p')
    (recorded : List (Nat × UsageRow)) :
    ChatInv env ⟨s.ledger, Function.update s.calls i (some ⟨q, p'⟩), recorded⟩ := by
  have hmove : OwnMove env s i q p p' s.ledger := by
    refine ownMove_alone hs p' htxn hok (fun id hid => hsame.symm.trans hid) ?_
    intro m id record hm
    rw [hp] at hm
    cases hm
  exact chatInv_move hs hc hmove recorded

theorem chatInv_reserve {i n : Nat} (hs : ChatInv env s) (hc : s.calls i = some ⟨q, .called⟩)
    (h : ledgerStep env.ledger s.ledger (.beginReserve n (q.reserveRequest env)) = some l')
    (recorded : List (Nat × UsageRow)) :
    ChatInv env ⟨l', Function.update s.calls i (some ⟨q, .reserving n⟩), recorded⟩ := by
  obtain ⟨hunused, htables, hviews⟩ := beginReserve_spec h
  have hmove := ledgerStep_move h
  have hl := ledgerInv_step hs.ledger hmove
  have hsettlement := settlementInv_step hs.settlement hs.ledger hmove
  have hself : l'.views n = .reserving ∨ l'.views n = .refused :=
    hviews.imp (fun hviews => by rw [hviews, Function.update_self])
      (fun hviews => by rw [hviews, Function.update_self])
  have hnone : ∀ id, (ChatPhase.reserving n).holds l'.views ≠ some id := by
    intro id hid
    rw [ChatPhase.holds] at hid
    rcases hself with hn | hn <;> (rw [hn] at hid; cases hid)
  have hok : PhaseOk q l' (.reserving n) := hself.imp_right Or.inl
  rcases hviews with hviews | hviews
  · exact chatInv_move hs hc
      (ownMove_begin (.reserving n) rfl rfl hl hsettlement htables hunused hviews nofun hok
        (fun id hid => absurd hid (hnone id)) nofun) recorded
  · exact chatInv_move hs hc
      (ownMove_begin (.reserving n) rfl rfl hl hsettlement htables hunused hviews nofun hok
        (fun id hid => absurd hid (hnone id)) nofun) recorded

theorem chatInv_settle {i n attempts : Nat} {b : BudgetReservation} {r : ProviderResponse}
    {d : ResponseData} (hs : ChatInv env s) (hc : s.calls i = some ⟨q, .read b r d attempts⟩)
    (h : ledgerStep env.ledger s.ledger (.beginSettle n b (q.metered d)) = some l')
    (recorded : List (Nat × UsageRow)) :
    ChatInv env ⟨l', Function.update s.calls i (some ⟨q, .settling b r d attempts n⟩),
      recorded⟩ := by
  obtain ⟨hr, id, hb, hopen⟩ := hs.phases i _ hc
  obtain ⟨hunused, htables, hviews⟩ := beginSettle_spec hb h
  have hmove := ledgerStep_move h
  have hself : l'.views n = .settling id (q.metered d) := by rw [hviews, Function.update_self]
  refine chatInv_move hs hc
    (ownMove_begin (.settling b r d attempts n) rfl rfl (ledgerInv_step hs.ledger hmove)
      (settlementInv_step hs.settlement hs.ledger hmove) htables hunused hviews nofun ?_
      (fun _ hid => hid) ?_) recorded
  · exact ⟨hr, id, hb, Or.inl ⟨hself, open_of_kept (kept_of_rows htables.reservations) hopen⟩⟩
  · intro id' record hv
    cases hv
    exact hb

theorem chatInv_release {i : Nat} {b : BudgetReservation} {reason : String} {now : Time}
    (hs : ChatInv env s) (hc : s.calls i = some ⟨q, .hit b⟩)
    (h : ledgerStep env.ledger s.ledger (.release b reason now) = some l')
    (recorded : List (Nat × UsageRow)) :
    ChatInv env ⟨l', Function.update s.calls i (some ⟨q, .released b⟩), recorded⟩ := by
  obtain ⟨id, hb, hopen⟩ := hs.phases i _ hc
  obtain ⟨hviews, hreservations⟩ := release_spec hb h
  have hmove := ledgerStep_move h
  have hsettlement := settlementInv_step hs.settlement hs.ledger hmove
  refine chatInv_move hs hc ?_ recorded
  constructor
  case ledger => exact ledgerInv_step hs.ledger hmove
  case settlement => exact hsettlement
  case keys => exact keys_mono hs.ledger hmove
  case charged => exact fun _ _ hcharged => charged_mono hs.ledger hsettlement hmove hcharged
  case views => exact fun m _ => by rw [hviews]
  case fresh => exact fun m hm => nomatch hm
  case kept =>
    intro j c id' hj hcj hid'
    refine kept_of_updateWhere (f := releaseRow now reason) (fun _ => rfl) hreservations ?_
    rintro r ⟨rfl, -⟩ rfl
    exact hj (hs.apart j i c ⟨q, .hit b⟩ r.id hcj hc hid' hb)
  case ok => exact ⟨id, hb, closed_of_release hopen hreservations⟩
  case holds => exact fun _ hid => hid
  case settles => exact fun m _ _ hm => nomatch hm
  case leaves => exact fun m _ _ hm => nomatch hm

theorem chatInv_callStep {t : ChatState} {i : Nat} {a : ChatStep} (hs : ChatInv env s)
    (hc : s.calls i = some ⟨q, p⟩) (h : callStep env s i q p a = some t) : ChatInv env t := by
  have hok : PhaseOk q s.ledger p := hs.phases i _ hc
  unfold callStep at h
  split at h
  case h_1 =>
    cases h
    exact chatInv_keep hs hc (.ended .unreserved) rfl rfl rfl trivial _
  case h_2 n =>
    obtain ⟨l', hl', rfl⟩ := Option.map_eq_some_iff.mp h
    exact chatInv_reserve hs hc hl' _
  case h_3 n =>
    split at h
    · rename_i b hn
      cases h
      have hview : s.ledger.views n = .granted b := by rw [LedgerState.views, hn]; rfl
      have hopen : ∃ id, b.id = some id ∧ OpenReservation s.ledger id := by
        rcases hok with hn' | hn' | ⟨b', id, hn', hb, hopen⟩
        all_goals
          rw [hview] at hn'
          cases hn'
        exact ⟨id, hb, hopen⟩
      refine chatInv_move hs hc (ownMove_alone hs (.reserved b) rfl hopen ?_ ?_) _
      · intro id hid
        rw [ChatPhase.holds, hview]
        exact hid
      · intro m id record hm
        cases hm
        rw [hview]
        intro h
        cases h
    · rename_i e hn
      cases h
      have hview : s.ledger.views n = .refused := by rw [LedgerState.views, hn]; rfl
      refine chatInv_move hs hc (ownMove_alone hs (.ended .unreserved) rfl trivial ?_ ?_) _
      · intro id hid
        cases hid
      · intro m id record hm
        cases hm
        rw [hview]
        intro h
        cases h
    · cases h
  case h_4 b hit =>
    split at h
    · split at h
      · cases h
        exact chatInv_keep hs hc (.hit b) rfl rfl rfl hok _
      · cases h
    · cases h
      exact chatInv_keep hs hc (.dispatching b 1) rfl rfl rfl hok _
  case h_5 b now =>
    obtain ⟨l', hl', rfl⟩ := Option.map_eq_some_iff.mp h
    exact chatInv_release hs hc hl' _
  case h_6 b =>
    cases h
    exact chatInv_keep hs hc (.ended (.cached b)) rfl rfl rfl hok _
  case h_7 b attempt =>
    cases h
    exact chatInv_keep hs hc (.ended (.undelivered b)) rfl rfl rfl hok _
  case h_8 b attempt r =>
    cases h
    exact chatInv_keep hs hc (.delivered b r attempt) rfl rfl rfl hok _
  case h_9 b attempt statusCode =>
    split at h
    · cases h
      exact chatInv_keep hs hc (.dispatching b (attempt + 1)) rfl rfl rfl hok _
    · cases h
      exact chatInv_keep hs hc (.ended (.undelivered b)) rfl rfl rfl hok _
  case h_10 b r attempts =>
    split at h
    · rename_i d hd
      cases h
      exact chatInv_keep hs hc (.read b r d attempts) rfl rfl rfl ⟨hd, hok⟩ _
    · rename_i hnone
      cases h
      exact chatInv_keep hs hc (.ended (.malformed b r)) rfl rfl rfl ⟨hnone, hok⟩ _
  case h_11 b r d attempts n =>
    obtain ⟨l', hl', rfl⟩ := Option.map_eq_some_iff.mp h
    exact chatInv_settle hs hc hl' _
  case h_12 b r d attempts n =>
    split at h
    · rename_i outcome hn
      cases h
      have hview : s.ledger.views n = .settleEnded := by rw [LedgerState.views, hn]; rfl
      obtain ⟨hr, id, hb, ⟨hn', -⟩ | ⟨-, hcharged⟩⟩ := hok
      · rw [hview] at hn'
        cases hn'
      · refine chatInv_move hs hc
          (ownMove_alone hs (.ended (.answered b r d _)) rfl ⟨hr, id, hb, hcharged⟩
            (fun _ hid => hid) ?_) _
        intro m id record hm
        cases hm
        rw [hview]
        intro h
        cases h
    · cases h
  case h_13 => cases h

theorem chatInv_call {i : Nat} (hs : ChatInv env s) (hfree : s.calls i = none) :
    ChatInv env (s.move i q .called) := by
  have hcalls : ∀ j c, (s.move i q .called).calls j = some c → c.phase = .called ∨
      s.calls j = some c := by
    intro j c hcj
    rcases update_eq_some hcj with ⟨-, rfl⟩ | ⟨-, hcj⟩
    · exact Or.inl rfl
    · exact Or.inr hcj
  have hheld : ∀ j c id, (s.move i q .called).calls j = some c →
      c.phase.holds s.ledger.views = some id → s.calls j = some c := by
    intro j c id hcj hid
    refine (hcalls j c hcj).resolve_left ?_
    intro hcalled
    rw [hcalled] at hid
    cases hid
  have htxn : ∀ j c n, (s.move i q .called).calls j = some c → c.phase.txn = some n →
      s.calls j = some c := by
    intro j c n hcj hn
    refine (hcalls j c hcj).resolve_left ?_
    intro hcalled
    rw [hcalled] at hn
    cases hn
  refine ⟨hs.ledger, hs.settlement, ?_, ?_, ?_, ?_, ?_, ?_⟩
  · intro j c hcj
    rcases hcalls j c hcj with hcalled | hcj
    · rw [hcalled]
      trivial
    · exact hs.phases j c hcj
  · intro j c id hcj hid
    exact hs.held j c id (hheld j c id hcj hid) hid
  · intro j k c d id hcj hdk hci hdi
    exact hs.apart j k c d id (hheld j c id hcj hci) (hheld k d id hdk hdi) hci hdi
  · intro n id record hn
    obtain ⟨j, c, hcj, hj⟩ := hs.settles n id record hn
    refine ⟨j, c, (Function.update_of_ne ?_ _ _).trans hcj, hj⟩
    rintro rfl
    rw [hfree] at hcj
    cases hcj
  · intro j k c d n hcj hdk hcn hdn
    exact hs.txns j k c d n (htxn j c n hcj hcn) (htxn k d n hdk hdn) hcn hdn
  · intro j c n hcj hcn
    exact hs.used j c n (htxn j c n hcj hcn) hcn

theorem chatInv_step {t : ChatState} {a : ChatAct} (hs : ChatInv env s)
    (h : chatStep env s a = some t) : ChatInv env t := by
  cases a with
  | call i q =>
    simp only [chatStep, Option.isNone_iff_eq_none, Option.ite_none_right_eq_some,
      Option.some.injEq] at h
    obtain ⟨hfree, rfl⟩ := h
    exact chatInv_call hs hfree
  | step i a =>
    obtain ⟨⟨q, p⟩, hc, hstep⟩ := Option.bind_eq_some_iff.mp h
    exact chatInv_callStep hs hc hstep
  | ledger a =>
    simp only [chatStep, Option.ite_none_right_eq_some] at h
    obtain ⟨ha, h⟩ := h
    obtain ⟨l', hl', rfl⟩ := Option.map_eq_some_iff.mp h
    have hmove := ledgerStep_move hl'
    have hsettlement := settlementInv_step hs.settlement hs.ledger hmove
    exact chatInv_advance hs (ledgerInv_step hs.ledger hmove)
      hsettlement (keys_mono hs.ledger hmove)
      (fun _ _ hcharged => charged_mono hs.ledger hsettlement hmove hcharged)
      (ledgerStep_advance hs.ledger ha hl')

end

/-! ## Rows without a reservation -/

/-- What a call records outside of its reservation. -/
def cacheRecords : Option ChatRow → List UsageRecord
  | some ⟨q, .ended (.cached _)⟩ => [q.cacheRecord]
  | _ => []

def RecordedInv (s : ChatState) : Prop :=
  ∀ i, (s.recordedBy i).map UsageRow.toUsageRecord = cacheRecords (s.calls i)

section
variable {env : LlmEnv} {s t : ChatState} {q : ChatCall} {p : ChatPhase} {i : Nat}

theorem price_nonneg (model : String) {inputTokens outputTokens : Int} (hinput : 0 ≤ inputTokens)
    (houtput : 0 ≤ outputTokens) : 0 ≤ price model inputTokens outputTokens := by
  have hrates : 0 ≤ (rates model).1 ∧ 0 ≤ (rates model).2 := by
    have htable : ∀ r ∈ modelPricing, 0 ≤ r.2.1 ∧ 0 ≤ r.2.2 := by decide +kernel
    unfold rates
    cases hlookup : modelPricing.lookup model with
    | none => decide +kernel
    | some r =>
      obtain ⟨before, after, hsplit, -⟩ := List.lookup_eq_some_iff.mp hlookup
      refine htable (model, r) ?_
      rw [hsplit]
      exact List.mem_append_right _ List.mem_cons_self
  have hi : (0 : ℚ) ≤ inputTokens := by exact_mod_cast hinput
  have ho : (0 : ℚ) ≤ outputTokens := by exact_mod_cast houtput
  unfold price
  exact div_nonneg (add_nonneg (mul_nonneg hi hrates.1) (mul_nonneg ho hrates.2)) (by norm_num)

theorem metered_nonneg {d : ResponseData} (hinput : 0 ≤ d.inputTokens)
    (houtput : 0 ≤ d.outputTokens) : (q.metered d).nonneg :=
  ⟨⟨hinput, houtput⟩, price_nonneg _ hinput houtput⟩

/-- Zero tokens at no cost pass every CHECK. -/
theorem usageRow_cacheRecord (env : LlmEnv) (q : ChatCall) (now : Time) :
    ∃ u, usageRow env.ledger now q.cacheRecord = some u ∧ u.toUsageRecord = q.cacheRecord := by
  have hnonneg : q.cacheRecord.nonneg :=
    ⟨⟨le_refl 0, le_refl 0⟩, price_nonneg _ (le_refl 0) (le_refl 0)⟩
  have hrow : ∃ u, usageRow env.ledger now q.cacheRecord = some u := usageRow_of_nonneg now hnonneg
  obtain ⟨u, hu⟩ := hrow
  exact ⟨u, hu, usageRow_record hu⟩

/-- The call moves on, and records what its new phase stands for. -/
def MovesOn (s t : ChatState) (i : Nat) (q : ChatCall) : Prop :=
  ∃ (p' : ChatPhase) (more : List UsageRow), t.calls = Function.update s.calls i (some ⟨q, p'⟩) ∧
    t.recorded = s.recorded ++ more.map (fun u => (i, u)) ∧
    more.map UsageRow.toUsageRecord = cacheRecords (some ⟨q, p'⟩)

theorem movesOn_quiet {p' : ChatPhase} (hcalls : t.calls = Function.update s.calls i (some ⟨q, p'⟩))
    (hrecorded : t.recorded = s.recorded) (hnone : cacheRecords (some ⟨q, p'⟩) = []) :
    MovesOn s t i q :=
  ⟨p', [], hcalls, hrecorded.trans (List.append_nil _).symm, hnone.symm⟩

/-- No step leads out of an end. -/
theorem callStep_movesOn {a : ChatStep} (h : callStep env s i q p a = some t) :
    cacheRecords (some ⟨q, p⟩) = [] ∧ MovesOn s t i q := by
  unfold callStep at h
  split at h
  case h_1 | h_7 | h_8 =>
    cases h
    exact ⟨rfl, movesOn_quiet rfl rfl rfl⟩
  case h_2 | h_5 | h_11 =>
    obtain ⟨l', -, rfl⟩ := Option.map_eq_some_iff.mp h
    exact ⟨rfl, movesOn_quiet rfl rfl rfl⟩
  case h_3 | h_9 | h_10 | h_12 =>
    refine ⟨rfl, ?_⟩
    split at h
    all_goals
      cases h
      try exact movesOn_quiet rfl rfl rfl
  case h_4 =>
    refine ⟨rfl, ?_⟩
    repeat' split at h
    all_goals
      cases h
      try exact movesOn_quiet rfl rfl rfl
  case h_6 b =>
    cases h
    obtain ⟨u, hu, hrecord⟩ := usageRow_cacheRecord env q s.ledger.clock
    refine ⟨rfl, .ended (.cached b), [u], rfl, ?_, ?_⟩
    · rw [hu]
      rfl
    · rw [List.map_singleton, hrecord]
      rfl
  case h_13 => cases h

theorem recordedBy_append (j : Nat) (more : List UsageRow)
    (hrecorded : t.recorded = s.recorded ++ more.map (fun u => (i, u))) :
    t.recordedBy j = s.recordedBy j ++ if j = i then more else [] := by
  unfold ChatState.recordedBy
  rw [hrecorded, List.filter_append, List.map_append, List.filter_map, List.map_map]
  by_cases hj : j = i
  · rw [if_pos hj, hj]
    simp [Function.comp_def]
  · rw [if_neg hj]
    simp [Function.comp_def, Ne.symm hj]

theorem recordedInv_step {a : ChatAct} (hs : RecordedInv s) (h : chatStep env s a = some t) :
    RecordedInv t := by
  cases a with
  | call i q =>
    simp only [chatStep, Option.isNone_iff_eq_none, Option.ite_none_right_eq_some,
      Option.some.injEq] at h
    obtain ⟨hfree, rfl⟩ := h
    intro j
    change (s.recordedBy j).map _ = cacheRecords (Function.update s.calls i _ j)
    rw [hs j]
    by_cases hj : j = i
    · rw [hj, hfree, Function.update_self]
      rfl
    · rw [Function.update_of_ne hj]
  | step i a =>
    obtain ⟨⟨q, p⟩, hc, hstep⟩ := Option.bind_eq_some_iff.mp h
    obtain ⟨hnone, p', more, hcalls, hrecorded, hmore⟩ := callStep_movesOn hstep
    intro j
    rw [recordedBy_append j more hrecorded, List.map_append, hs j, hcalls]
    by_cases hj : j = i
    · rw [if_pos hj, hj, hc, Function.update_self, hnone]
      exact hmore
    · rw [if_neg hj, Function.update_of_ne hj]
      exact List.append_nil _
  | ledger a =>
    simp only [chatStep, Option.ite_none_right_eq_some] at h
    obtain ⟨-, h⟩ := h
    obtain ⟨l', -, rfl⟩ := Option.map_eq_some_iff.mp h
    exact hs

end

section
variable {env : LlmEnv} {clock : Time} {acts : List ChatAct} {s : ChatState} {i : Nat} {c : ChatRow}

theorem chatInv_of_reaches (h : Reaches (chatStep env) (.initial clock) acts s) : ChatInv env s :=
  h.invariant (fun _ _ _ hs hstep => chatInv_step hs hstep) (chatInv_initial clock)

theorem recordedInv_of_reaches (h : Reaches (chatStep env) (.initial clock) acts s) :
    RecordedInv s :=
  h.invariant (fun _ _ _ hs hstep => recordedInv_step hs hstep) (fun _ => rfl)

theorem recorded_cacheRecord (h : Reaches (chatStep env) (.initial clock) acts s) :
    ∀ u ∈ s.recordedBy i, ∃ q : ChatCall, u.toUsageRecord = q.cacheRecord := by
  intro u hu
  have hmem := recordedInv_of_reaches h i ▸ List.mem_map_of_mem (f := UsageRow.toUsageRecord) hu
  unfold cacheRecords at hmem
  split at hmem
  · rename_i q b hc
    exact ⟨q, List.mem_singleton.mp hmem⟩
  · cases hmem

/-- The ledger need not count what is recorded without a reservation. -/
theorem recorded_counts_nothing (h : Reaches (chatStep env) (.initial clock) acts s) :
    ∀ u ∈ s.recordedBy i, u.totalTokens = 0 ∧ u.costUsd = 0 := by
  intro u hu
  obtain ⟨q, hq⟩ := recorded_cacheRecord h u hu
  have htokens : u.toUsageRecord.tokens = q.cacheRecord.tokens := congrArg UsageRecord.tokens hq
  have hcost : u.costUsd = q.cacheRecord.costUsd := congrArg UsageRecord.costUsd hq
  refine ⟨htokens, hcost.trans ?_⟩
  simp [ChatCall.cacheRecord, ChatCall.usageRecord, price]

theorem answered_charged {q : ChatCall} {b : BudgetReservation} {r : ProviderResponse}
    {d : ResponseData} {response : Option ChatResponse}
    (h : Reaches (chatStep env) (.initial clock) acts s)
    (hc : s.calls i = some ⟨q, .ended (.answered b r d response)⟩) :
    r.read = some d ∧ s.recordedBy i = [] ∧ ∃ id, b.id = some id ∧
      (0 ≤ d.inputTokens → 0 ≤ d.outputTokens → Charged s.ledger id (q.metered d)) := by
  obtain ⟨hread, id, hb, hcharged⟩ := (chatInv_of_reaches h).phases i _ hc
  refine ⟨hread, ?_, id, hb, fun hinput houtput => hcharged (metered_nonneg hinput houtput)⟩
  have hrecorded := recordedInv_of_reaches h i
  rw [hc] at hrecorded
  exact List.map_eq_nil_iff.mp hrecorded

theorem cached_accounted {q : ChatCall} {b : BudgetReservation}
    (h : Reaches (chatStep env) (.initial clock) acts s)
    (hc : s.calls i = some ⟨q, .ended (.cached b)⟩) :
    (∃ id, b.id = some id ∧ ClosedReservation s.ledger id ∧ usageRowsOf s.ledger id = []) ∧
      ∃ u, s.recordedBy i = [u] ∧ u.toUsageRecord = q.cacheRecord := by
  have hs := chatInv_of_reaches h
  obtain ⟨id, hb, hclosed⟩ := hs.phases i _ hc
  refine ⟨⟨id, hb, hclosed, rows_of_closed hs.settlement hclosed⟩, ?_⟩
  have hrecorded := recordedInv_of_reaches h i
  rw [hc] at hrecorded
  exact List.map_eq_singleton_iff.mp hrecorded

/-- A reservation that its call leaves open has no usage row; it counts until it expires. -/
theorem unwritten_of_open {q : ChatCall} {e : ChatEnd} {b : BudgetReservation}
    (h : Reaches (chatStep env) (.initial clock) acts s) (hc : s.calls i = some ⟨q, .ended e⟩)
    (he : e = .undelivered b ∨ ∃ r, e = .malformed b r) :
    s.recordedBy i = [] ∧ ∃ id, b.id = some id ∧ OpenReservation s.ledger id ∧
      usageRowsOf s.ledger id = [] := by
  have hs := chatInv_of_reaches h
  have hphase := hs.phases i _ hc
  have hrecorded := recordedInv_of_reaches h i
  rw [hc] at hrecorded
  have hopen : ∃ id, b.id = some id ∧ OpenReservation s.ledger id := by
    rcases he with rfl | ⟨r, rfl⟩
    · exact hphase
    · exact hphase.2
  have hnone : s.recordedBy i = [] := by
    rcases he with rfl | ⟨r, rfl⟩
    · exact List.map_eq_nil_iff.mp hrecorded
    · exact List.map_eq_nil_iff.mp hrecorded
  obtain ⟨id, hb, hopen⟩ := hopen
  exact ⟨hnone, id, hb, hopen, rows_of_open hs.settlement hopen⟩

/-- Of every interleaving: a call that has ended has charged the response it read, on its
own reservation and once. An answer of the cache is one row of its own, at no cost. A call
without either has written nothing. -/
theorem provider_responses_charged (h : Reaches (chatStep env) (.initial clock) acts s)
    (hc : s.calls i = some c) (hended : c.phase.isEnded = true) :
    (∀ r d, c.phase.response = some r → r.read = some d → 0 ≤ d.inputTokens → 0 ≤ d.outputTokens →
      s.recordedBy i = [] ∧ ∃ b id, c.phase.reservation = some b ∧
      b.id = some id ∧ Charged s.ledger id (c.call.metered d)) ∧
      (c.phase.answeredFromCache = true → c.phase.response = none ∧
        (∃ b id, c.phase.reservation = some b ∧ b.id = some id ∧ ClosedReservation s.ledger id ∧
        usageRowsOf s.ledger id = []) ∧
        ∃ u, s.recordedBy i = [u] ∧ u.toUsageRecord = c.call.cacheRecord) ∧
      (c.phase.response = none → c.phase.answeredFromCache = false → s.recordedBy i = [] ∧
        ∀ b id, c.phase.reservation = some b → b.id = some id → usageRowsOf s.ledger id = []) := by
  obtain ⟨q, p⟩ := c
  cases p with
  | ended e =>
    cases e with
    | unreserved =>
      refine ⟨fun _ _ hresponse => (by cases hresponse), fun hcache => (by cases hcache),
        fun _ _ => ⟨?_, ?_⟩⟩
      · have hrecorded := recordedInv_of_reaches h i
        rw [hc] at hrecorded
        exact List.map_eq_nil_iff.mp hrecorded
      · intro b id hb
        cases hb
    | cached b =>
      obtain ⟨⟨id, hb, hclosed, hrows⟩, hrecorded⟩ := cached_accounted h hc
      refine ⟨fun _ _ hresponse => (by cases hresponse),
        fun _ => ⟨rfl, ⟨b, id, rfl, hb, hclosed, hrows⟩, hrecorded⟩, ?_⟩
      intro _ hcache
      cases hcache
    | undelivered b =>
      obtain ⟨hrecorded, id, hb, -, hrows⟩ := unwritten_of_open h hc (Or.inl rfl)
      refine ⟨fun _ _ hresponse => (by cases hresponse), fun hcache => (by cases hcache),
        fun _ _ => ⟨hrecorded, ?_⟩⟩
      intro b' id' hb' hid'
      cases hb'
      cases Option.some.inj (hb.symm.trans hid')
      exact hrows
    | malformed b r =>
      obtain ⟨hread, -⟩ := (chatInv_of_reaches h).phases i _ hc
      refine ⟨?_, fun hcache => (by cases hcache), fun hresponse => (by cases hresponse)⟩
      intro r' d hr hd
      cases hr
      rw [hread] at hd
      cases hd
    | answered b r d response =>
      obtain ⟨hread, hrecorded, id, hb, hcharged⟩ := answered_charged h hc
      refine ⟨?_, fun hcache => (by cases hcache), fun hresponse => (by cases hresponse)⟩
      intro r' d' hr hd hinput houtput
      cases hr
      cases Option.some.inj (hread.symm.trans hd)
      exact ⟨hrecorded, b, id, rfl, hb, hcharged hinput houtput⟩
  | called | reserving | reserved | hit | released | dispatching | delivered | read | settling =>
    cases hended

end

/-! ## Two calls of a small tenant -/

def chatEnv : LlmEnv where
  ledger := smallTenant
  tokenCount := fun text _ => text.length
  llmDefaultMaxOutputTokens := 100
  hasCache := true

def smallChat : ChatCall where
  ctx := ⟨⟨7, ⟨1, "acme"⟩, "alice", [.owner]⟩, 5, none, none, none⟩
  workload := some "manuals"
  task := some "chat"
  request := ⟨"gpt-4o-mini", ["How do I reset the device?"], some 50, true⟩

def smallAnswer : ProviderResponse where
  usage := some ⟨.int 9, .int 21⟩
  choices := some [⟨some ⟨some "Hold the button.", some []⟩, some "stop"⟩]

/-- The first call is throttled once; the second one has its answer from the cache. -/
def throttledAndCached : List ChatAct :=
  [.call 1 smallChat, .step 1 (.reserve 1), .ledger (.lock 1), .ledger (.expire 1),
    .ledger (.check 1 11), .ledger (.commit 1), .call 2 smallChat, .step 1 .reserved,
    .step 2 (.reserve 2), .step 1 (.lookup false), .ledger (.lock 2),
    .step 1 (.dispatch (.raised (some 429))), .ledger (.expire 2), .ledger (.check 2 12),
    .step 1 (.dispatch (.returned smallAnswer)), .ledger (.commit 2), .step 2 .reserved,
    .step 1 .read, .step 2 (.lookup true), .step 1 (.settle 3), .step 2 (.release 86390),
    .ledger (.lock 3), .ledger (.transition 3), .step 2 .record, .ledger (.commit 3),
    .step 1 .settled]

theorem throttledAndCached_run :
    (throttledAndCached.foldlM (chatStep chatEnv) (.initial 86390)).isSome = true := by
  decide +kernel

theorem provider_responses_charged_throttledAndCached :
    ∃ s b, Reaches (chatStep chatEnv) (.initial 86390) throttledAndCached s ∧
      (∃ id, BudgetReservation.id b = some id ∧
        Charged s.ledger id (smallChat.metered ⟨9, 21, "Hold the button.", true⟩)) ∧
      ∃ u, s.recordedBy 2 = [u] ∧ u.toUsageRecord = smallChat.cacheRecord := by
  have hrun := reaches_get throttledAndCached_run
  have hanswered : (((throttledAndCached.foldlM (chatStep chatEnv) (.initial 86390)).get
      throttledAndCached_run).calls 1) =
      some ⟨smallChat, .ended (.answered ⟨some 11, 1, 76, price "gpt-4o-mini" 26 50, true⟩
        smallAnswer ⟨9, 21, "Hold the button.", true⟩
        (chatResponse "gpt-4o-mini" smallAnswer ⟨9, 21, "Hold the button.", true⟩ 2))⟩ := by
    decide +kernel
  have hcached : (((throttledAndCached.foldlM (chatStep chatEnv) (.initial 86390)).get
      throttledAndCached_run).calls 2) =
      some ⟨smallChat, .ended (.cached ⟨some 12, 1, 76, price "gpt-4o-mini" 26 50, true⟩)⟩ := by
    decide +kernel
  obtain ⟨-, b, id, -, hb, hcharged⟩ :=
    (provider_responses_charged hrun hanswered rfl).1 smallAnswer ⟨9, 21, "Hold the button.", true⟩
      rfl rfl (by decide) (by decide)
  exact ⟨_, b, hrun, ⟨id, hb, hcharged⟩,
    ((provider_responses_charged hrun hcached rfl).2.1 rfl).2.2⟩

/-- No dispatch has returned to the second call, and yet it has written a row. -/
theorem cached_call_writes_row :
    ∃ s c, Reaches (chatStep chatEnv) (.initial 86390) throttledAndCached s ∧
      s.calls 2 = some c ∧ c.phase.isEnded = true ∧ c.phase.response = none ∧
      (s.recordedBy 2).map (fun u => (u.inputTokens, u.outputTokens, u.cacheHit)) =
      [(0, 0, true)] := by
  have hcached : (((throttledAndCached.foldlM (chatStep chatEnv) (.initial 86390)).get
      throttledAndCached_run).calls 2) =
      some ⟨smallChat, .ended (.cached ⟨some 12, 1, 76, price "gpt-4o-mini" 26 50, true⟩)⟩ := by
    decide +kernel
  have hrows : (((throttledAndCached.foldlM (chatStep chatEnv) (.initial 86390)).get
      throttledAndCached_run).recordedBy 2).map
      (fun u => (u.inputTokens, u.outputTokens, u.cacheHit)) =
      [(0, 0, true)] := by
    decide +kernel
  exact ⟨_, _, reaches_get throttledAndCached_run, hcached, rfl, rfl, hrows⟩

end AgenticPlatform.Observability
