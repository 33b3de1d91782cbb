import AgenticPlatform.Observability.LedgerInvariant

/-!
# The ceiling of a tenant's budget

Headroom is held by a live reservation, then by the usage row its settlement inserts.
At the commit of a reservation everything that counts lies below both caps. Where every
settlement stays within its estimate and comes before its reservation expires, what was
spent never reaches a cap: spend and pledges together stay below it, and only a new
reservation, which is checked, adds to them.
-/
namespace AgenticPlatform.Observability
open AgenticPlatform.Foundation AgenticPlatform.Identity AgenticPlatform.Db

/-! ## At the commit of a reservation -/

def Under (env : LedgerEnv) (t : Totals) : Prop :=
  t.tokensToday + t.reservedTokens < dailyCap env ∧ t.costMonth + t.reservedCost < monthlyCap env

theorem Under.of_le {env : LedgerEnv} {t u : Totals} (h : Under env u) (hle : t.Le u) :
    Under env t :=
  ⟨lt_of_le_of_lt (add_le_add hle.tokensToday hle.reservedTokens) h.1,
    lt_of_le_of_lt (add_le_add hle.costMonth hle.reservedCost) h.2⟩

/-- The new reservation on top of what counted when it was checked. -/
theorem under_commitReserve {env : LedgerEnv} {reservations reservations' : ReservationTable}
    {usage : List UsageRow} {now clock : Time} {h : Hold} {ids : List Uuid} {row : ReservationRow}
    (hrows : reservations'.rows = (markExpired reservations ids).rows ++ [row]) (hnow : now ≤ clock)
    (hrow : ∃ id, row = newReservation env now h id) (hfits : Fits env reservations usage now h) :
    Under env (totals env reservations' usage clock) := by
  obtain ⟨id, rfl⟩ := hrow
  have hold : (totals env (markExpired reservations ids) usage clock).Le
      (totals env reservations usage now) := by
    apply totalsWhere_updateWhere_le (p := live now) (q := live clock) (f := expireRow)
      (c := fun r => r.id ∈ ids) (fun _ => rfl) hnow _ (fun _ => rfl) (fun _ => rfl)
    intro r _ hl
    unfold Table.rewrite at hl
    split at hl
    · cases hl.1
    · exact ⟨hl.1, lt_of_le_of_lt hnow hl.2⟩
  have htokens : (totals env reservations' usage clock).reservedTokens ≤
      (totals env (markExpired reservations ids) usage clock).reservedTokens +
      h.estimatedTokens := by
    show sumWhere _ _ reservations'.rows ≤ _
    rw [hrows, sumWhere_append]
    exact add_le_add (le_refl _) (sumWhere_singleton_le h.nonneg.1)
  have hcost : (totals env reservations' usage clock).reservedCost ≤
      (totals env (markExpired reservations ids) usage clock).reservedCost +
      h.estimatedCostUsd := by
    show sumWhere _ _ reservations'.rows ≤ _
    rw [hrows, sumWhere_append]
    exact add_le_add (le_refl _) (sumWhere_singleton_le h.nonneg.2)
  have hspent : (totals env reservations' usage clock).tokensToday ≤
      (totals env reservations usage now).tokensToday :=
    hold.tokensToday
  have hmonth : (totals env reservations' usage clock).costMonth ≤
      (totals env reservations usage now).costMonth :=
    hold.costMonth
  have hreserved := hold.reservedTokens
  have hreserved' := hold.reservedCost
  obtain ⟨hdaily, hmonthly⟩ := hfits
  unfold projectedTokens at hdaily
  unfold projectedCost at hmonthly
  constructor
  · omega
  · linarith

/-- This step makes the call a successful metered reserve. -/
def Grants (s t : LedgerState) (n : Nat) : Prop :=
  s.txns n ≠ t.txns n ∧ ∃ b, t.txns n = .reserveEnded (.ok b) ∧ b.metered = true

theorem not_grants_update {s t : LedgerState} {n m : Nat} {x : Txn}
    (htxns : t.txns = Function.update s.txns n x)
    (hx : ∀ b, x = .reserveEnded (.ok b) → b.metered = false) : ¬ Grants s t m := by
  rintro ⟨hne, b, hb, hmetered⟩
  rw [htxns] at hne hb
  by_cases he : m = n
  · subst he
    rw [Function.update_self] at hb
    rw [hx b hb] at hmetered
    cases hmetered
  · rw [Function.update_of_ne he] at hne
    exact hne rfl

theorem metered_of_spent {x : Txn} (h : x.spent = true) (b : BudgetReservation)
    (hx : x = .reserveEnded (.ok b)) : b.metered = false := by
  subst hx
  simpa [Txn.spent] using h

theorem under_of_grants {env : LedgerEnv} {s t : LedgerState} {a : LedgerAct} {n : Nat}
    (hinv : LedgerInv env s) (hmove : LedgerMove env s t a) (hgrants : Grants s t n) :
    Under env (totals env t.reservations t.usage t.clock) := by
  cases hmove with
  | tick now hnow ht =>
    subst ht
    exact absurd rfl hgrants.1
  | beginReserve m q h hn ht =>
    subst ht
    exact absurd hgrants (not_grants_update rfl nofun)
  | beginSettle m b id record hn ht =>
    subst ht
    exact absurd hgrants (not_grants_update rfl nofun)
  | lockReserve m now h hfree hn ht =>
    subst ht
    exact absurd hgrants (not_grants_update rfl nofun)
  | lockSettle m now id record hfree hn ht =>
    subst ht
    exact absurd hgrants (not_grants_update rfl nofun)
  | expire m now h hn ht =>
    subst ht
    exact absurd hgrants (not_grants_update rfl nofun)
  | check m now h ids id hn hfits ht =>
    subst ht
    exact absurd hgrants (not_grants_update rfl nofun)
  | transition m now id record c r hn hr hid hopen hc ht =>
    subst ht
    exact absurd hgrants (not_grants_update rfl nofun)
  | close m x hx ht =>
    subst ht
    exact absurd hgrants (not_grants_update rfl (metered_of_spent hx))
  | commitReserve m now h ids row reservations' hn hfresh hrows ht =>
    subst ht
    have hok := hinv m
    rw [hn] at hok
    obtain ⟨hnow, -, -, hrow, hfits⟩ := hok
    exact under_commitReserve hrows hnow hrow hfits
  | commitSettle m now id record c u hn hu ht =>
    subst ht
    exact absurd hgrants (not_grants_update rfl nofun)
  | released b id reason now hfree ht =>
    subst ht
    exact absurd rfl hgrants.1
  | idle ht =>
    subst ht
    exact absurd rfl hgrants.1

/-! ## Pledges -/

/-- The reservation the holder of the lock is settling. -/
def Txn.settling : Txn → Option Uuid
  | .settled _ id _ _ => some id
  | _ => none

def LedgerState.settling (s : LedgerState) : Option Uuid :=
  s.holder.bind (fun n => (s.txns n).settling)

/-- A reservation that is live, or whose settlement has come in time. -/
def pledged (s : LedgerState) (r : ReservationRow) : Prop :=
  r.status = .reserved ∧ (s.clock < r.expiresAt ∨ s.settling = some r.id)

instance (s : LedgerState) (r : ReservationRow) : Decidable (pledged s r) :=
  inferInstanceAs (Decidable (_ ∧ _))

def pledges (env : LedgerEnv) (s : LedgerState) : Totals :=
  totalsWhere env (pledged s) s.reservations s.usage s.clock

/-- The settlement stays within the estimate and comes before the reservation expires. -/
def settlesWithin (s : LedgerState) : LedgerAct → Bool
  | .transition n =>
    match s.txns n with
    | .settleLocked _ id record =>
      s.reservations.rows.all
        (fun r => !decide (r.id = id ∧ settleable r) || decide (record.tokens ≤ r.estimatedTokens ∧
          record.costUsd ≤ r.estimatedCostUsd ∧ s.clock < r.expiresAt))
    | _ => true
  | _ => true

/-- Spend and pledges lie below the caps, a settlement under way has its pledge, and a
reservation marked expired is past its time. -/
structure PledgeInv (env : LedgerEnv) (s : LedgerState) : Prop where
  under : Under env (pledges env s)
  backed : ∀ n now id record c, s.txns n = .settled now id record c →
    ∃ r ∈ s.reservations.rows, r.id = id ∧ r.status = .reserved ∧
    record.tokens ≤ r.estimatedTokens ∧ record.costUsd ≤ r.estimatedCostUsd
  expired : ∀ r ∈ s.reservations.rows, r.status = .expired → r.expiresAt ≤ s.clock

theorem pledgeInv_initial {env : LedgerEnv} (clock : Time) (hdaily : 0 < dailyCap env)
    (hmonthly : 0 < monthlyCap env) : PledgeInv env (.initial clock) where
  under := by
    have hnothing : pledges env (.initial clock) = ⟨0, 0, 0, 0⟩ := rfl
    rw [hnothing]
    constructor
    · simpa using hdaily
    · simpa using hmonthly
  backed := by
    intro n now id record c hn
    cases hn
  expired := by
    intro r hr
    cases hr

/-- What was spent is at most spend and pledges. -/
theorem spent_below {env : LedgerEnv} {s : LedgerState} (h : PledgeInv env s) :
    (totals env s.reservations s.usage s.clock).tokensToday < dailyCap env ∧
      (totals env s.reservations s.usage s.clock).costMonth < monthlyCap env := by
  have htokens : 0 ≤ (pledges env s).reservedTokens :=
    sumWhere_nonneg (fun r => r.estimate_nonneg.1)
  have hcost : 0 ≤ (pledges env s).reservedCost := sumWhere_nonneg (fun r => r.estimate_nonneg.2)
  constructor
  · exact lt_of_le_of_lt (le_add_of_nonneg_right htokens) h.under.1
  · exact lt_of_le_of_lt (le_add_of_nonneg_right hcost) h.under.2

/-! ## Every step keeps them -/

theorem settling_update {s t : LedgerState} {n : Nat} {x : Txn} {id : Uuid}
    (htxns : t.txns = Function.update s.txns n x) (hx : x.settling = none)
    (hholder : ∀ m, m ≠ n → t.holder = some m → s.holder = some m) (h : t.settling = some id) :
    s.settling = some id := by
  obtain ⟨m, hm, hid⟩ := Option.bind_eq_some_iff.mp h
  rw [htxns] at hid
  by_cases he : m = n
  · subst he
    rw [Function.update_self, hx] at hid
    cases hid
  · rw [Function.update_of_ne he] at hid
    exact Option.bind_eq_some_iff.mpr ⟨m, hholder m he hm, hid⟩

/-- A step of one call that leaves the tables and the clock alone. -/
theorem pledgeInv_update {env : LedgerEnv} {s t : LedgerState} {n : Nat} {x : Txn}
    (h : PledgeInv env s) (hclock : t.clock = s.clock)
    (hreservations : t.reservations = s.reservations) (husage : t.usage = s.usage)
    (htxns : t.txns = Function.update s.txns n x) (hx : x.settling = none)
    (hholder : ∀ m, m ≠ n → t.holder = some m → s.holder = some m) : PledgeInv env t where
  under := by
    unfold pledges
    rw [hclock, hreservations, husage]
    apply h.under.of_le
    apply totalsWhere_le (List.map_id _).symm (List.map_id _).symm (le_refl _) _ (fun _ => rfl)
      (fun _ => rfl)
    rintro r _ ⟨hstatus, hpledge⟩
    refine ⟨hstatus, ?_⟩
    rcases hpledge with hlive | hsettling
    · exact Or.inl (hclock ▸ hlive)
    · exact Or.inr (settling_update htxns hx hholder hsettling)
  backed := by
    intro m now id record c hm
    rw [hreservations]
    rw [htxns] at hm
    by_cases he : m = n
    · subst he
      rw [Function.update_self] at hm
      subst hm
      cases hx
    · rw [Function.update_of_ne he] at hm
      exact h.backed m now id record c hm
  expired := by
    rw [hclock, hreservations]
    exact h.expired

theorem pledgeInv_tick {env : LedgerEnv} {s : LedgerState} {now : Time} (h : PledgeInv env s)
    (hnow : s.clock ≤ now) : PledgeInv env { s with clock := now } where
  under := by
    apply h.under.of_le
    apply totalsWhere_le (List.map_id _).symm (List.map_id _).symm hnow _ (fun _ => rfl)
      (fun _ => rfl)
    rintro r _ ⟨hstatus, hpledge⟩
    refine ⟨hstatus, ?_⟩
    rcases hpledge with hlive | hsettling
    · exact Or.inl (lt_of_le_of_lt hnow hlive)
    · exact Or.inr hsettling
  backed := h.backed
  expired := by
    intro r hr hstatus
    exact le_trans (h.expired r hr hstatus) hnow

theorem pledgeInv_transition {env : LedgerEnv} {s : LedgerState} {n : Nat} {now : Time} {id : Uuid}
    {record : UsageRecord} {c : Charge} {r : ReservationRow} (h : PledgeInv env s)
    (hr : r ∈ s.reservations.rows) (hid : r.id = id) (hopen : settleable r)
    (htokens : record.tokens ≤ r.estimatedTokens) (hcost : record.costUsd ≤ r.estimatedCostUsd)
    (hlive : s.clock < r.expiresAt) : PledgeInv env (s.setTxn n (.settled now id record c)) := by
  have hstatus : r.status = .reserved := by
    rcases hopen with hreserved | hexpired
    · exact hreserved
    · exact absurd (h.expired r hr hexpired) (not_le.mpr hlive)
  constructor
  · apply h.under.of_le
    apply totalsWhere_le (List.map_id _).symm (List.map_id _).symm (le_refl _) _ (fun _ => rfl)
      (fun _ => rfl)
    rintro r' hr' ⟨hstatus', hpledge⟩
    refine ⟨hstatus', ?_⟩
    rcases hpledge with hlive' | hsettling
    · exact Or.inl hlive'
    · obtain ⟨m, hm, hsame⟩ := Option.bind_eq_some_iff.mp hsettling
      simp only [LedgerState.setTxn] at hm hsame
      by_cases he : m = n
      · subst he
        rw [Function.update_self] at hsame
        have hrow : r' = r := Table.eq_of_key hr' hr (((Option.some.inj hsame).symm).trans hid.symm)
        rw [hrow]
        exact Or.inl hlive
      · rw [Function.update_of_ne he] at hsame
        exact Or.inr (Option.bind_eq_some_iff.mpr ⟨m, hm, hsame⟩)
  · intro m now' id' record' c' hm
    have hm : Function.update s.txns n (.settled now id record c) m =
        .settled now' id' record' c' := hm
    by_cases he : m = n
    · subst he
      rw [Function.update_self] at hm
      cases hm
      exact ⟨r, hr, hid, hstatus, htokens, hcost⟩
    · rw [Function.update_of_ne he] at hm
      exact h.backed m now' id' record' c' hm
  · exact h.expired

theorem holder_freed {s : LedgerState} {n : Nat} (h : s.holder = some n) :
    s.holder.filter (fun m => m ≠ n) = none := by
  rw [h]
  simp

/-- After a commit no call has the lock, so none is settling. -/
theorem not_settled_of_free {env : LedgerEnv} {t : LedgerState} (hinv : LedgerInv env t)
    (hfree : t.holder = none) {n : Nat} {now : Time} {id : Uuid} {record : UsageRecord}
    {c : Charge} : t.txns n ≠ .settled now id record c := by
  intro hn
  have hok := hinv n
  rw [hn] at hok
  have hlock := hok.2.1
  rw [hfree] at hlock
  cases hlock

theorem pledgeInv_commitReserve {env : LedgerEnv} {s t : LedgerState} {n : Nat} {now : Time}
    {h : Hold} {ids : List Uuid} {row : ReservationRow} (hpledge : PledgeInv env s)
    (hinv : LedgerInv env s) (hinv' : LedgerInv env t) (hn : s.txns n = .reserved now h ids row)
    (hclock : t.clock = s.clock) (husage : t.usage = s.usage) (hfree : t.holder = none)
    (hrows : t.reservations.rows = (markExpired s.reservations ids).rows ++ [row]) :
    PledgeInv env t := by
  have hok := hinv n
  rw [hn] at hok
  obtain ⟨hnow, -, hmarked, hrow, hfits⟩ := hok
  constructor
  · have hunder : Under env (totals env t.reservations t.usage t.clock) := by
      rw [husage, hclock]
      exact under_commitReserve hrows hnow hrow hfits
    apply hunder.of_le
    apply totalsWhere_le (List.map_id _).symm (List.map_id _).symm (le_refl _) _ (fun _ => rfl)
      (fun _ => rfl)
    rintro r _ ⟨hstatus, hlive | hsettling⟩
    · exact ⟨hstatus, hlive⟩
    · rw [LedgerState.settling, hfree] at hsettling
      cases hsettling
  · intro m now' id record c hm
    exact absurd hm (not_settled_of_free hinv' hfree)
  · intro r hr hstatus
    rw [hclock]
    rw [hrows] at hr
    rcases List.mem_append.mp hr with hr | hr
    · rcases Table.mem_updateWhere (f := expireRow) (fun _ => rfl) hr with ⟨hr, -⟩ |
        ⟨r', hr', hmem, rfl⟩
      · exact hpledge.expired r hr hstatus
      · exact le_trans (hmarked r' hr' hmem).2 hnow
    · obtain ⟨id, rfl⟩ := hrow
      rw [List.mem_singleton.mp hr] at hstatus
      cases hstatus

theorem usageRow_amounts {env : LedgerEnv} {now : Time} {record : UsageRecord} {u : UsageRow}
    (h : usageRow env now record = some u) :
    u.totalTokens = record.tokens ∧ u.costUsd = record.costUsd := by
  unfold usageRow at h
  split at h
  · cases h
    exact ⟨rfl, rfl⟩
  · cases h

/-- One more usage row raises what was spent by no more than its amounts. -/
theorem spent_append_le (env : LedgerEnv) (reservations reservations' : ReservationTable)
    (usage : List UsageRow) (u : UsageRow) (now : Time) :
    (totals env reservations' (usage ++ [u]) now).tokensToday ≤
      (totals env reservations usage now).tokensToday + u.totalTokens ∧
      (totals env reservations' (usage ++ [u]) now).costMonth ≤
      (totals env reservations usage now).costMonth + u.costUsd := by
  constructor
  · show sumWhere _ _ (usage ++ [u]) ≤ _
    rw [sumWhere_append]
    exact add_le_add (le_refl _) (sumWhere_singleton_le u.totalTokens_nonneg)
  · show sumWhere _ _ (usage ++ [u]) ≤ _
    rw [sumWhere_append]
    exact add_le_add (le_refl _) (sumWhere_singleton_le u.cost_nonneg)

/-- The pledge of the reservation becomes the spend of its settlement. -/
theorem pledgeInv_commitSettle {env : LedgerEnv} {s t : LedgerState} {n : Nat} {now : Time}
    {id : Uuid} {record : UsageRecord} {c : Charge} {u : UsageRow} (h : PledgeInv env s)
    (hinv : LedgerInv env s) (hinv' : LedgerInv env t) (hn : s.txns n = .settled now id record c)
    (hu : usageRow env now record = some u) (hclock : t.clock = s.clock) (hfree : t.holder = none)
    (husage : t.usage = s.usage ++ [u])
    (hreservations : t.reservations =
      s.reservations.updateWhere (fun r => r.id = id) (settleRow now c) (fun _ => rfl)) :
    PledgeInv env t := by
  have hok := hinv n
  rw [hn] at hok
  have hlock := hok.2.1
  obtain ⟨r, hr, hid, hstatus, htokens, hcost⟩ := h.backed n now id record c hn
  have hpledged : pledged s r := by
    refine ⟨hstatus, Or.inr ?_⟩
    rw [LedgerState.settling, hlock, hid, Option.bind_some, hn]
    rfl
  have hcounts : ∀ r' ∈ s.reservations.rows,
      pledged t (Table.rewrite (fun r => r.id = id) (settleRow now c) r') → pledged s r' := by
    intro r' _ hp
    unfold Table.rewrite at hp
    split at hp
    · cases hp.1
    · obtain ⟨hstatus', hlive | hsettling⟩ := hp
      · exact ⟨hstatus', Or.inl (hclock ▸ hlive)⟩
      · rw [LedgerState.settling, hfree] at hsettling
        cases hsettling
  have hgone : ¬ pledged t (Table.rewrite (fun r => r.id = id) (settleRow now c) r) := by
    rw [Table.rewrite, if_pos hid]
    intro hp
    cases hp.1
  have hpaid : (pledges env t).reservedTokens + r.estimatedTokens ≤ (pledges env s).reservedTokens ∧
      (pledges env t).reservedCost + r.estimatedCostUsd ≤ (pledges env s).reservedCost := by
    have hshare : ∀ {β : Type} [AddCommMonoid β] [PartialOrder β] [IsOrderedAddMonoid β]
        (f : ReservationRow → β),
        (∀ r, 0 ≤ f r) → (∀ r, f (settleRow now c r) = f r) →
        sumWhere (pledged t) f t.reservations.rows + f r ≤
        sumWhere (pledged s) f s.reservations.rows := by
      intro β _ _ _ f hpos hkeep
      have hle :=
        sumWhere_map_add_le (p := pledged s) (q := pledged t) (k := fun r => r)
          (g := Table.rewrite (fun r => r.id = id) (settleRow now c)) hpos
          (fun r' hr' hp => ⟨hcounts r' hr' hp, le_of_eq (Table.key_rewrite hkeep r')⟩) hr
          hpledged hgone
      rw [List.map_id'] at hle
      rw [hreservations]
      exact hle
    exact ⟨hshare ReservationRow.estimatedTokens (fun r => r.estimate_nonneg.1) (fun _ => rfl),
      hshare ReservationRow.estimatedCostUsd (fun r => r.estimate_nonneg.2) (fun _ => rfl)⟩
  have hspent : (pledges env t).tokensToday ≤ (pledges env s).tokensToday + u.totalTokens ∧
      (pledges env t).costMonth ≤ (pledges env s).costMonth + u.costUsd := by
    simp only [pledges, totalsWhere]
    rw [husage, hclock]
    exact spent_append_le env s.reservations t.reservations s.usage u s.clock
  obtain ⟨hamount, hamount'⟩ := usageRow_amounts hu
  obtain ⟨hdaily, hmonthly⟩ := h.under
  constructor
  · constructor
    · have hone := hpaid.1
      have htwo := hspent.1
      omega
    · have hone := hpaid.2
      have htwo := hspent.2
      linarith
  · intro m now' id' record' c' hm
    exact absurd hm (not_settled_of_free hinv' hfree)
  · intro r' hr' hstatus'
    rw [hclock]
    rw [hreservations] at hr'
    rcases Table.mem_updateWhere (f := settleRow now c) (fun _ => rfl) hr' with ⟨hr', -⟩ |
      ⟨r'', -, -, rfl⟩
    · exact h.expired r' hr' hstatus'
    · cases hstatus'

theorem pledgeInv_release {env : LedgerEnv} {s : LedgerState} {id : Uuid} {reason : String}
    {now : Time} (h : PledgeInv env s) (hinv : LedgerInv env s)
    (hfree : ∀ n ∈ s.holder, id ∉ (s.txns n).written) :
    PledgeInv env { s with reservations := release s.reservations now id reason } where
  under := by
    apply h.under.of_le
    apply totalsWhere_updateWhere_le (f := releaseRow now reason)
      (c := fun r => r.id = id ∧ r.status = .reserved)
      (fun _ => rfl) (le_refl _) _ (fun _ => rfl) (fun _ => rfl)
    intro r _ hp
    unfold Table.rewrite at hp
    split at hp
    · cases hp.1
    · exact hp
  backed := by
    intro n now' id' record c hn
    obtain ⟨r, hr, hid, hrest⟩ := h.backed n now' id' record c hn
    have hok := hinv n
    have hn : s.txns n = .settled now' id' record c := hn
    rw [hn] at hok
    have hwritten := hfree n hok.2.1
    rw [hn] at hwritten
    have hne : ¬ (r.id = id ∧ r.status = .reserved) := by
      rintro ⟨hsame, -⟩
      exact hwritten (List.mem_singleton.mpr (hsame.symm.trans hid))
    refine ⟨r, List.mem_map.mpr ⟨r, hr, ?_⟩, hid, hrest⟩
    rw [Table.rewrite, if_neg hne]
  expired := by
    intro r' hr' hstatus
    rcases mem_release hr' with ⟨hr, -⟩ | ⟨r, -, -, rfl⟩
    · exact h.expired r' hr hstatus
    · cases hstatus

theorem settlesWithin_row {s : LedgerState} {n : Nat} {now : Time} {id : Uuid}
    {record : UsageRecord} {r : ReservationRow} (hok : settlesWithin s (.transition n) = true)
    (hn : s.txns n = .settleLocked now id record) (hr : r ∈ s.reservations.rows) (hid : r.id = id)
    (hopen : settleable r) :
    record.tokens ≤ r.estimatedTokens ∧ record.costUsd ≤ r.estimatedCostUsd ∧
      s.clock < r.expiresAt := by
  simp only [settlesWithin, hn] at hok
  have hrow := List.all_eq_true.mp hok r hr
  simpa [hid, hopen] using hrow

theorem pledgeInv_step {env : LedgerEnv} {s t : LedgerState} {a : LedgerAct} (h : PledgeInv env s)
    (hinv : LedgerInv env s) (hok : settlesWithin s a = true) (hmove : LedgerMove env s t a) :
    PledgeInv env t := by
  have hinv' := ledgerInv_step hinv hmove
  cases hmove with
  | tick now hnow ht =>
    subst ht
    exact pledgeInv_tick h hnow
  | beginReserve n q h' hn ht =>
    subst ht
    exact pledgeInv_update h rfl rfl rfl rfl rfl (fun _ _ hm => hm)
  | beginSettle n b id record hn ht =>
    subst ht
    exact pledgeInv_update h rfl rfl rfl rfl rfl (fun _ _ hm => hm)
  | lockReserve n now h' hfree hn ht =>
    subst ht
    refine pledgeInv_update h rfl rfl rfl rfl rfl ?_
    intro m hne hm
    exact absurd (Option.some.inj hm).symm hne
  | lockSettle n now id record hfree hn ht =>
    subst ht
    refine pledgeInv_update h rfl rfl rfl rfl rfl ?_
    intro m hne hm
    exact absurd (Option.some.inj hm).symm hne
  | expire n now h' hn ht =>
    subst ht
    exact pledgeInv_update h rfl rfl rfl rfl rfl (fun _ _ hm => hm)
  | check n now h' ids id hn hfits ht =>
    subst ht
    exact pledgeInv_update h rfl rfl rfl rfl rfl (fun _ _ hm => hm)
  | transition n now id record c r hn hr hid hopen hc ht =>
    subst ht
    obtain ⟨htokens, hcost, hlive⟩ := settlesWithin_row hok hn hr hid hopen
    exact pledgeInv_transition h hr hid hopen htokens hcost hlive
  | close n x hx ht =>
    subst ht
    have hsettling : x.settling = none := by
      cases x <;> trivial
    refine pledgeInv_update h rfl rfl rfl rfl hsettling ?_
    intro m _ hm
    exact (Option.filter_eq_some_iff.mp hm).1
  | commitReserve n now h' ids row reservations' hn hfresh hrows ht =>
    subst ht
    have hlocked := hinv n
    rw [hn] at hlocked
    exact pledgeInv_commitReserve h hinv hinv' hn rfl rfl (holder_freed hlocked.2.1) hrows
  | commitSettle n now id record c u hn hu ht =>
    subst ht
    have hlocked := hinv n
    rw [hn] at hlocked
    exact pledgeInv_commitSettle h hinv hinv' hn hu rfl (holder_freed hlocked.2.1) rfl rfl
  | released b id reason now hfree ht =>
    subst ht
    exact pledgeInv_release h hinv hfree
  | idle ht =>
    subst ht
    exact h

theorem pledgeInv_reaches {env : LedgerEnv} {clock : Time} {acts : List LedgerAct} {s : LedgerState}
    (hdaily : 0 < dailyCap env) (hmonthly : 0 < monthlyCap env)
    (h : Reaches (restrict (fun s a => settlesWithin s a = true) (ledgerStep env))
      (.initial clock) acts s) : PledgeInv env s := by
  have hboth : LedgerInv env s ∧ PledgeInv env s := by
    apply Reaches.invariant (P := fun s => LedgerInv env s ∧ PledgeInv env s) _ h
      ⟨ledgerInv_initial env clock, pledgeInv_initial clock hdaily hmonthly⟩
    rintro s a t ⟨hinv, hpledge⟩ ht
    obtain ⟨hok, hstep⟩ := restrict_eq_some.mp ht
    have hmove := ledgerStep_move hstep
    exact ⟨ledgerInv_step hinv hmove, pledgeInv_step hpledge hinv hok hmove⟩
  exact hboth.2

/-- The two laws of the budget: below the caps at the commit of every successful metered
reservation; and never at a cap, in any state of a run whose settlements stay within
their estimates and come in time. -/
theorem budget_ceiling (env : LedgerEnv) (clock : Time) (hdaily : 0 < dailyCap env)
    (hmonthly : 0 < monthlyCap env) :
    (∀ acts s a t n, Reaches (ledgerStep env) (.initial clock) acts s →
      ledgerStep env s a = some t →
      Grants s t n → Under env (totals env t.reservations t.usage t.clock)) ∧
      ∀ acts s, Reaches (restrict (fun s a => settlesWithin s a = true) (ledgerStep env))
      (.initial clock) acts s →
      (totals env s.reservations s.usage s.clock).tokensToday < dailyCap env ∧
      (totals env s.reservations s.usage s.clock).costMonth < monthlyCap env := by
  constructor
  · intro acts s a t n hs hstep hgrants
    exact under_of_grants (ledgerInv_reaches hs) (ledgerStep_move hstep) hgrants
  · intro acts s hs
    exact spent_below (pledgeInv_reaches hdaily hmonthly hs)

/-! ## A day of a small tenant -/

def smallTenant : LedgerEnv where
  tenant := ⟨1, "acme"⟩
  caps := some ⟨some 1000, none⟩
  settings :=
    { dailyTokenCap := 2000000
      monthlyCostCapUsd := 25
      budgetFailClosed := true
      budgetReservationTtlSeconds := 900
      release := "r1"
      ttl_bounds := by decide }
  calendar := .gregorian

def chatRequest (tokens : Int) (cost : ℚ) : ReserveRequest :=
  ⟨⟨⟨7, ⟨1, "acme"⟩, "alice", [.owner]⟩, 5, none, none, none⟩, "chat", "gpt-4o-mini", tokens, cost⟩

def chatUsage (input output : Int) (cost : ℚ) : UsageRecord :=
  ⟨7, none, "chat", "chat", "gpt-4o-mini", input, output, cost, false, true⟩

/-- Two calls reserve before midnight and a third one is refused. One of the two settles
over midnight, the other one releases. A fourth call, which began the day before, is
checked with the usage of that day; the last one begins after midnight. -/
def midnightCalls : List LedgerAct :=
  [.beginReserve 0 (chatRequest 600 1), .beginReserve 1 (chatRequest 300 2),
    .beginReserve 2 (chatRequest 200 1), .lock 0, .expire 0, .check 0 10, .commit 0,
    .lock 1, .expire 1, .check 1 11, .commit 1, .lock 2, .expire 2,
    .check 2 12, .beginReserve 3 (chatRequest 400 1),
    .beginSettle 4 ⟨some 10, 1, 600, 1, true⟩ (chatUsage 500 99 1), .lock 4, .transition 4,
    .tick 86410, .commit 4, .release ⟨some 11, 1, 300, 2, true⟩ "cancelled" 86405,
    .lock 3, .expire 3, .check 3 13, .commit 3, .beginReserve 5 (chatRequest 500 1), .lock 5,
    .expire 5, .check 5 14]

theorem midnightCalls_run :
    (midnightCalls.foldlM (restrict (fun s a => settlesWithin s a = true) (ledgerStep smallTenant))
      (.initial 86390)).isSome =
      true := by
  decide +kernel

/-- A commit of a call that is not settling is a reservation. -/
theorem grants_commit {env : LedgerEnv} {s t : LedgerState} {n : Nat}
    (hstep : ledgerStep env s (.commit n) = some t) (hn : (s.txns n).settling = none) :
    Grants s t n := by
  simp only [ledgerStep] at hstep
  split at hstep
  · rename_i now h ids row hrow
    obtain ⟨reservations', -, rfl⟩ := Option.map_eq_some_iff.mp hstep
    have ht : Function.update s.txns n (.reserveEnded (.ok (granted env h row.id))) n =
      .reserveEnded (.ok (granted env h row.id)) := Function.update_self _ _ _
    refine ⟨?_, granted env h row.id, ht, rfl⟩
    rw [hrow]
    intro hsame
    cases hsame.trans ht
  · rename_i hsettled
    rw [hsettled] at hn
    cases hn
  · cases hstep

theorem budget_ceiling_midnightCalls :
    ∃ s t, Reaches (ledgerStep smallTenant) (.initial 86390) midnightCalls s ∧
      ledgerStep smallTenant s (.commit 5) = some t ∧ Grants s t 5 ∧
      Under smallTenant (totals smallTenant t.reservations t.usage t.clock) ∧
      (totals smallTenant s.reservations s.usage s.clock).tokensToday < 1000 := by
  have hrun := reaches_get midnightCalls_run
  have hcommit :
      (ledgerStep smallTenant ((midnightCalls.foldlM (restrict (fun s a => settlesWithin s a = true)
        (ledgerStep smallTenant)) (.initial 86390)).get midnightCalls_run) (.commit 5)).isSome =
      true := by
    decide +kernel
  have hstep := (Option.some_get hcommit).symm
  have hgrants := grants_commit hstep (by decide +kernel)
  have hlaws := budget_ceiling smallTenant 86390 (by decide) (by decide +kernel)
  exact ⟨_, _, hrun.of_restrict, hstep, hgrants, hlaws.1 _ _ _ _ _ hrun.of_restrict hstep hgrants,
    (hlaws.2 _ _ hrun).1⟩

end AgenticPlatform.Observability
