import AgenticPlatform.Correctness.PoisonRows

/-!
# What one pass attempts

A pass that nobody competes with hands the first rows of the queue to the broker, whatever
the broker answers. How many rows of each tenant are among them is counted in the queue of
`FairQueue`, cut off where the first row is left out.
-/
namespace AgenticPlatform.Correctness
open AgenticPlatform.Foundation AgenticPlatform.Identity AgenticPlatform.Db

/-! ## A pass without competitors -/

/-- The steps between the selection of a pass and its commit. -/
def RelayAct.ofPass (k : Nat) : RelayAct → Prop
  | .lock k' => k' = k
  | .publish k' _ => k' = k
  | _ => False

instance (k : Nat) : DecidablePred (RelayAct.ofPass k)
  | .lock k' => inferInstanceAs (Decidable (k' = k))
  | .publish k' _ => inferInstanceAs (Decidable (k' = k))
  | .begin .. => isFalse id
  | .commit _ => isFalse id
  | .crash _ => isFalse id

/-- Pass `k` has met the first of these rows and nobody holds the ones it has yet to meet. -/
def MetInOrder (outbox : OutboxTable) (rows : List OutboxRow) (k : Nat) (s : RelayState) : Prop :=
  s.db.outbox = outbox ∧ ∃ p rest, s.passes k = .active p ∧ p.waiting = rest.map OutboxRow.id ∧
    p.marks.map Prod.fst ++ p.locked ++ rest = rows ∧ ∀ o ∈ rest, s.locks o.id = none

section
variable {outbox : OutboxTable} {rows : List OutboxRow} {k : Nat} {s t : RelayState}

theorem metInOrder_step (hrows : ∀ o ∈ rows, o ∈ outbox.rows)
    (hnodup : (rows.map OutboxRow.id).Nodup) {a : RelayAct} (ha : a.ofPass k)
    (h : MetInOrder outbox rows k s) (hstep : relayStep s a = some t) :
    MetInOrder outbox rows k t := by
  obtain ⟨hdb, p, rest, hp, hwaiting, hmet, hfree⟩ := h
  cases a with
  | lock k' =>
    cases ha
    obtain ⟨p', id, waiting, hp', hw, hcase⟩ := relayStep_lock hstep
    cases hp.symm.trans hp'
    obtain ⟨o, rest, rfl, hid, rfl⟩ := List.map_eq_cons_iff.mp (hwaiting.symm.trans hw)
    subst hid
    have hmem : o ∈ rows := by
      rw [← hmet]
      exact List.mem_append_right _ List.mem_cons_self
    have hget : s.db.outbox.get o.id = some o := by
      rw [hdb]
      exact Table.get_self (hrows o hmem)
    rcases hcase with ⟨o', -, hget', rfl⟩ | ⟨hother, -⟩
    · cases hget.symm.trans hget'
      refine ⟨hdb, _, rest, Function.update_self .., rfl, ?_, ?_⟩
      · simpa only [List.append_assoc, List.singleton_append] using hmet
      · intro o' ho'
        have hne : o'.id ≠ o.id := by
          rw [← hmet, List.map_append, List.map_cons] at hnodup
          intro heq
          exact (List.nodup_cons.mp (List.nodup_append.mp hnodup).2.1).1
            (List.mem_map.mpr ⟨o', ho', heq⟩)
        exact (Function.update_of_ne hne _ _).trans (hfree o' (List.mem_cons_of_mem o ho'))
    · rcases hother with hlock | hnone
      · exact absurd (hfree o List.mem_cons_self) hlock
      · cases hget.symm.trans hnone
  | publish k' error =>
    cases ha
    obtain ⟨p', o, locked, hp', hw, hlocked, rfl⟩ := relayStep_publish hstep
    cases hp.symm.trans hp'
    refine ⟨hdb, _, rest, Function.update_self .., hwaiting, ?_, hfree⟩
    simpa only [hlocked, List.map_append, List.map_cons, List.map_nil, List.append_assoc,
      List.singleton_append] using hmet
  | begin k' now limit => exact ha.elim
  | commit k' => exact ha.elim
  | crash k' => exact ha.elim

theorem metInOrder_run (hrows : ∀ o ∈ rows, o ∈ outbox.rows)
    (hnodup : (rows.map OutboxRow.id).Nodup) {acts : List RelayAct} (hacts : ∀ a ∈ acts, a.ofPass k)
    (h : MetInOrder outbox rows k s) (hrun : Reaches relayStep s acts t) :
    MetInOrder outbox rows k t := by
  induction acts generalizing s with
  | nil => exact reaches_nil.mp hrun ▸ h
  | cons a acts ih =>
    obtain ⟨m, hm, hrun⟩ := reaches_cons.mp hrun
    exact ih (fun b hb => hacts b (List.mem_cons_of_mem a hb))
      (metInOrder_step hrows hnodup (hacts a List.mem_cons_self) h hm) hrun

end

/-- It attempts the first rows of the queue, in their order. -/
theorem attempts_of_pass_alone {k n : Nat} {now : Time} {acts : List RelayAct} {s t : RelayState}
    {marks : List (OutboxRow × Mark)} (hfree : ∀ id, s.locks id = none)
    (hacts : ∀ a ∈ acts, a.ofPass k) (hrun : Reaches relayStep s (.begin k now n :: acts) t)
    (hdone : t.passes k = .active ⟨now, [], [], marks⟩) :
    marks.map Prod.fst = (servingOrder s.db.outbox).take n := by
  obtain ⟨m, hbegin, hrun⟩ := reaches_cons.mp hrun
  obtain ⟨-, hm⟩ := relayStep_begin hbegin
  have hrows : ∀ o ∈ (servingOrder s.db.outbox).take n, o ∈ s.db.outbox.rows :=
    fun o ho => (mem_servingOrder.mp (List.mem_of_mem_take ho)).1
  have hstart : MetInOrder s.db.outbox ((servingOrder s.db.outbox).take n) k m := by
    rw [hm]
    exact ⟨rfl, _, (servingOrder s.db.outbox).take n, Function.update_self .., rfl, rfl,
      fun o _ => hfree o.id⟩
  obtain ⟨-, p, rest, hp, hwaiting, hmet, -⟩ :=
    metInOrder_run hrows (nodup_candidates s.db.outbox n) hacts hstart hrun
  cases hdone.symm.trans hp
  rw [← hmet, List.map_eq_nil_iff.mp hwaiting.symm, List.append_nil, List.append_nil]

/-! ## Whom the first rows belong to -/

/-- The tenants with unpublished rows. -/
def tenants (outbox : OutboxTable) : Finset Uuid :=
  ((ranked outbox).map OutboxRow.tenantId).toFinset

/-- The rows of one tenant. -/
def rowsOf (tenant : Uuid) (rows : List OutboxRow) : List OutboxRow :=
  rows.filter (fun o => o.tenantId = tenant)

/-- What a pass over at most `n` rows attempts, with the unpublished rows taken in turns. -/
structure TenantFair (outbox : OutboxTable) (n : Nat) (tried : List OutboxRow) : Prop where
  length : tried.length = min n (ranked outbox).length
  unpublished : ∀ o ∈ tried, o ∈ ranked outbox
  once : (tried.map OutboxRow.id).Nodup
  smallest : ∀ o ∈ tried, ∀ o' ∈ ranked outbox, o' ∉ tried → rankedBefore (ranked outbox) o o'
  balanced : ∀ o ∈ ranked outbox, o ∉ tried → ∀ tenant ≠ o.tenantId,
    (rowsOf tenant tried).length ≤ (rowsOf o.tenantId tried).length + 1
  oldest : (tenants outbox).card ≤ n → ∀ o ∈ ranked outbox,
    (∀ o' ∈ ranked outbox, o'.tenantId = o.tenantId → o.id ≤ o'.id) → o ∈ tried
  inOrder : tried.Pairwise (fun a b => a.tenantId = b.tenantId → a.id < b.id)

section
variable {outbox : OutboxTable}

theorem mem_servingOrder_iff_ranked {o : OutboxRow} : o ∈ servingOrder outbox ↔ o ∈ ranked outbox :=
  mem_servingOrder.trans mem_ranked.symm

theorem id_mem_unpublished {o : OutboxRow} (ho : o ∈ ranked outbox) :
    o.id ∈ unpublished outbox := by
  obtain ⟨hmem, hnone⟩ := mem_ranked.mp ho
  exact mem_unpublished.mpr ⟨o, hmem, rfl, hnone⟩

theorem tenantOf_ranked {o : OutboxRow} (ho : o ∈ ranked outbox) :
    tenantOf outbox o.id = some o.tenantId :=
  tenantOf_id (mem_ranked.mp ho).1

/-- The classes of the queue are the tenants. -/
theorem card_classes :
    ((unpublished outbox).image (tenantOf outbox)).card = (tenants outbox).card := by
  have himage : (unpublished outbox).image (tenantOf outbox) = (tenants outbox).image some := by
    ext tenant
    simp only [Finset.mem_image, unpublished, tenants, List.mem_toFinset, List.mem_map]
    constructor
    · rintro ⟨_, ⟨o, ho, rfl⟩, htenant⟩
      exact ⟨_, ⟨o, ho, rfl⟩, (tenantOf_ranked ho).symm.trans htenant⟩
    · rintro ⟨_, ⟨o, ho, rfl⟩, htenant⟩
      exact ⟨_, ⟨o, ho, rfl⟩, (tenantOf_ranked ho).trans htenant⟩
  rw [himage, Finset.card_image_of_injective _ (Option.some_injective _)]

/-- Where the queue is cut before some row, what is attempted is what that row waits for. -/
theorem rowsOf_eq_aheadIn {n : Nat} {first : OutboxRow} {rest : List OutboxRow}
    (hcut : (servingOrder outbox).drop n = first :: rest) (tenant : Uuid) :
    (rowsOf tenant ((servingOrder outbox).take n)).length =
      (FairQueue.aheadIn (tenantOf outbox) (unpublished outbox) (some tenant) first.id).card := by
  have hsplit : (servingOrder outbox).take n ++ first :: rest = servingOrder outbox := by
    rw [← hcut, List.take_append_drop]
  have hpairwise := servingOrder_pairwise outbox
  rw [← hsplit] at hpairwise
  obtain ⟨-, hrest, hahead⟩ := List.pairwise_append.mp hpairwise
  have hnone : ∀ o ∈ first :: rest,
      ¬ FairQueue.Before (tenantOf outbox) (unpublished outbox) o.id first.id := by
    intro o ho
    rcases List.mem_cons.mp ho with rfl | ho
    · exact FairQueue.not_before_self _
    · exact fun hback =>
        FairQueue.not_before_self _ (hback.trans ((List.pairwise_cons.mp hrest).1 o ho))
  have hperm : ((servingOrder outbox).take n ++ first :: rest).Perm (ranked outbox) := by
    rw [hsplit]
    exact List.perm_insertionSort _ _
  rw [FairQueue.aheadIn, card_unpublished (fun id => tenantOf outbox id = some tenant ∧
    FairQueue.Before (tenantOf outbox) (unpublished outbox) id first.id),
    ← (hperm.filter _).length_eq, List.filter_append]
  have hdrop : (first :: rest).filter (fun o => decide (tenantOf outbox o.id = some tenant ∧
      FairQueue.Before (tenantOf outbox) (unpublished outbox) o.id first.id)) = [] := by
    refine List.filter_eq_nil_iff.mpr ?_
    intro o ho hboth
    exact hnone o ho (of_decide_eq_true hboth).2
  rw [hdrop, List.append_nil, rowsOf]
  refine congrArg List.length (List.filter_congr ?_)
  intro o ho
  have hmem : o ∈ ranked outbox := mem_servingOrder_iff_ranked.mp (List.mem_of_mem_take ho)
  have hbefore := hahead o ho first List.mem_cons_self
  simp only [tenantOf_ranked hmem, Option.some.injEq, hbefore, and_true]

/-- A row left out shows where the queue is cut. -/
theorem exists_cut {n : Nat} {o : OutboxRow} (ho : o ∈ ranked outbox)
    (hout : o ∉ (servingOrder outbox).take n) :
    ∃ first rest, (servingOrder outbox).drop n = first :: rest ∧
      ¬ FairQueue.Before (tenantOf outbox) (unpublished outbox) o.id first.id := by
  have hmem := mem_servingOrder_iff_ranked.mpr ho
  have hpairwise := servingOrder_pairwise outbox
  rw [← List.take_append_drop n (servingOrder outbox)] at hmem hpairwise
  have hdrop : o ∈ (servingOrder outbox).drop n := (List.mem_append.mp hmem).resolve_left hout
  obtain ⟨-, hrest, -⟩ := List.pairwise_append.mp hpairwise
  cases hcut : (servingOrder outbox).drop n with
  | nil =>
    rw [hcut] at hdrop
    cases hdrop
  | cons first rest =>
    rw [hcut] at hdrop hrest
    refine ⟨first, rest, rfl, ?_⟩
    rcases List.mem_cons.mp hdrop with rfl | hlater
    · exact FairQueue.not_before_self _
    · exact fun hback =>
        FairQueue.not_before_self _ (hback.trans ((List.pairwise_cons.mp hrest).1 o hlater))

theorem first_rows_balanced {n : Nat} {o : OutboxRow} (ho : o ∈ ranked outbox)
    (hout : o ∉ (servingOrder outbox).take n) (tenant : Uuid) :
    (rowsOf tenant ((servingOrder outbox).take n)).length ≤
      (rowsOf o.tenantId ((servingOrder outbox).take n)).length + 1 := by
  obtain ⟨first, rest, hcut, hnot⟩ := exists_cut ho hout
  rw [rowsOf_eq_aheadIn hcut, rowsOf_eq_aheadIn hcut]
  exact FairQueue.card_aheadIn_le_succ (id_mem_unpublished ho) (tenantOf_ranked ho) hnot

theorem oldest_among_first_rows {n : Nat} (hn : (tenants outbox).card ≤ n) {o : OutboxRow}
    (ho : o ∈ ranked outbox)
    (holdest : ∀ o' ∈ ranked outbox, o'.tenantId = o.tenantId → o.id ≤ o'.id) :
    o ∈ (servingOrder outbox).take n := by
  have hfirst : ∀ id ∈ unpublished outbox, tenantOf outbox id = tenantOf outbox o.id →
      o.id ≤ id := by
    intro id hid htenant
    obtain ⟨o', ho', rfl⟩ := List.mem_map.mp (List.mem_toFinset.mp hid)
    rw [tenantOf_ranked ho, tenantOf_ranked ho'] at htenant
    exact holdest o' ho' (Option.some.inj htenant)
  have hahead := FairQueue.ahead_lt_card_classes (id_mem_unpublished ho) hfirst
  rw [card_classes] at hahead
  have hcandidate := mem_candidates_iff.mpr ⟨id_mem_unpublished ho, hahead.trans_le hn⟩
  obtain ⟨o', ho', hid⟩ := List.mem_map.mp hcandidate
  have heq :=
    Table.eq_of_key (mem_servingOrder.mp (List.mem_of_mem_take ho')).1 (mem_ranked.mp ho).1 hid
  exact heq ▸ ho'

/-- The first rows of the queue are shared out fairly among the tenants. -/
theorem tenantFair_take (outbox : OutboxTable) (n : Nat) :
    TenantFair outbox n ((servingOrder outbox).take n) where
  length := by rw [List.length_take, servingOrder, (List.perm_insertionSort _ _).length_eq]
  unpublished o ho := mem_servingOrder_iff_ranked.mp (List.mem_of_mem_take ho)
  once := nodup_candidates outbox n
  smallest o ho o' ho' hout := by
    have hmem := mem_servingOrder_iff_ranked.mpr ho'
    have hpairwise := servingOrder_pairwise outbox
    rw [← List.take_append_drop n (servingOrder outbox)] at hmem hpairwise
    have hbefore :=
      (List.pairwise_append.mp hpairwise).2.2 o ho o' ((List.mem_append.mp hmem).resolve_left hout)
    have hne : o.id ≠ o'.id := by
      intro heq
      exact FairQueue.not_before_self o'.id (heq ▸ hbefore)
    exact (rankedBefore_iff (mem_servingOrder.mp (List.mem_of_mem_take ho)).1 (mem_ranked.mp ho').1
      hne).mpr hbefore
  balanced o ho hout tenant _ := first_rows_balanced ho hout tenant
  oldest hn o ho holdest := oldest_among_first_rows hn ho holdest
  inOrder := by
    refine ((servingOrder_pairwise outbox).sublist (List.take_sublist n _)).imp_of_mem ?_
    intro a b ha hb hbefore htenant
    have ha' : a ∈ ranked outbox := mem_servingOrder_iff_ranked.mp (List.mem_of_mem_take ha)
    have hb' : b ∈ ranked outbox := mem_servingOrder_iff_ranked.mp (List.mem_of_mem_take hb)
    have hclass : tenantOf outbox b.id = tenantOf outbox a.id := by
      rw [tenantOf_ranked ha', tenantOf_ranked hb', htenant]
    by_contra hle
    rcases (not_lt.mp hle).eq_or_lt with heq | hlt
    · exact FairQueue.not_before_self a.id (heq ▸ hbefore)
    · exact FairQueue.not_before_self _
        (hbefore.trans (FairQueue.before_of_lt (id_mem_unpublished ha') hclass hlt))

end

/-- A pass that nobody competes with attempts the first rows of the queue, whatever becomes
of its calls, and no tenant's backlog keeps another tenant's rows out. -/
theorem drain_is_tenant_fair {k n : Nat} {now : Time} {acts : List RelayAct} {s t : RelayState}
    {marks : List (OutboxRow × Mark)} (hfree : ∀ id, s.locks id = none)
    (hacts : ∀ a ∈ acts, a.ofPass k) (hrun : Reaches relayStep s (.begin k now n :: acts) t)
    (hdone : t.passes k = .active ⟨now, [], [], marks⟩) :
    TenantFair s.db.outbox n (marks.map Prod.fst) := by
  rw [attempts_of_pass_alone hfree hacts hrun hdone]
  exact tenantFair_take s.db.outbox n

/-! One tenant's backlog of three, and one row of another tenant behind it. -/

def backlog : Store :=
  ⟨Table.empty, ⟨[outboxRow 1 1, outboxRow 2 1, outboxRow 3 1, outboxRow 4 2], by decide⟩⟩

/-- A batch of two takes one row of each, though the broker refuses the first. -/
def batchOfTwo : List RelayAct :=
  [.lock 0, .lock 0, .publish 0 (some "ValueError"), .publish 0 none]

def marksOfTwo : List (OutboxRow × Mark) :=
  [(outboxRow 1 1, .failed "ValueError"), (outboxRow 4 2, .published)]

theorem drain_is_tenant_fair_backlog :
    ∃ t, Reaches relayStep (.initial backlog) (.begin 0 0 2 :: batchOfTwo) t ∧
      t.passes 0 = .active ⟨0, [], [], marksOfTwo⟩ ∧
      TenantFair backlog.outbox 2 (marksOfTwo.map Prod.fst) := by
  have hsome : ((RelayAct.begin 0 0 2 :: batchOfTwo).foldlM relayStep (.initial backlog)).isSome =
      true := rfl
  have hrun := reaches_get hsome
  exact ⟨_, hrun, rfl, drain_is_tenant_fair (fun _ => rfl) (by decide) hrun rfl⟩

end AgenticPlatform.Correctness
