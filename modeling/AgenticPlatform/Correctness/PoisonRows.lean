import AgenticPlatform.Correctness.Relay
import AgenticPlatform.Foundation.FairQueue
import AgenticPlatform.Foundation.StableSort

/-!
# Rows that cannot be published

One pass of the relay after another, with nothing new in the outbox. A row whose `publish`
raises stays where it is in the queue, so every pass meets it again. The queue is the one
of `FairQueue`, with the tenants as classes and the ids as order; what the passes leave
unpublished follows from what its passes leave.
-/
namespace AgenticPlatform.Correctness
open AgenticPlatform.Foundation AgenticPlatform.Identity AgenticPlatform.Db

/-! ## One pass -/

/-- What a pass on its own has recorded when it commits; `publish` is the error it raised. -/
def drained (publish : OutboxRow → Option String) (limit : Nat) (now : Time)
    (outbox : OutboxTable) : Pass where
  now := now
  waiting := []
  locked := []
  marks := ((servingOrder outbox).take limit).map
    (fun o => (o, (publish o).elim .published .failed))

/-- `drain`, with the number of rows it published. -/
def drain (publish : OutboxRow → Option String) (limit : Nat) (now : Time) (db : Store) :
    Store × Nat :=
  let p := drained publish limit now db.outbox
  (p.commitTo db, p.publishedRuns.length)

/-- Passes one after another, each with its clock and its broker. -/
def drains (publish : Nat → OutboxRow → Option String) (limit : Nat) (now : Nat → Time) :
    Nat → Store → Store
  | 0, db => db
  | k + 1, db => (drain (publish k) limit (now k) (drains publish limit now k db)).1

section
variable {k : Nat} {now : Time}

/-- Without other passes the lock steps take every candidate. -/
theorem lock_all {rows locked : List OutboxRow} {marks : List (OutboxRow × Mark)} {s : RelayState}
    (hp : s.passes k = .active ⟨now, rows.map OutboxRow.id, locked, marks⟩)
    (hnodup : (rows.map OutboxRow.id).Nodup) (hrows : ∀ o ∈ rows, s.db.outbox.get o.id = some o)
    (hfree : ∀ o ∈ rows, s.locks o.id = none) :
    ∃ t, Reaches relayStep s (List.replicate rows.length (.lock k)) t ∧ t.db = s.db ∧
      t.passes k = .active ⟨now, [], locked ++ rows, marks⟩ := by
  induction rows generalizing s locked with
  | nil => exact ⟨s, .nil _ _, rfl, by rw [hp, List.append_nil]; rfl⟩
  | cons o rows ih =>
    obtain ⟨hnew, hnodup⟩ := List.nodup_cons.mp hnodup
    obtain ⟨m, hm, hdb, hmp, hlocks⟩ : ∃ m, relayStep s (.lock k) = some m ∧ m.db = s.db ∧
        m.passes k = .active ⟨now, rows.map OutboxRow.id, locked ++ [o], marks⟩ ∧
        ∀ id ≠ o.id, m.locks id = s.locks id := by
      simp only [relayStep, hp, List.map_cons, hfree o List.mem_cons_self,
        hrows o List.mem_cons_self]
      exact ⟨_, rfl, rfl, Function.update_self .., fun id hid => Function.update_of_ne hid _ _⟩
    rw [← hdb] at hrows
    obtain ⟨t, ht, htdb, htp⟩ :=
      ih hmp hnodup (fun o' ho' => hrows o' (List.mem_cons_of_mem o ho')) (fun o' ho' => by
      have hne : o'.id ≠ o.id := fun he => hnew (List.mem_map.mpr ⟨o', ho', he⟩)
      rw [hlocks o'.id hne]
      exact hfree o' (List.mem_cons_of_mem o ho'))
    refine ⟨t, reaches_cons.mpr ⟨m, hm, ht⟩, htdb.trans hdb, ?_⟩
    rw [htp, List.append_assoc, List.singleton_append]

theorem publish_all (publish : OutboxRow → Option String) {rows : List OutboxRow}
    {marks : List (OutboxRow × Mark)} {s : RelayState}
    (hp : s.passes k = .active ⟨now, [], rows, marks⟩) :
    ∃ t, Reaches relayStep s (rows.map (fun o => .publish k (publish o))) t ∧
      t.db = s.db ∧ t.passes k = .active
      ⟨now, [], [], marks ++ rows.map (fun o => (o, (publish o).elim .published .failed))⟩ := by
  induction rows generalizing s marks with
  | nil => exact ⟨s, .nil _ _, rfl, by rw [hp, List.map_nil, List.append_nil]⟩
  | cons o rows ih =>
    obtain ⟨m, hm, hdb, hmp⟩ : ∃ m, relayStep s (.publish k (publish o)) = some m ∧ m.db = s.db ∧
        m.passes k =
        .active ⟨now, [], rows, marks ++ [(o, (publish o).elim .published .failed)]⟩ := by
      simp only [relayStep, hp]
      exact ⟨_, rfl, rfl, Function.update_self ..⟩
    obtain ⟨t, ht, htdb, htp⟩ := ih hmp
    refine ⟨t, reaches_cons.mpr ⟨m, hm, ht⟩, htdb.trans hdb, ?_⟩
    rw [htp, List.append_assoc, List.singleton_append, List.map_cons]

/-- `drain` is a pass that nobody else interferes with. -/
theorem drain_is_pass_alone (publish : OutboxRow → Option String) (limit : Nat) {s : RelayState}
    (hidle : s.passes k = .idle) (hfree : ∀ id, s.locks id = none) :
    ∃ acts t, Reaches relayStep s acts t ∧ t.db = (drain publish limit now s.db).1 ∧
      t.passes k = .committed := by
  obtain ⟨m, hbegin, hdb, hmp, hlocks⟩ : ∃ m, relayStep s (.begin k now limit) = some m ∧
      m.db = s.db ∧ m.passes k = .active ⟨now, candidates s.db.outbox limit, [], []⟩ ∧
      m.locks = s.locks := by
    simp only [relayStep, hidle]
    exact ⟨_, rfl, rfl, Function.update_self .., rfl⟩
  have hrows : ∀ o ∈ (servingOrder s.db.outbox).take limit, m.db.outbox.get o.id = some o := by
    intro o ho
    rw [hdb]
    exact Table.get_self (mem_servingOrder.mp (List.mem_of_mem_take ho)).1
  obtain ⟨t, hlock, hdb', hp⟩ := lock_all hmp (nodup_candidates s.db.outbox limit) hrows
    (fun o _ => by rw [hlocks, hfree])
  obtain ⟨u, hpublish, hdb'', hp'⟩ := publish_all publish hp
  obtain ⟨v, hcommit, hvdb, hvp⟩ : ∃ v, relayStep u (.commit k) = some v ∧
      v.db = (drained publish limit now s.db.outbox).commitTo u.db ∧ v.passes k = .committed := by
    simp only [relayStep, hp']
    exact ⟨_, rfl, rfl, Function.update_self ..⟩
  refine ⟨_, v, reaches_cons.mpr ⟨m, hbegin, reaches_append.mpr
    ⟨t, hlock, reaches_append.mpr ⟨u, hpublish, reaches_single.mpr hcommit⟩⟩⟩, ?_, hvp⟩
  rw [hvdb, hdb'', hdb', hdb]
  rfl

end

/-! ## The queue -/

def tenantOf (outbox : OutboxTable) (id : Nat) : Option Uuid :=
  (outbox.get id).map OutboxRow.tenantId

/-- The rows that are not published, by their ids. -/
def unpublished (outbox : OutboxTable) : Finset Nat := ((ranked outbox).map OutboxRow.id).toFinset

section
variable {outbox : OutboxTable}

theorem ranked_nodup (outbox : OutboxTable) : ((ranked outbox).map OutboxRow.id).Nodup :=
  outbox.nodup.sublist (List.filter_sublist.map OutboxRow.id)

theorem mem_ranked {o : OutboxRow} :
    o ∈ ranked outbox ↔ o ∈ outbox.rows ∧ o.publishedAt = none := by
  rw [ranked, List.mem_filter, decide_eq_true_eq]

theorem mem_unpublished {id : Nat} :
    id ∈ unpublished outbox ↔ ∃ o ∈ outbox.rows, o.id = id ∧ o.publishedAt = none := by
  simp only [unpublished, List.mem_toFinset, List.mem_map, mem_ranked]
  constructor
  · rintro ⟨o, ⟨ho, hnone⟩, hid⟩
    exact ⟨o, ho, hid, hnone⟩
  · rintro ⟨o, ho, hid, hnone⟩
    exact ⟨o, ⟨ho, hnone⟩, hid⟩

theorem tenantOf_id {o : OutboxRow} (ho : o ∈ outbox.rows) :
    tenantOf outbox o.id = some o.tenantId := by
  rw [tenantOf, Table.get_self ho, Option.map_some]

/-- Counting unpublished ids is counting unpublished rows. -/
theorem card_unpublished (p : Nat → Prop) [DecidablePred p] :
    ((unpublished outbox).filter p).card = ((ranked outbox).filter (fun o => p o.id)).length := by
  have hnodup := (ranked_nodup outbox).filter (fun id => decide (p id))
  have hset : (unpublished outbox).filter p =
      (((ranked outbox).map OutboxRow.id).filter (fun id => decide (p id))).toFinset := by
    ext id
    simp [unpublished]
  rw [hset, List.toFinset_card_of_nodup hnodup, List.filter_map, List.length_map]
  rfl

theorem tenantPos_eq {o : OutboxRow} (ho : o ∈ outbox.rows) :
    tenantPos (ranked outbox) o = FairQueue.place (tenantOf outbox) (unpublished outbox) o.id := by
  rw [FairQueue.place, card_unpublished, tenantPos]
  refine congrArg List.length (List.filter_congr ?_)
  intro x hx
  simp only [tenantOf_id ho, tenantOf_id (mem_ranked.mp hx).1, Option.some.injEq]

theorem rankedBefore_iff {a b : OutboxRow} (ha : a ∈ outbox.rows) (hb : b ∈ outbox.rows)
    (hne : a.id ≠ b.id) :
    rankedBefore (ranked outbox) a b ↔
      FairQueue.Before (tenantOf outbox) (unpublished outbox) a.id b.id := by
  rw [rankedBefore, FairQueue.Before, tenantPos_eq ha, tenantPos_eq hb]
  constructor
  · rintro (h | ⟨h, hle⟩)
    · exact Or.inl h
    · exact Or.inr ⟨h, Nat.lt_of_le_of_ne hle hne⟩
  · rintro (h | ⟨h, hlt⟩)
    · exact Or.inl h
    · exact Or.inr ⟨h, hlt.le⟩

/-- The serving order is the order of the queue. -/
theorem servingOrder_pairwise (outbox : OutboxTable) : (servingOrder outbox).Pairwise
    (fun a b => FairQueue.Before (tenantOf outbox) (unpublished outbox) a.id b.id) := by
  have htotal : Std.Total (rankedBefore (ranked outbox)) := by
    refine ⟨fun a b => ?_⟩
    unfold rankedBefore
    omega
  have htrans : IsTrans OutboxRow (rankedBefore (ranked outbox)) := by
    refine ⟨fun a b c hab hbc => ?_⟩
    unfold rankedBefore at hab hbc ⊢
    omega
  have hids : (servingOrder outbox).Pairwise (fun a b => a.id ≠ b.id) :=
    List.pairwise_map.mp
      (((List.perm_insertionSort _ _).map OutboxRow.id).nodup_iff.mpr (ranked_nodup outbox))
  have hsorted : (servingOrder outbox).Pairwise (rankedBefore (ranked outbox)) :=
    List.pairwise_insertionSort _ _
  refine (hsorted.and hids).imp_of_mem ?_
  rintro a b ha hb ⟨hab, hne⟩
  exact (rankedBefore_iff (mem_servingOrder.mp ha).1 (mem_servingOrder.mp hb).1 hne).mp hab

/-- A pass tries the rows with few enough others ahead of them. -/
theorem mem_candidates_iff {id limit : Nat} :
    id ∈ candidates outbox limit ↔ id ∈ unpublished outbox ∧
      FairQueue.ahead (tenantOf outbox) (unpublished outbox) id < limit := by
  have hasymm : ∀ a b : OutboxRow,
      FairQueue.Before (tenantOf outbox) (unpublished outbox) a.id b.id →
      ¬ FairQueue.Before (tenantOf outbox) (unpublished outbox) b.id a.id := by
    intro a b hab hba
    exact FairQueue.not_before_self a.id (hab.trans hba)
  have hfirst : ∀ o ∈ servingOrder outbox, o ∈ (servingOrder outbox).take limit ↔
      FairQueue.ahead (tenantOf outbox) (unpublished outbox) o.id < limit := by
    intro o ho
    have hperm := (List.perm_insertionSort (rankedBefore (ranked outbox)) (ranked outbox)).filter
      (fun x => decide (FairQueue.Before (tenantOf outbox) (unpublished outbox) x.id o.id))
    rw [mem_take_iff_of_pairwise hasymm (servingOrder_pairwise outbox) ho, FairQueue.ahead,
      card_unpublished, ← hperm.length_eq]
    rfl
  rw [candidates, List.mem_map]
  constructor
  · rintro ⟨o, ho, rfl⟩
    have hserve := List.mem_of_mem_take ho
    obtain ⟨hmem, hnone⟩ := mem_servingOrder.mp hserve
    exact ⟨mem_unpublished.mpr ⟨o, hmem, rfl, hnone⟩, (hfirst o hserve).mp ho⟩
  · rintro ⟨hid, hahead⟩
    obtain ⟨o, hmem, rfl, hnone⟩ := mem_unpublished.mp hid
    exact ⟨o, (hfirst o (mem_servingOrder.mpr ⟨hmem, hnone⟩)).mpr hahead, rfl⟩

end

/-! ## What passes leave -/

theorem Pass.markedOutbox_tenantId (p : Pass) (o : OutboxRow) :
    (p.markedOutbox o).tenantId = o.tenantId := by
  unfold Pass.markedOutbox
  cases p.markOf o.id with
  | none => rfl
  | some m => cases m <;> rfl

theorem tenantOf_commitTo (p : Pass) (db : Store) :
    tenantOf (p.commitTo db).outbox = tenantOf db.outbox := by
  funext id
  rw [tenantOf, Pass.commitTo, Table.get_update, Option.map_map, tenantOf]
  exact congrArg (fun f => (db.outbox.get id).map f) (funext p.markedOutbox_tenantId)

theorem mem_unpublished_iff {db : Store} {id : Nat} :
    id ∈ unpublished db.outbox ↔ id ∈ db.outbox.keys ∧ ¬ publishedIn db id := by
  rw [mem_unpublished]
  constructor
  · rintro ⟨o, ho, rfl, hnone⟩
    refine ⟨Table.key_mem_keys ho, ?_⟩
    rintro ⟨o', ho', hid, hpub⟩
    cases Table.eq_of_key ho' ho hid
    exact hpub hnone
  · rintro ⟨hid, hnot⟩
    obtain ⟨o, ho, rfl⟩ := Table.mem_keys.mp hid
    refine ⟨o, ho, rfl, ?_⟩
    by_contra hpub
    exact hnot ⟨o, ho, rfl, hpub⟩

section
variable {publish : OutboxRow → Option String} {limit : Nat} {now : Time} {db : Store}

theorem mem_marks_drained {o : OutboxRow} {m : Mark} :
    (o, m) ∈ (drained publish limit now db.outbox).marks ↔
      o ∈ (servingOrder db.outbox).take limit ∧ m = (publish o).elim .published .failed := by
  simp only [drained, List.mem_map, Prod.mk.injEq]
  constructor
  · rintro ⟨o', ho', rfl, rfl⟩
    exact ⟨ho', rfl⟩
  · rintro ⟨ho, rfl⟩
    exact ⟨o, ho, rfl, rfl⟩

/-- A pass publishes the candidates that do not fail. -/
theorem publishedIn_drain {failing : Finset Nat} (hfail : ∀ o, (publish o).isSome ↔ o.id ∈ failing)
    (id : Nat) :
    publishedIn (drain publish limit now db).1 id ↔
      publishedIn db id ∨ (id ∈ candidates db.outbox limit ∧ id ∉ failing) := by
  have hids : (drained publish limit now db.outbox).marks.map (fun m => m.1.id) =
      candidates db.outbox limit := by
    simp [drained, candidates, Function.comp_def]
  have hknown : ∀ m ∈ (drained publish limit now db.outbox).marks, m.1.id ∈ db.outbox.keys := by
    rintro ⟨o, m⟩ hm
    exact Table.key_mem_keys
      (mem_servingOrder.mp (List.mem_of_mem_take (mem_marks_drained.mp hm).1)).1
  refine (publishedIn_commitTo (hids ▸ nodup_candidates db.outbox limit) hknown id).trans
    (or_congr_right ?_)
  simp only [mem_marks_drained, candidates, List.mem_map]
  constructor
  · rintro ⟨o, ⟨ho, hmark⟩, rfl⟩
    refine ⟨⟨o, ho, rfl⟩, ?_⟩
    rw [← hfail o]
    intro herror
    obtain ⟨e, he⟩ := Option.isSome_iff_exists.mp herror
    rw [he] at hmark
    cases hmark
  · rintro ⟨⟨o, ho, rfl⟩, hnot⟩
    have hnone : publish o = none :=
      Option.not_isSome_iff_eq_none.mp (fun h => hnot ((hfail o).mp h))
    exact ⟨o, ⟨ho, by rw [hnone]; rfl⟩, rfl⟩

theorem keys_drain (publish : OutboxRow → Option String) (limit : Nat) (now : Time) (db : Store) :
    (drain publish limit now db).1.outbox.keys = db.outbox.keys :=
  Table.keys_update _ _ (Pass.markedOutbox_id _)

/-- A pass of the relay is a pass over the queue. -/
theorem unpublished_drain {failing : Finset Nat}
    (hfail : ∀ o, (publish o).isSome ↔ o.id ∈ failing) :
    unpublished (drain publish limit now db).1.outbox =
      FairQueue.pass (tenantOf db.outbox) limit (· ∈ failing) (unpublished db.outbox) := by
  ext id
  rw [mem_unpublished_iff, keys_drain, publishedIn_drain hfail, FairQueue.pass, Finset.mem_filter,
    mem_candidates_iff, mem_unpublished_iff]
  have hahead :=
    Nat.lt_or_ge (FairQueue.ahead (tenantOf db.outbox) (unpublished db.outbox) id) limit
  have hnot := @Nat.not_lt (FairQueue.ahead (tenantOf db.outbox) (unpublished db.outbox) id) limit
  tauto

end

section
variable {publish : Nat → OutboxRow → Option String} {limit : Nat} {now : Nat → Time} {db : Store}
  {failing : Finset Nat}

theorem tenantOf_drains (k : Nat) :
    tenantOf (drains publish limit now k db).outbox = tenantOf db.outbox := by
  induction k with
  | zero => rfl
  | succ k ih => exact (tenantOf_commitTo _ _).trans ih

theorem unpublished_drains (hfail : ∀ i o, (publish i o).isSome ↔ o.id ∈ failing) (k : Nat) :
    unpublished (drains publish limit now k db).outbox =
      (FairQueue.pass (tenantOf db.outbox) limit (· ∈ failing))^[k] (unpublished db.outbox) := by
  induction k with
  | zero => rfl
  | succ k ih =>
    rw [drains, unpublished_drain (hfail k), tenantOf_drains, ih, Function.iterate_succ_apply']

/-- The failing rows ahead of a row when it waits with them alone. -/
def failingAhead (outbox : OutboxTable) (failing : Finset Nat) (id : Nat) : Nat :=
  FairQueue.ahead (tenantOf outbox) (FairQueue.withFailing (· ∈ failing) (unpublished outbox) id) id

variable (publish limit now db) in
/-- A queue is emptied of what can be published exactly where no row waits behind a batch
of failing ones. -/
theorem emptied_iff (hfail : ∀ i o, (publish i o).isSome ↔ o.id ∈ failing) :
    (∃ k, ∀ id ∈ unpublished (drains publish limit now k db).outbox, id ∈ failing) ↔
      ∀ id ∈ unpublished db.outbox, id ∉ failing → failingAhead db.outbox failing id < limit := by
  simp only [unpublished_drains hfail]
  exact FairQueue.exists_passes_iff

/-- Fewer failing rows than a batch has places never block it. -/
theorem emptied_of_few_failing (hfail : ∀ i o, (publish i o).isSome ↔ o.id ∈ failing)
    (hfew : ((unpublished db.outbox).filter (· ∈ failing)).card < limit) :
    ∃ k, ∀ id ∈ unpublished (drains publish limit now k db).outbox, id ∈ failing := by
  refine (emptied_iff publish limit now db hfail).mpr ?_
  intro id hid hgood
  unfold failingAhead FairQueue.ahead
  refine lt_of_le_of_lt (Finset.card_le_card ?_) hfew
  intro id' hid'
  obtain ⟨hmem, hbefore⟩ := Finset.mem_filter.mp hid'
  obtain ⟨hmem, hf | rfl⟩ := Finset.mem_filter.mp hmem
  · exact Finset.mem_filter.mpr ⟨hmem, hf⟩
  · exact absurd hbefore (FairQueue.not_before_self id')

end

theorem only_failing_wait {outbox : OutboxTable} {failing : Finset Nat} :
    (∀ id ∈ unpublished outbox, id ∈ failing) ↔ ∀ o ∈ outbox.rows, o.id ∉ failing →
      o.publishedAt ≠ none := by
  constructor
  · intro h o ho hgood hnone
    exact hgood (h o.id (mem_unpublished.mpr ⟨o, ho, rfl, hnone⟩))
  · intro h id hid
    obtain ⟨o, ho, rfl, hnone⟩ := mem_unpublished.mp hid
    by_contra hgood
    exact h o ho hgood hnone

/-- After enough passes every row outside the failing ones is published, exactly where each
of them has fewer failing rows ahead of it than a batch has places, when it waits with the
failing rows alone. -/
theorem poison_rows_do_not_block_iff (publish : Nat → OutboxRow → Option String) (limit : Nat)
    (now : Nat → Time) (db : Store) (failing : Finset Nat)
    (hfail : ∀ i o, (publish i o).isSome ↔ o.id ∈ failing) :
    (∃ k, ∀ o ∈ (drains publish limit now k db).outbox.rows, o.id ∉ failing →
      o.publishedAt ≠ none) ↔
      ∀ o ∈ db.outbox.rows, o.publishedAt = none → o.id ∉ failing →
      failingAhead db.outbox failing o.id < limit := by
  simp only [← only_failing_wait]
  rw [emptied_iff publish limit now db hfail]
  constructor
  · intro h o ho hnone hgood
    exact h o.id (mem_unpublished.mpr ⟨o, ho, rfl, hnone⟩) hgood
  · intro h id hid hgood
    obtain ⟨o, ho, rfl, hnone⟩ := mem_unpublished.mp hid
    exact h o ho hnone hgood

/-! Two rows of two tenants; the broker refuses the first. -/

def outboxRow (id : Nat) (tenant : Uuid) : OutboxRow where
  id := id
  tenantId := tenant
  runId := id
  workload := "echo"
  payload := .emptyObj
  traceContext := .emptyObj
  createdAt := 0
  publishedAt := none
  publishAttempts := 0
  lastError := none

def twoTenants : Store := ⟨Table.empty, ⟨[outboxRow 1 1, outboxRow 2 2], by decide⟩⟩

def refuseFirst (_ : Nat) (o : OutboxRow) : Option String :=
  if o.id = 1 then some "ValueError" else none

theorem refuseFirst_fails (i : Nat) (o : OutboxRow) :
    (refuseFirst i o).isSome ↔ o.id ∈ ({1} : Finset Nat) := by
  by_cases h : o.id = 1 <;> simp [refuseFirst, h]

/-- In batches of two the second tenant's row goes out. -/
theorem poison_rows_do_not_block_batchesOfTwo :
    ∃ k, ∀ o ∈ (drains refuseFirst 2 (fun _ => 0) k twoTenants).outbox.rows,
      o.id ∉ ({1} : Finset Nat) → o.publishedAt ≠ none :=
  (poison_rows_do_not_block_iff refuseFirst 2 (fun _ => 0) twoTenants {1} refuseFirst_fails).mpr
    (by decide +kernel)

/-- In batches of one it never does. -/
theorem poison_row_blocks_batchesOfOne :
    ¬ ∃ k, ∀ o ∈ (drains refuseFirst 1 (fun _ => 0) k twoTenants).outbox.rows,
      o.id ∉ ({1} : Finset Nat) → o.publishedAt ≠ none := by
  rintro ⟨k, hk⟩
  have hblocked : ¬ ∀ id ∈ unpublished twoTenants.outbox, id ∉ ({1} : Finset Nat) →
      failingAhead twoTenants.outbox {1} id < 1 := by decide +kernel
  exact hblocked ((emptied_iff refuseFirst 1 (fun _ => 0) twoTenants refuseFirst_fails).mp
    ⟨k, only_failing_wait.mpr hk⟩)

end AgenticPlatform.Correctness
